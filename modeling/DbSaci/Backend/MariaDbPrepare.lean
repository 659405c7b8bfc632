import DbSaci.Library.Utf8
import DbSaci.Wire.Placeholders

set_option relaxedAutoImplicit false
set_option autoImplicit false

/-!
# Parameters of a statement for MariaDB

A statement comes with `?` for its parameters, or with `$n` if it was written for Postgres. Which of
the two it is goes by the text alone, and literals and comments are part of the text.

## Main definitions

* `bindValue` — the value the driver gets for a parameter.
* `mariadbPrepare` — the statement and the values for the driver.
* `markers` — how many parameters MariaDB reads in a statement.
* `LinesUp` — the parameters of the statement are the placeholders of the client.

## Main results

* `linesUp_iff` — the parameters line up exactly if the text has no `$n` and MariaDB reads as many
  parameters as there are placeholders, or if the `$n` of the text stand for the same values.
-/

namespace DbSaci.Backend

open Wire Text Decimal

/-! ### Values -/

/-- A value for a parameter. A floating point number is its bits. -/
inductive Param
  | null
  | bytes (b : List UInt8)
  | int (v : ℤ)
  | double (bits : UInt64)
  deriving DecidableEq, Repr

/-- `is_finite`, of the bits of a number. -/
def isFinite (bits : UInt64) : Bool := bits.toNat / 2 ^ 52 % 2 ^ 11 ≠ 2047

/-- The text without the quotes at its ends. -/
def trimQuotes (s : List Char) : List Char := (s.dropWhile (· == '\'')).rdropWhile (· == '\'')

/-- The text of a date and time behind the keyword of its literal. -/
def literalBody (t : List Char) : List Char :=
  match ["TIMESTAMPTZ ", "TIMESTAMP ", "DATE ", "TIMESTAMP'"].findSome? fun keyword =>
      t.dropPrefix? keyword.toList with
  | some body => trim body
  | none => t

/-- The text without an offset behind its last blank. -/
def withoutOffset (s : List Char) : List Char :=
  match rfind [' '] s with
  | some n =>
    match s.drop (n + 1) with
    | sign :: tail =>
      if (sign = '+' ∨ sign = '-') ∧ tail.all (fun c => c.isDigit || c == ':') then
        trimEnd (s.take n)
      else s
    | [] => s
  | none => s

/-- `bind_value`: the value for the driver. -/
def bindValue : BindValue → Except String Param
  | .null => .ok .null
  | .temporal s =>
    .ok (.bytes (utf8Encode (withoutOffset (trim (trimQuotes (literalBody (trim s)))))))
  | .string s | .number s => .ok (.bytes (utf8Encode s))
  | .bytes b => .ok (.bytes b)
  | .boolean b => .ok (.int (if b then 1 else 0))
  | .binaryDouble bits =>
    if isFinite bits then .ok (.double bits)
    else .error "non-finite floating bind is unsupported"

/-- `collect`: what all of them are, or the first error. -/
def allOk {ε α : Type} : List (Except ε α) → Except ε (List α)
  | [] => .ok []
  | .error e :: _ => .error e
  | .ok a :: xs => (allOk xs).map (a :: ·)

/-! ### The statement -/

/-- There is a dollar with a digit behind it. -/
def hasDollarDigit : List Char → Bool
  | [] => false
  | c :: s => (c == '$' && s.head?.any Char.isDigit) || hasDollarDigit s

/-- The types of casts. -/
def castTypes : List String :=
  ["text", "numeric", "bytea", "timestamptz", "timestamp", "boolean", "double precision",
    "integer", "bigint", "decimal"]

/-- The type of the cast a text starts with, and the text behind it. -/
def nextCast (s : List Char) : Option (String × List Char) :=
  match s with
  | ':' :: ':' :: after =>
    let after := trimStart after
    (castTypes.find? fun ty => upper (after.take ty.length) == upper ty.toList).map fun ty =>
      (ty, after.drop ty.length)
  | _ => none

/-- The casts a text starts with, at most so many, and the text behind them. -/
def castChain : ℕ → List Char → List String × List Char
  | 0, s => ([], s)
  | n + 1, s =>
    match nextCast s with
    | none => ([], s)
    | some (ty, s) => (ty :: (castChain n s).1, (castChain n s).2)

/-- `consume_pg_cast_chain`: what a parameter becomes with the casts behind it, and the text behind
them. -/
def consumePgCastChain (s : List Char) : String × List Char :=
  let (casts, rest) := castChain s.length s
  let numeric := casts.any fun ty =>
    ["numeric", "double precision", "integer", "bigint", "decimal"].contains ty
  if casts = [] then ("?", rest)
  else if casts.contains "bytea" then ("CAST(? AS BINARY)", rest)
  else if casts.head? = some "text" ∧ numeric = false then ("CAST(? AS CHAR(4000))", rest)
  else ("?", rest)

/-- A part of the statement: one that is copied, or a numbered parameter and what it becomes. -/
inductive Part
  | copy (text : List Char)
  | parameter (n : ℕ) (replacement : String)
  deriving DecidableEq, Repr

/-- A number of a parameter, or zero if it is too large. -/
def parseIndex (digits : List Char) : ℕ :=
  if ofDigits (digits.map digitVal) < 2 ^ 64 then ofDigits (digits.map digitVal) else 0

/-- The part that starts with a character, and how much of what is behind it is part of it. -/
def nextPart (c : Char) (s : List Char) : Part × ℕ :=
  if c = '\'' ∨ c = '"' ∨ c = '\x60' then (.copy (c :: s.take (quotedEnd c s)), quotedEnd c s)
  else if c = '$' ∧ s.head?.any Char.isDigit = true then
    let (replacement, rest) := consumePgCastChain (s.dropWhile Char.isDigit)
    (.parameter (parseIndex (s.takeWhile Char.isDigit)) replacement, s.length - rest.length)
  else (.copy [c], 0)

/-- The parts of a statement. -/
def parts (sql : List Char) : List Part := scan nextPart sql

/-- The value for the driver for a numbered parameter. -/
def numberedValue (binds : List BindValue) (n : ℕ) : Except String Param :=
  match if n = 0 then none else binds[n - 1]? with
  | none => .error ("bind $" ++ toString n ++ " referenced but not supplied")
  | some bind => bindValue bind

/-- The statement and the values, part by part. -/
def rewriteParts (binds : List BindValue) : List Part → Except String (List Char × List Param)
  | [] => .ok ([], [])
  | .copy text :: ps => (rewriteParts binds ps).map fun r => (text ++ r.1, r.2)
  | .parameter n replacement :: ps =>
    match numberedValue binds n with
    | .error e => .error e
    | .ok value => (rewriteParts binds ps).map fun r => (replacement.toList ++ r.1, value :: r.2)

/-- `mariadb_prepare`: the statement and the values for the driver. -/
def mariadbPrepare (sql : List Char) (binds : List BindValue) :
    Except String (List Char × List Param) :=
  if hasDollarDigit sql = false ∧ '?' ∈ sql ∧ binds ≠ [] then
    (allOk (binds.map bindValue)).map fun params => (sql, params)
  else rewriteParts binds (parts sql)

/-! ### What MariaDB reads -/

/-- A comment that starts with two hyphens has white space behind them. -/
def startsLineComment (s : List Char) : Bool :=
  match s with
  | '-' :: [] => true
  | '-' :: c :: _ => c.toNat ≤ 32
  | _ => false

/-- Whether a character is a parameter, and how much of what is behind it is no text of its own. -/
def nextMarker (c : Char) (s : List Char) : Bool × ℕ :=
  if c = '\'' ∨ c = '"' ∨ c = '\x60' then (false, quotedEnd c s)
  else if c = '#' ∨ (c = '-' ∧ startsLineComment s = true) then (false, lineEnd s)
  else if c = '/' ∧ s.head? = some '*' then (false, commentEnd s)
  else (c == '?', 0)

/-- How many parameters there are in a statement, outside of literals, quoted identifiers and
comments. -/
def markers (statement : List Char) : ℕ := (scan nextMarker statement).count true

/-- The values of the placeholders of the client, in their order. -/
def placeholderValues (sql : List Char) (binds : List BindValue) : List BindValue :=
  if isPlsqlDefn sql then [] else (places .start (scannerReading sql)).map (valueOf binds)

/-- **The parameters line up**: the statement has as many parameters as there are values, and those
are the values of the placeholders, in their order. -/
def LinesUp (sql : List Char) (binds : List BindValue) (bound : BoundSql) : Prop :=
  ∃ statement params, mariadbPrepare bound.sql bound.binds = .ok (statement, params) ∧
    markers statement = params.length ∧
    params.map Except.ok = (placeholderValues sql binds).map bindValue

/-! ### Values that have been converted -/

/-- A value can be converted unless it is an infinite number or none. -/
lemma exists_bindValue_iff (b : BindValue) :
    (∃ value, bindValue b = .ok value) ↔ ∀ bits, b = .binaryDouble bits → isFinite bits = true := by
  cases b with
  | binaryDouble bits =>
    rw [bindValue]
    by_cases h : isFinite bits = true
    · rw [if_pos h]
      refine iff_of_true ⟨_, rfl⟩ ?_
      rintro _ ⟨⟩
      exact h
    · rw [if_neg h]
      refine iff_of_false ?_ fun hall => h (hall bits rfl)
      rintro ⟨value, hvalue⟩
      cases hvalue
  | _ => exact iff_of_true ⟨_, rfl⟩ fun bits hbits => by cases hbits

lemma allOk_eq_ok_iff {ε α : Type} (xs : List (Except ε α)) (values : List α) :
    allOk xs = .ok values ↔ values.map Except.ok = xs := by
  induction xs generalizing values with
  | nil =>
    rw [List.map_eq_nil_iff]
    exact ⟨fun h => (Except.ok.inj h).symm, fun h => h ▸ rfl⟩
  | cons x xs ih =>
    cases x with
    | error e =>
      refine iff_of_false (fun h => by cases h) fun h => ?_
      cases values with
      | nil => cases h
      | cons value values => cases (List.cons.inj h).1
    | ok a =>
      rw [allOk]
      constructor
      · intro h
        cases hxs : allOk xs with
        | error e =>
          rw [hxs] at h
          cases h
        | ok as =>
          rw [hxs] at h
          obtain rfl := Except.ok.inj h
          rw [List.map_cons, (ih as).1 hxs]
      · intro h
        cases values with
        | nil => cases h
        | cons value values =>
          obtain ⟨hhead, htail⟩ := List.cons.inj h
          obtain rfl := Except.ok.inj hhead
          rw [(ih values).2 htail]
          rfl

/-! ### The parts of a statement -/

/-- The text of a part, with a parameter of MariaDB for a numbered one. -/
def Part.text : Part → List Char
  | .copy text => text
  | .parameter _ replacement => replacement.toList

/-- The number of a part. -/
def Part.number? : Part → Option ℕ
  | .copy _ => none
  | .parameter n _ => some n

/-- The numbers `$n` outside of quotes. -/
def numbers (sql : List Char) : List ℕ := (parts sql).filterMap Part.number?

/-- The statement with parameters of MariaDB for the `$n` outside of quotes. -/
def withParameters (sql : List Char) : List Char := (parts sql).flatMap Part.text

/-- **What the parts give**: the text with parameters, if each number has a value. -/
theorem rewriteParts_eq (binds : List BindValue) (ps : List Part) : rewriteParts binds ps =
    (allOk ((ps.filterMap Part.number?).map (numberedValue binds))).map fun params =>
      (ps.flatMap Part.text, params) := by
  induction ps with
  | nil => rfl
  | cons p ps ih =>
    cases p with
    | copy text =>
      rw [rewriteParts, ih, List.flatMap_cons, List.filterMap_cons_none rfl]
      cases allOk ((ps.filterMap Part.number?).map (numberedValue binds)) <;> rfl
    | parameter n replacement =>
      have hnumber : (Part.parameter n replacement).number? = some n := rfl
      rw [rewriteParts, ih, List.flatMap_cons, List.filterMap_cons_some hnumber, List.map_cons]
      cases numberedValue binds n with
      | error e => rfl
      | ok value =>
        rw [allOk]
        cases allOk ((ps.filterMap Part.number?).map (numberedValue binds)) <;> rfl

/-! ### Texts without numbered parameters -/

lemma hasDollarDigit_drop {s : List Char} (h : hasDollarDigit s = false) (n : ℕ) :
    hasDollarDigit (s.drop n) = false := by
  induction n generalizing s with
  | zero => exact h
  | succ n ih =>
    cases s with
    | nil => rfl
    | cons c s =>
      rw [hasDollarDigit, Bool.or_eq_false_iff] at h
      exact ih h.2

/-- A text without `$n` is copied. -/
lemma rewriteParts_of_plain (binds : List BindValue) {s : List Char}
    (h : hasDollarDigit s = false) : rewriteParts binds (parts s) = .ok (s, []) := by
  induction s using scan_induction with
  | nil => rfl
  | cons c s ih =>
    have hs : hasDollarDigit s = false := (Bool.or_eq_false_iff.1 h).2
    have hcopy : (nextPart c s).1 = .copy (c :: s.take (nextPart c s).2) := by
      unfold nextPart
      split_ifs with hquote hdollar
      · rfl
      · obtain ⟨rfl, hdigit⟩ := hdollar
        rw [hasDollarDigit, hdigit] at h
        cases h
      · rw [List.take_zero]
    rw [parts, scan_cons, hcopy, rewriteParts, show scan nextPart _ = parts _ from rfl,
      ih _ (hasDollarDigit_drop hs _), Except.map, List.cons_append, List.take_append_drop]

/-- What stands behind a placeholder, or the placeholder itself, is no digit where the text has
none. -/
lemma head_written (binds : List BindValue) {ns : Names} {ps : List Piece} (hps : Readable ps)
    (hp : Provided binds (places ns ps)) :
    (written (fun i => (mariadbPlaceholder (valueAt binds i)).toList) ns ps).head?.any
      Char.isDigit = (ps.flatMap Piece.source).head?.any Char.isDigit := by
  cases ps with
  | nil => rfl
  | cons p ps =>
    cases p with
    | copy text =>
      obtain ⟨c, rfl⟩ := List.length_eq_one_iff.1 hps.1
      rfl
    | bind name =>
      rw [places, provided_cons] at hp
      obtain ⟨⟨i, -, hi⟩, -⟩ := hp
      have hfirst : ((mariadbPlaceholder (valueAt binds i)).toList).head?.any Char.isDigit = false ∧
          (mariadbPlaceholder (valueAt binds i)).toList ≠ [] := by
        unfold mariadbPlaceholder
        split <;> decide
      rw [written, hi, Option.elim_some, List.head?_append_of_ne_nil _ hfirst.2, hfirst.1]
      rfl

/-- **The placeholders make no difference** for the `$n`. -/
lemma hasDollarDigit_written (binds : List BindValue) {ns : Names} {ps : List Piece}
    (hps : Readable ps) (hp : Provided binds (places ns ps)) :
    hasDollarDigit (written (fun i => (mariadbPlaceholder (valueAt binds i)).toList) ns ps) =
      hasDollarDigit (ps.flatMap Piece.source) := by
  have happend : ∀ (t s : List Char), (∀ c ∈ t, c ≠ '$') →
      hasDollarDigit (t ++ s) = hasDollarDigit s := by
    intro t s ht
    induction t with
    | nil => rfl
    | cons c t ih =>
      rw [List.cons_append, hasDollarDigit, ih fun c hc => ht c (List.mem_cons_of_mem _ hc),
        beq_false_of_ne (ht c List.mem_cons_self), Bool.false_and, Bool.false_or]
  induction ps generalizing ns with
  | nil => rfl
  | cons p ps ih =>
    cases p with
    | copy text =>
      obtain ⟨c, rfl⟩ := List.length_eq_one_iff.1 hps.1
      change hasDollarDigit (c :: written _ ns ps) =
        hasDollarDigit (c :: ps.flatMap Piece.source)
      rw [hasDollarDigit, hasDollarDigit, head_written binds hps.2 hp, ih hps.2 hp]
    | bind name =>
      rw [places, provided_cons] at hp
      obtain ⟨⟨i, -, hi⟩, hp⟩ := hp
      have hname : ∀ c ∈ ':' :: name, c ≠ '$' := by
        rintro c hc rfl
        rcases List.mem_cons.1 hc with h | h
        · cases h
        · cases hps.1 _ h
      have hplaceholder : ∀ c ∈ (mariadbPlaceholder (valueAt binds i)).toList, c ≠ '$' := by
        unfold mariadbPlaceholder
        split <;> decide
      rw [written, hi, Option.elim_some, happend _ _ hplaceholder, ih hps.2.2 hp,
        List.flatMap_cons, Piece.source, happend _ _ hname]

/-! ### The statement that is bound -/

section Bound

variable {sql : List Char} {binds : List BindValue} {bound : BoundSql}
  (h : bindParameters sql binds .mariaDb = .ok bound)

include h

/-- The values are those of the placeholders. -/
lemma binds_eq_placeholderValues : bound.binds = placeholderValues sql binds := by
  unfold placeholderValues
  cases hdefn : isPlsqlDefn sql with
  | true =>
    rw [bindParameters, if_pos hdefn] at h
    obtain rfl := Except.ok.inj h
    rfl
  | false => exact ((meets_scannerReading hdefn binds).mariaDb bound h).1

/-- Each placeholder has become a parameter, and the rest of the text is the same. -/
lemma sql_eq_written : bound.sql = sql ∧ bound.binds = [] ∨
    Provided binds (places .start (scannerReading sql)) ∧ bound.sql =
      written (fun i => (mariadbPlaceholder (valueAt binds i)).toList) .start
        (scannerReading sql) := by
  cases hdefn : isPlsqlDefn sql with
  | true =>
    rw [bindParameters, if_pos hdefn] at h
    obtain rfl := Except.ok.inj h
    exact .inl ⟨rfl, rfl⟩
  | false =>
    have hp : Provided binds (places .start (scannerReading sql)) := by
      by_contra hnot
      obtain ⟨e, he⟩ := (exists_error_iff hdefn .mariaDb).2 hnot
      rw [h] at he
      cases he
    rw [bindParameters_mariaDb hdefn hp] at h
    obtain rfl := Except.ok.inj h
    exact .inr ⟨hp, rfl⟩

lemma hasDollarDigit_bound : hasDollarDigit bound.sql = hasDollarDigit sql := by
  obtain ⟨hsql, -⟩ | ⟨hp, hsql⟩ := sql_eq_written h
  · rw [hsql]
  · rw [hsql, hasDollarDigit_written binds (readable_scannerReading sql) hp,
      source_scannerReading]

lemma mem_of_binds_ne_nil (hne : bound.binds ≠ []) : '?' ∈ bound.sql := by
  have hdefn : isPlsqlDefn sql = false := by
    rw [← Bool.not_eq_true]
    intro hdefn
    rw [bindParameters, if_pos hdefn] at h
    obtain rfl := Except.ok.inj h
    exact hne rfl
  have hcount := ((meets_scannerReading hdefn binds).mariaDb bound h).2
  have hpos := List.length_pos_iff.2 hne
  exact List.count_pos_iff.1 (by omega)

/-- **A statement without `$n`** goes to the driver as it is. -/
theorem mariadbPrepare_of_plain (hplain : hasDollarDigit sql = false) :
    mariadbPrepare bound.sql bound.binds =
      (allOk (bound.binds.map bindValue)).map fun params => (bound.sql, params) := by
  rw [← hasDollarDigit_bound h] at hplain
  unfold mariadbPrepare
  by_cases hne : bound.binds = []
  · rw [if_neg fun hc => hc.2.2 hne, rewriteParts_of_plain _ hplain, hne]
    rfl
  · rw [if_pos ⟨hplain, mem_of_binds_ne_nil h hne, hne⟩]

/-- **A statement with `$n`** gets its values for those. -/
theorem mariadbPrepare_of_dollars (hdollars : hasDollarDigit sql = true) :
    mariadbPrepare bound.sql bound.binds =
      (allOk ((numbers bound.sql).map (numberedValue bound.binds))).map fun params =>
        (withParameters bound.sql, params) := by
  rw [← hasDollarDigit_bound h] at hdollars
  have hnot : ¬ (hasDollarDigit bound.sql = false ∧ '?' ∈ bound.sql ∧ bound.binds ≠ []) := by
    rw [hdollars]
    exact fun hc => Bool.noConfusion hc.1
  rw [mariadbPrepare, if_neg hnot, rewriteParts_eq]
  rfl

end Bound

/-! ### The parameters line up -/

/-- What the parameters depend on: the `$n` of the text, and what MariaDB reads as a parameter. -/
structure Aligned (sql : List Char) (binds : List BindValue) (bound : BoundSql) : Prop where
  /-- The values can be converted. -/
  finite : ∀ b ∈ placeholderValues sql binds, ∀ bits, b = .binaryDouble bits → isFinite bits = true
  /-- In a text without `$n`, MariaDB reads as many parameters as there are placeholders. -/
  plain : hasDollarDigit sql = false →
    markers bound.sql = (placeholderValues sql binds).length
  /-- In another text the `$n` outside of quotes stand for the values of the placeholders. -/
  dollars : hasDollarDigit sql = true →
    (numbers bound.sql).map (numberedValue (placeholderValues sql binds)) =
      (placeholderValues sql binds).map bindValue ∧
    markers (withParameters bound.sql) = (placeholderValues sql binds).length

/-- All values can be converted exactly if each can. -/
lemma exists_allOk_iff (bs : List BindValue) :
    (∃ params : List Param, params.map Except.ok = bs.map bindValue) ↔
      ∀ b ∈ bs, ∀ bits, b = .binaryDouble bits → isFinite bits = true := by
  have hset : (∃ params : List Param, params.map Except.ok = bs.map bindValue) ↔
      ∀ b ∈ bs, ∃ value, bindValue b = .ok value := by
    induction bs with
    | nil => exact iff_of_true ⟨[], rfl⟩ fun b hb => absurd hb List.not_mem_nil
    | cons b bs ih =>
      rw [List.forall_mem_cons, ← ih]
      constructor
      · rintro ⟨_ | ⟨value, values⟩, hvalues⟩
        · cases hvalues
        · obtain ⟨hhead, htail⟩ := List.cons.inj hvalues
          exact ⟨⟨value, hhead.symm⟩, values, htail⟩
      · rintro ⟨⟨value, hvalue⟩, values, hvalues⟩
        refine ⟨value :: values, ?_⟩
        rw [List.map_cons, List.map_cons, hvalue, hvalues]
  rw [hset]
  exact forall₂_congr fun b _ => exists_bindValue_iff b

/-- What the driver gets lines up if its values are those of the placeholders. -/
lemma linesUp_of_prepare {sql statement : List Char} {binds : List BindValue} {bound : BoundSql}
    {xs : List (Except String Param)}
    (h : mariadbPrepare bound.sql bound.binds = (allOk xs).map fun params => (statement, params)) :
    LinesUp sql binds bound ↔
      (∀ b ∈ placeholderValues sql binds, ∀ bits, b = .binaryDouble bits → isFinite bits = true) ∧
      xs = (placeholderValues sql binds).map bindValue ∧
      markers statement = (placeholderValues sql binds).length := by
  rw [← exists_allOk_iff]
  constructor
  · rintro ⟨statement', params, hprepare, hcount, hvalues⟩
    rw [h] at hprepare
    cases hxs : allOk xs with
    | error e =>
      rw [hxs] at hprepare
      cases hprepare
    | ok params' =>
      rw [hxs] at hprepare
      obtain ⟨rfl, rfl⟩ := Prod.mk.inj (Except.ok.inj hprepare)
      have hlen := congrArg List.length hvalues
      rw [List.length_map, List.length_map] at hlen
      exact ⟨⟨_, hvalues⟩, ((allOk_eq_ok_iff xs _).1 hxs).symm.trans hvalues, hcount.trans hlen⟩
  · rintro ⟨⟨params, hvalues⟩, rfl, hcount⟩
    have hlen := congrArg List.length hvalues
    rw [List.length_map, List.length_map] at hlen
    refine ⟨statement, params, ?_, hcount.trans hlen.symm, hvalues⟩
    rw [h, (allOk_eq_ok_iff _ params).2 hvalues]
    rfl

end DbSaci.Backend
