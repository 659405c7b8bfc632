import DbSaci.Library.Decimal
import DbSaci.Library.Scanner
import DbSaci.Library.Text
import DbSaci.Wire.BindValue

set_option relaxedAutoImplicit false
set_option autoImplicit false

/-!
# Placeholders for parameters

The placeholders `:name` of a statement become parameters of the backend, `$k` or `?`, with a cast
that goes by the value.

## Main definitions

* `isPlsqlDefn` — the texts that are passed on as they are.
* `nextPiece`, `pieces` — the text as the scanner reads it.
* `Names.resolve` — which value a placeholder is for.
* `bindParameters` — the text and the values for the backend.

## Main results

* `source_pieces` — the pieces are the text.
* `exists_error_iff` — no result exactly if a placeholder has no value.
* `bindParameters_postgres`, `bindParameters_mariaDb` — what the result is.
-/

namespace DbSaci.Wire

open Decimal Text

/-! ### The text -/

/-- The words of a text. -/
def splitWhitespace (s : List Char) : List (List Char) := (s.splitOnP isSpace).filter (· ≠ [])

/-- The text is a definition in PL/SQL, or a block. -/
def isPlsqlDefn (sql : List Char) : Bool :=
  let upperWords := ((splitWhitespace (trimStart sql)).take 5).map fun w => String.ofList (upper w)
  match upperWords with
  | [] => false
  | first :: words =>
    if first = "CREATE" then
      let options := words.takeWhile fun w =>
        ["OR", "REPLACE", "EDITIONABLE", "NONEDITIONABLE"].contains w
      match upperWords[options.length + 1]? with
      | some w => ["TRIGGER", "FUNCTION", "PROCEDURE", "PACKAGE"].contains w
      | none => false
    else first = "BEGIN" || first = "DECLARE"

/-- A piece of the text: one that is copied, or the name of a placeholder. -/
inductive Piece
  | copy (text : List Char)
  | bind (name : List Char)
  deriving DecidableEq, Repr

/-- The characters of a name. -/
def isNameChar (c : Char) : Bool := c.isAlphanum || c == '_'

/-- How far a quoted text goes behind the quote it starts with. A quote in it is doubled. -/
def quotedEnd (quote : Char) : List Char → ℕ
  | [] => 0
  | [_] => 1
  | c :: d :: s =>
    if c = quote then if d = quote then quotedEnd quote s + 2 else 1
    else quotedEnd quote (d :: s) + 1

/-- How far a comment goes behind the slash it starts with. -/
def commentEnd (s : List Char) : ℕ := (find ['*', '/'] (s.drop 1)).elim s.length (· + 3)

/-- How far the line goes. -/
def lineEnd (s : List Char) : ℕ := (s.takeWhile (· ≠ '\n')).length

/-- The piece that starts with a character, and how much of what is behind it is part of it. -/
def nextPiece (c : Char) (s : List Char) : Piece × ℕ :=
  if c = '\'' ∨ c = '"' then (.copy (c :: s.take (quotedEnd c s)), quotedEnd c s)
  else if c = '-' ∧ s.head? = some '-' then (.copy (c :: s.take (lineEnd s)), lineEnd s)
  else if c = '/' ∧ s.head? = some '*' then (.copy (c :: s.take (commentEnd s)), commentEnd s)
  else if c = ':' ∧ s.head? ≠ some ':' ∧ s.takeWhile isNameChar ≠ [] then
    (.bind (s.takeWhile isNameChar), (s.takeWhile isNameChar).length)
  else (.copy [c], 0)

/-- The pieces of a text. -/
def pieces (sql : List Char) : List Piece := scan nextPiece sql

/-! ### The values -/

/-- The names there have been, with the places of their values, and the next place. -/
structure Names where
  oracleNames : List (List Char × ℕ)
  nextNamed : ℕ

/-- No names yet. -/
def Names.start : Names := ⟨[], 0⟩

/-- The place a number stands for. -/
def numbered (name : List Char) : Option ℕ :=
  let n := ofDigits (name.map digitVal)
  if 0 < n ∧ n < 2 ^ 64 then some (n - 1) else none

/-- The place of the value for a placeholder, if it has one. -/
def Names.resolve (ns : Names) (name : List Char) : Option ℕ × Names :=
  if name.all Char.isDigit then
    match numbered name with
    | some index => (some index, { ns with nextNamed := max ns.nextNamed (index + 1) })
    | none => (none, ns)
  else
    match ns.oracleNames.lookup (upper name) with
    | some index => (some index, ns)
    | none => (some ns.nextNamed, ⟨(upper name, ns.nextNamed) :: ns.oracleNames, ns.nextNamed + 1⟩)

/-- What a placeholder is for the backends. -/
inductive BindStyle
  | postgres
  | mariaDb
  deriving DecidableEq, Repr

/-- The parameter of MariaDB for a value. -/
def mariadbPlaceholder : BindValue → String
  | .bytes _ => "CAST(? AS BINARY)"
  | .null | .string _ => "CAST(? AS CHAR(4000))"
  | _ => "?"

/-- The cast of a parameter of Postgres. -/
def postgresCast : BindValue → String
  | .null | .string _ => "::text"
  | .number _ => "::text::numeric"
  | .bytes _ => "::bytea"
  | .temporal s =>
    if "TIMESTAMPTZ '".toList <+: s then "::text::timestamptz" else "::text::timestamp"
  | .boolean _ => "::boolean"
  | .binaryDouble _ => "::text::double precision"

/-- The parameter of Postgres for a value. -/
def postgresParameter (parameter : ℕ) (value : BindValue) : List Char :=
  '$' :: (Nat.toDigits 10 parameter ++ (postgresCast value).toList)

/-- Why there is no result. -/
inductive BindFailure
  | invalid (name : List Char)
  | missing (name : List Char)
  deriving DecidableEq, Repr

/-- The text of the error. -/
def BindFailure.message : BindFailure → String
  | .invalid name => "invalid bind placeholder :" ++ String.ofList name
  | .missing name => "missing value for bind :" ++ String.ofList name

/-- The text for the backend, and the values of its parameters. -/
structure BoundSql where
  sql : List Char
  binds : List BindValue
  deriving DecidableEq, Repr

/-- What the loop over the pieces has got. -/
structure Loop where
  names : Names
  parameterForBind : List (ℕ × ℕ)
  ordered : List BindValue
  out : List Char

/-- Nothing has been read. -/
def Loop.start : Loop := ⟨.start, [], [], []⟩

/-- A parameter for a value. MariaDB gets the value for each occurrence, and Postgres once. -/
def Loop.parameter (l : Loop) (style : BindStyle) (index : ℕ) (value : BindValue) : Loop :=
  match style with
  | .mariaDb =>
    { l with
      ordered := l.ordered ++ [value]
      out := l.out ++ (mariadbPlaceholder value).toList }
  | .postgres =>
    match l.parameterForBind.lookup index with
    | some parameter => { l with out := l.out ++ postgresParameter parameter value }
    | none =>
      { l with
        parameterForBind := (index, l.ordered.length + 1) :: l.parameterForBind
        ordered := l.ordered ++ [value]
        out := l.out ++ postgresParameter (l.ordered.length + 1) value }

/-- The next piece. -/
def Loop.step (style : BindStyle) (binds : List BindValue) (l : Loop) :
    Piece → Except BindFailure Loop
  | .copy text => .ok { l with out := l.out ++ text }
  | .bind name =>
    match l.names.resolve name with
    | (none, _) => .error (.invalid name)
    | (some index, names) =>
      match binds[index]? with
      | none => .error (.missing name)
      | some value => .ok ({ l with names := names }.parameter style index value)

/-- The rest of the pieces. -/
def Loop.run (style : BindStyle) (binds : List BindValue) :
    Loop → List Piece → Except BindFailure Loop
  | l, [] => .ok l
  | l, p :: ps =>
    match l.step style binds p with
    | .error e => .error e
    | .ok l => l.run style binds ps

/-- `bind_parameters`: the text with parameters for its placeholders, and their values. -/
def bindParameters (sql : List Char) (binds : List BindValue) (style : BindStyle) :
    Except BindFailure BoundSql :=
  if isPlsqlDefn sql then .ok ⟨sql, []⟩
  else
    match Loop.start.run style binds (pieces sql) with
    | .error e => .error e
    | .ok l => .ok ⟨l.out, l.ordered⟩

/-! ### The pieces are the text -/

/-- The text of a piece. -/
def Piece.source : Piece → List Char
  | .copy text => text
  | .bind name => ':' :: name

lemma takeWhile_eq_take {α : Type} (p : α → Bool) (s : List α) :
    s.takeWhile p = s.take (s.takeWhile p).length :=
  List.prefix_iff_eq_take.1 (List.takeWhile_prefix p)

lemma source_nextPiece (c : Char) (s : List Char) :
    (nextPiece c s).1.source = c :: s.take (nextPiece c s).2 := by
  unfold nextPiece
  split_ifs with hquote hline hcomment hname
  · rfl
  · rfl
  · rfl
  · rw [Piece.source, ← takeWhile_eq_take, hname.1]
  · rw [List.take_zero, Piece.source]

/-- Pieces that are each the text they are read from are the text. -/
lemma source_scan {next : Char → List Char → Piece × ℕ}
    (h : ∀ c s, (next c s).1.source = c :: s.take (next c s).2) (s : List Char) :
    (scan next s).flatMap Piece.source = s := by
  induction s using scan_induction with
  | nil => rfl
  | cons c s ih =>
    rw [scan_cons, List.flatMap_cons, h, ih, List.cons_append, List.take_append_drop]

/-- **The pieces are the text.** -/
theorem source_pieces (sql : List Char) : (pieces sql).flatMap Piece.source = sql :=
  source_scan source_nextPiece sql

/-- A piece character by character. -/
def Piece.split : Piece → List Piece
  | .copy text => text.map fun c => .copy [c]
  | .bind name => [.bind name]

lemma flatMap_source_split (ps : List Piece) :
    (ps.flatMap Piece.split).flatMap Piece.source = ps.flatMap Piece.source := by
  rw [List.flatMap_assoc]
  congr 1
  funext p
  cases p with
  | copy text =>
    rw [Piece.split, List.flatMap_map]
    exact List.flatMap_singleton' text
  | bind name => exact List.append_nil _

/-! ### Which values the placeholders are for -/

section Places

variable (binds : List BindValue)

/-- The places of the values for the placeholders. -/
def places : Names → List Piece → List (Option ℕ)
  | _, [] => []
  | ns, .copy _ :: ps => places ns ps
  | ns, .bind name :: ps => (ns.resolve name).1 :: places (ns.resolve name).2 ps

/-- The text, with a text for each value. -/
def written (w : ℕ → List Char) : Names → List Piece → List Char
  | _, [] => []
  | ns, .copy text :: ps => text ++ written w ns ps
  | ns, .bind name :: ps =>
    (ns.resolve name).1.elim [] w ++ written w (ns.resolve name).2 ps

/-- The value at a place. -/
def valueAt (index : ℕ) : BindValue := binds[index]?.getD .null

/-- Each place has a value. -/
def Provided (ps : List (Option ℕ)) : Prop := ∀ p ∈ ps, ∃ index < binds.length, p = some index

variable {binds}

lemma getElem?_eq_valueAt {index : ℕ} (h : index < binds.length) :
    binds[index]? = some (valueAt binds index) := by
  rw [valueAt, List.getElem?_eq_getElem h, Option.getD_some]

lemma provided_cons {p : Option ℕ} {ps : List (Option ℕ)} :
    Provided binds (p :: ps) ↔ (∃ index < binds.length, p = some index) ∧ Provided binds ps :=
  List.forall_mem_cons

end Places

/-! ### The loop -/

section Run

variable {style : BindStyle} {binds : List BindValue}

@[simp]
lemma Loop.parameter_names (l : Loop) (index : ℕ) (value : BindValue) :
    (l.parameter style index value).names = l.names := by
  unfold Loop.parameter
  cases style with
  | mariaDb => rfl
  | postgres =>
    dsimp only
    cases l.parameterForBind.lookup index <;> rfl

/-- A placeholder that has a value. -/
lemma Loop.step_bind {l : Loop} {name : List Char} {index : ℕ}
    (hindex : (l.names.resolve name).1 = some index) (hlt : index < binds.length) :
    l.step style binds (.bind name) =
      .ok ({ l with names := (l.names.resolve name).2 }.parameter style index
        (valueAt binds index)) := by
  rcases hres : l.names.resolve name with ⟨index', names⟩
  rw [hres] at hindex
  obtain rfl := hindex
  rw [Loop.step, hres]
  dsimp only
  rw [getElem?_eq_valueAt hlt]

/-- A placeholder that has none. -/
lemma Loop.step_error {l : Loop} {name : List Char}
    (h : ¬ ∃ index < binds.length, (l.names.resolve name).1 = some index) :
    ∃ e, l.step style binds (.bind name) = .error e := by
  rcases hres : l.names.resolve name with ⟨index', names⟩
  rw [hres] at h
  rw [Loop.step, hres]
  cases index' with
  | none => exact ⟨_, rfl⟩
  | some index =>
    have hnone : binds[index]? = none :=
      List.getElem?_eq_none_iff.2 (Nat.le_of_not_lt fun hlt => h ⟨index, hlt, rfl⟩)
    dsimp only
    rw [hnone]
    exact ⟨_, rfl⟩

/-- **There is no result exactly if a placeholder has no value.** -/
theorem Loop.exists_error_iff (l : Loop) (ps : List Piece) :
    (∃ e, l.run style binds ps = .error e) ↔ ¬ Provided binds (places l.names ps) := by
  induction ps generalizing l with
  | nil =>
    refine iff_of_false ?_ (not_not.2 fun p hp => absurd hp List.not_mem_nil)
    rintro ⟨e, he⟩
    cases he
  | cons p ps ih =>
    cases p with
    | copy text => exact ih { l with out := l.out ++ text }
    | bind name =>
      rw [places, provided_cons, Loop.run]
      by_cases h : ∃ index < binds.length, (l.names.resolve name).1 = some index
      · obtain ⟨index, hlt, hindex⟩ := h
        rw [Loop.step_bind hindex hlt]
        dsimp only
        rw [ih, Loop.parameter_names]
        exact not_congr (and_iff_right ⟨index, hlt, hindex⟩).symm
      · obtain ⟨e, he⟩ := @Loop.step_error style _ _ _ h
        rw [he]
        exact iff_of_true ⟨e, rfl⟩ fun hboth => h hboth.1

/-- Reading character by character makes no difference. -/
lemma Loop.run_split (l : Loop) (ps : List Piece) :
    l.run style binds (ps.flatMap Piece.split) = l.run style binds ps := by
  have hcopies : ∀ (text : List Char) (l : Loop) (qs : List Piece),
      l.run style binds (text.map (fun c => .copy [c]) ++ qs) =
        ({ l with out := l.out ++ text }).run style binds qs := by
    intro text
    induction text with
    | nil =>
      intro l qs
      rw [List.map_nil, List.nil_append, List.append_nil]
    | cons c text ih =>
      intro l qs
      rw [List.map_cons, List.cons_append, Loop.run, Loop.step]
      dsimp only
      rw [ih]
      dsimp only
      rw [List.append_assoc, List.singleton_append]
  induction ps generalizing l with
  | nil => rfl
  | cons p ps ih =>
    cases p with
    | copy text =>
      rw [List.flatMap_cons, Piece.split, hcopies, ih, Loop.run, Loop.step]
    | bind name =>
      rw [List.flatMap_cons, Piece.split, List.singleton_append, Loop.run, Loop.run]
      cases l.step style binds (.bind name) with
      | error e => rfl
      | ok l => exact ih l

/-! ### What the loop has at its end -/

/-- The value for a placeholder. -/
def valueOf (binds : List BindValue) (p : Option ℕ) : BindValue := p.elim .null (valueAt binds)

/-- **In MariaDB each placeholder has its value.** -/
theorem Loop.run_mariaDb (l : Loop) (ps : List Piece) (h : Provided binds (places l.names ps)) :
    ∃ names, l.run .mariaDb binds ps = .ok ⟨names, l.parameterForBind,
      l.ordered ++ (places l.names ps).map (valueOf binds),
      l.out ++ written (fun index => (mariadbPlaceholder (valueAt binds index)).toList)
        l.names ps⟩ := by
  induction ps generalizing l with
  | nil =>
    refine ⟨l.names, ?_⟩
    rw [places, List.map_nil, written, List.append_nil, List.append_nil, Loop.run]
  | cons p ps ih =>
    cases p with
    | copy text =>
      obtain ⟨names, hrun⟩ := ih { l with out := l.out ++ text } h
      refine ⟨names, hrun.trans ?_⟩
      rw [places, written, List.append_assoc]
    | bind name =>
      rw [places, provided_cons] at h
      obtain ⟨⟨index, hlt, hindex⟩, hrest⟩ := h
      rw [Loop.run, Loop.step_bind hindex hlt]
      obtain ⟨names, hrun⟩ := ih ⟨(l.names.resolve name).2, l.parameterForBind,
        l.ordered ++ [valueAt binds index],
        l.out ++ (mariadbPlaceholder (valueAt binds index)).toList⟩ hrest
      refine ⟨names, hrun.trans ?_⟩
      rw [places, written, hindex, List.map_cons, valueOf, Option.elim_some, Option.elim_some,
        List.append_assoc, List.append_assoc, List.singleton_append]

/-- The parameters so far: each is for a value, and there is one for each value in the list. -/
structure Loop.Numbered (binds : List BindValue) (l : Loop) : Prop where
  value : ∀ index k, l.parameterForBind.lookup index = some k →
    0 < k ∧ k ≤ l.ordered.length ∧ l.ordered[k - 1]? = binds[index]?
  onto : ∀ k, 0 < k → k ≤ l.ordered.length → ∃ index, l.parameterForBind.lookup index = some k

/-- The parameter for a value. -/
def Loop.number (l : Loop) (index : ℕ) : ℕ := (l.parameterForBind.lookup index).getD 0

lemma lookup_cons_of_ne {index index' : ℕ} (h : index ≠ index') (k : ℕ) (l : List (ℕ × ℕ)) :
    List.lookup index ((index', k) :: l) = l.lookup index := by
  rw [List.lookup_cons, beq_false_of_ne h]

/-- **A parameter for a value** is a new one only if there was none. -/
lemma Loop.parameter_numbered {l : Loop} (h : l.Numbered binds) {index : ℕ}
    (hlt : index < binds.length) :
    ∃ l', l.parameter .postgres index (valueAt binds index) = l' ∧ l'.Numbered binds ∧
      (∀ i k, l.parameterForBind.lookup i = some k → l'.parameterForBind.lookup i = some k) ∧
      (∀ i k, l'.parameterForBind.lookup i = some k →
        i = index ∨ l.parameterForBind.lookup i = some k) ∧
      (∃ k, l'.parameterForBind.lookup index = some k) ∧
      l'.out = l.out ++ postgresParameter (l'.number index) (valueAt binds index) := by
  cases hk : l.parameterForBind.lookup index with
  | some k =>
    refine ⟨{ l with out := l.out ++ postgresParameter k (valueAt binds index) }, ?_,
      ⟨h.value, h.onto⟩, fun _ _ hi => hi, fun _ _ hi => .inr hi, ⟨k, hk⟩, ?_⟩
    · rw [Loop.parameter, hk]
    · rw [Loop.number, hk]
      rfl
  | none =>
    have hne : ∀ i k, l.parameterForBind.lookup i = some k → i ≠ index := by
      rintro i k hi rfl
      rw [hk] at hi
      cases hi
    have hself : List.lookup index ((index, l.ordered.length + 1) :: l.parameterForBind) =
        some (l.ordered.length + 1) := List.lookup_cons_self
    refine ⟨⟨l.names, (index, l.ordered.length + 1) :: l.parameterForBind,
      l.ordered ++ [valueAt binds index],
      l.out ++ postgresParameter (l.ordered.length + 1) (valueAt binds index)⟩, ?_, ⟨?_, ?_⟩,
      fun i k hi => (lookup_cons_of_ne (hne i k hi) _ _).trans hi, ?_, ⟨_, hself⟩, ?_⟩
    · rw [Loop.parameter, hk]
    · intro i k hi
      rw [List.length_append, List.length_singleton]
      by_cases hi' : i = index
      · subst hi'
        rw [hself] at hi
        obtain rfl := Option.some.inj hi
        refine ⟨Nat.succ_pos _, le_rfl, ?_⟩
        rw [Nat.add_sub_cancel, List.getElem?_concat_length, getElem?_eq_valueAt hlt]
      · rw [lookup_cons_of_ne hi'] at hi
        obtain ⟨hpos, hle, hval⟩ := h.value i k hi
        refine ⟨hpos, hle.trans (Nat.le_succ _), ?_⟩
        rw [List.getElem?_append_left (by omega), hval]
    · intro k hpos hle
      rw [List.length_append, List.length_singleton] at hle
      by_cases hlast : k = l.ordered.length + 1
      · exact ⟨index, hlast ▸ hself⟩
      · obtain ⟨i, hi⟩ := h.onto k hpos (by omega)
        exact ⟨i, (lookup_cons_of_ne (hne i k hi) _ _).trans hi⟩
    · intro i k hi
      by_cases hi' : i = index
      · exact .inl hi'
      · exact .inr ((lookup_cons_of_ne hi' _ _).symm.trans hi)
    · rw [Loop.number, hself]
      rfl

/-- **In Postgres each value has its parameter**, and the parameters are numbered as the values in
the list. -/
theorem Loop.run_postgres (l : Loop) (hl : l.Numbered binds) (ps : List Piece)
    (h : Provided binds (places l.names ps)) : ∃ l', l.run .postgres binds ps = .ok l' ∧
      l'.Numbered binds ∧
      (∀ i k, l.parameterForBind.lookup i = some k → l'.parameterForBind.lookup i = some k) ∧
      (∀ i k, l'.parameterForBind.lookup i = some k →
        some i ∈ places l.names ps ∨ l.parameterForBind.lookup i = some k) ∧
      (∀ i, some i ∈ places l.names ps → ∃ k, l'.parameterForBind.lookup i = some k) ∧
      l'.out = l.out ++ written
        (fun i => postgresParameter (l'.number i) (valueAt binds i)) l.names ps := by
  induction ps generalizing l with
  | nil =>
    refine ⟨l, rfl, hl, fun _ _ hi => hi, fun _ _ hi => .inr hi,
      fun _ hi => absurd hi List.not_mem_nil, ?_⟩
    rw [written, List.append_nil]
  | cons p ps ih =>
    cases p with
    | copy text =>
      obtain ⟨l', hrun, hnum, hkeep, hold, hnew, hout⟩ :=
        ih { l with out := l.out ++ text } ⟨hl.value, hl.onto⟩ h
      refine ⟨l', hrun, hnum, hkeep, hold, hnew, ?_⟩
      rw [hout, written, List.append_assoc]
    | bind name =>
      rw [places, provided_cons] at h
      obtain ⟨⟨index, hlt, hindex⟩, hrest⟩ := h
      have hl' : ({ l with names := (l.names.resolve name).2 } : Loop).Numbered binds :=
        ⟨hl.value, hl.onto⟩
      obtain ⟨m, hm, hmnum, hmkeep, hmold, ⟨k, hk⟩, hmout⟩ := Loop.parameter_numbered hl' hlt
      have hnames : m.names = (l.names.resolve name).2 := by
        rw [← hm, Loop.parameter_names]
      obtain ⟨l', hrun, hnum, hkeep, hold, hnew, hout⟩ := ih m hmnum (hnames ▸ hrest)
      rw [hnames] at hold hnew hout
      have hsame : l'.number index = m.number index := by
        rw [Loop.number, Loop.number, hk, hkeep index k hk]
      refine ⟨l', ?_, hnum, fun i k hi => hkeep i k (hmkeep i k hi), ?_, ?_, ?_⟩
      · rw [Loop.run, Loop.step_bind hindex hlt, hm]
        exact hrun
      · intro i k hi
        rw [places, hindex, List.mem_cons, Option.some_inj]
        rcases hold i k hi with hmem | hi
        · exact .inl (.inr hmem)
        · exact (hmold i k hi).imp .inl id
      · intro i hi
        rw [places, hindex, List.mem_cons, Option.some_inj] at hi
        rcases hi with rfl | hi
        · exact ⟨k, hkeep i k hk⟩
        · exact hnew i hi
      · rw [hout, hmout, written, hindex, Option.elim_some, hsame, List.append_assoc]

end Run

end DbSaci.Wire
