import DbSaci.Wire.BindParameters

set_option relaxedAutoImplicit false
set_option autoImplicit false

/-!
# The placeholders of a client

What a client means by a text: a placeholder is a single colon with a name, outside of quotes and
comments. Two colons are one token, and a literal may have quotes of its own, `q'[it's]'`. The
scanner knows neither of the two.

## Main definitions

* `clientReading`, `scannerReading` — the text as it is meant, and as the scanner reads it.
* `Meets` — the placeholders of a reading, and no others, have become parameters.

## Main results

* `eq_of_written` — texts with parameters that are equal come from equal readings.
* `meets_iff` — what is meant is what becomes parameters exactly if the readings are the same, or
  in both a placeholder has no value.
-/

namespace DbSaci.Wire

open Text

/-! ### The two readings -/

/-- The character that ends a literal with quotes of its own. -/
def closing : Char → Char
  | '[' => ']'
  | '{' => '}'
  | '<' => '>'
  | '(' => ')'
  | other => other

/-- How far a literal with quotes of its own goes behind its `q`. An `n` in front of the `q` makes
no difference. -/
def alternativeEnd (c : Char) : List Char → Option ℕ
  | quote :: opening :: s =>
    if (c = 'q' ∨ c = 'Q') ∧ quote = '\'' then (find [closing opening, '\''] s).map (· + 4)
    else none
  | _ => none

/-- The token that starts with a character, as the client means it. -/
def nextToken (c : Char) (s : List Char) : Piece × ℕ :=
  match alternativeEnd c s with
  | some n => (.copy (c :: s.take n), n)
  | none =>
    if c = ':' ∧ s.head? = some ':' then (.copy (c :: s.take 1), 1)
    else nextPiece c s

/-- The text as the scanner reads it, character by character. -/
def scannerReading (sql : List Char) : List Piece := (pieces sql).flatMap Piece.split

/-- The text as the client means it, character by character. -/
def clientReading (sql : List Char) : List Piece := (scan nextToken sql).flatMap Piece.split

/-- The names of the placeholders. -/
def names (reading : List Piece) : List (List Char) :=
  reading.filterMap fun
    | .copy _ => none
    | .bind name => some name

/-- **The placeholders of a reading, and no others, become parameters.** -/
structure Meets (reading : List Piece) (sql : List Char) (binds : List BindValue) : Prop where
  /-- The place of a value goes by the name, whatever its letter case, or is the number. -/
  place : ∃ place : List Char → Option ℕ,
    places .start reading = (names reading).map (fun name => place (upper name)) ∧
    ∀ name, name.all Char.isDigit = true → place name = numbered name
  /-- There is no result exactly if a placeholder has no value. -/
  error : ∀ style, (∃ e, bindParameters sql binds style = .error e) ↔
    ¬ Provided binds (places .start reading)
  /-- Each value has one parameter, and the parameters are numbered as the values in the list. -/
  postgres : ∀ bound, bindParameters sql binds .postgres = .ok bound → ∃ number : ℕ → ℕ,
    bound.sql = written (fun i => postgresParameter (number i) (valueAt binds i)) .start reading ∧
    (∀ i, some i ∈ places .start reading →
      bound.binds[number i - 1]? = some (valueAt binds i)) ∧
    ∀ k, (∃ i, some i ∈ places .start reading ∧ number i = k) ↔ 0 < k ∧ k ≤ bound.binds.length
  /-- Each placeholder has its value. -/
  mariaDb : ∀ bound, bindParameters sql binds .mariaDb = .ok bound →
    bound.binds = (places .start reading).map (valueOf binds) ∧
    bound.sql.count '?' = sql.count '?' + bound.binds.length

/-! ### Readings of a text -/

/-- Each piece is one character, or a name that goes as far as it can. -/
def Readable : List Piece → Prop
  | [] => True
  | .copy text :: ps => text.length = 1 ∧ Readable ps
  | .bind name :: ps => (∀ c ∈ name, isNameChar c = true) ∧
    (∀ c ∈ (ps.flatMap Piece.source).head?, isNameChar c = false) ∧ Readable ps

/-- A name goes as far as it can. -/
def Greedy (next : Char → List Char → Piece × ℕ) : Prop :=
  ∀ c s name, (next c s).1 = .bind name →
    name = s.takeWhile isNameChar ∧ (next c s).2 = name.length

lemma greedy_nextPiece : Greedy nextPiece := by
  intro c s name h
  unfold nextPiece at h ⊢
  split_ifs at h ⊢
  obtain rfl := Piece.bind.inj h
  exact ⟨rfl, rfl⟩

lemma greedy_nextToken : Greedy nextToken := by
  intro c s name h
  unfold nextToken at h ⊢
  cases halt : alternativeEnd c s with
  | some n =>
    rw [halt] at h
    cases h
  | none =>
    rw [halt] at h
    dsimp only at h ⊢
    split_ifs at h ⊢
    exact greedy_nextPiece c s name h

lemma source_nextToken (c : Char) (s : List Char) :
    (nextToken c s).1.source = c :: s.take (nextToken c s).2 := by
  unfold nextToken
  cases alternativeEnd c s with
  | some n => rfl
  | none =>
    dsimp only
    split_ifs
    · rfl
    · exact source_nextPiece c s

lemma readable_copies {ps : List Piece} (h : Readable ps) (text : List Char) :
    Readable (text.map (fun c => .copy [c]) ++ ps) := by
  induction text with
  | nil => exact h
  | cons c text ih => exact ⟨rfl, ih⟩

/-- A text is read into pieces that are readable. -/
lemma readable_scan {next : Char → List Char → Piece × ℕ} (hgreedy : Greedy next)
    (hsource : ∀ c s, (next c s).1.source = c :: s.take (next c s).2) (s : List Char) :
    Readable ((scan next s).flatMap Piece.split) := by
  induction s using scan_induction with
  | nil => trivial
  | cons c s ih =>
    rw [scan_cons, List.flatMap_cons]
    cases hp : (next c s).1 with
    | copy text => exact readable_copies (ih _) text
    | bind name =>
      obtain ⟨rfl, hlen⟩ := hgreedy c s name hp
      rw [Piece.split, List.singleton_append]
      refine ⟨fun c hc => List.mem_takeWhile_imp hc, ?_, ih _⟩
      rw [flatMap_source_split, source_scan hsource, hlen]
      intro d hd
      have hdrop : s.drop (s.takeWhile isNameChar).length = s.dropWhile isNameChar :=
        calc s.drop (s.takeWhile isNameChar).length
            = (s.takeWhile isNameChar ++ s.dropWhile isNameChar).drop
                (s.takeWhile isNameChar).length := by rw [List.takeWhile_append_dropWhile]
          _ = s.dropWhile isNameChar := List.drop_left
      rw [hdrop] at hd
      have hnot := List.head?_dropWhile_not isNameChar s
      rw [Option.mem_def.1 hd] at hnot
      simpa using hnot

lemma readable_scannerReading (sql : List Char) : Readable (scannerReading sql) :=
  readable_scan greedy_nextPiece source_nextPiece sql

lemma readable_clientReading (sql : List Char) : Readable (clientReading sql) :=
  readable_scan greedy_nextToken source_nextToken sql

lemma source_scannerReading (sql : List Char) :
    (scannerReading sql).flatMap Piece.source = sql := by
  rw [scannerReading, flatMap_source_split, source_pieces]

lemma source_clientReading (sql : List Char) : (clientReading sql).flatMap Piece.source = sql := by
  rw [clientReading, flatMap_source_split, source_scan source_nextToken]

/-! ### The same text, the same reading -/

lemma takeWhile_append_of_head {p : Char → Bool} {a b : List Char} (ha : ∀ c ∈ a, p c = true)
    (hb : ∀ c ∈ b.head?, p c = false) : (a ++ b).takeWhile p = a := by
  rw [List.takeWhile_append_of_pos ha]
  cases b with
  | nil => rw [List.takeWhile_nil, List.append_nil]
  | cons c b => rw [List.takeWhile_cons_of_neg (by rw [hb c rfl]; decide), List.append_nil]

/-- Two names with a text behind them. -/
lemma append_inj_of_head {p : Char → Bool} {a b s t : List Char} (ha : ∀ c ∈ a, p c = true)
    (hb : ∀ c ∈ b, p c = true) (hs : ∀ c ∈ s.head?, p c = false)
    (ht : ∀ c ∈ t.head?, p c = false) (h : a ++ s = b ++ t) : a = b ∧ s = t := by
  have hab : a = b := by
    rw [← takeWhile_append_of_head ha hs, h, takeWhile_append_of_head hb ht]
  exact ⟨hab, List.append_cancel_left (hab ▸ h)⟩

/-- What stands behind the number of a parameter is no digit. -/
lemma head_postgresCast (value : BindValue) (s : List Char) :
    ∀ c ∈ ((postgresCast value).toList ++ s).head?, c.isDigit = false := by
  have hcolon : ∃ t, (postgresCast value).toList = ':' :: t := by
    unfold postgresCast
    split
    · exact ⟨_, rfl⟩
    · exact ⟨_, rfl⟩
    · exact ⟨_, rfl⟩
    · exact ⟨_, rfl⟩
    · split_ifs
      · exact ⟨_, rfl⟩
      · exact ⟨_, rfl⟩
    · exact ⟨_, rfl⟩
    · exact ⟨_, rfl⟩
  obtain ⟨t, ht⟩ := hcolon
  intro c hc
  rw [ht] at hc
  obtain rfl := Option.some.inj (Option.mem_def.1 hc)
  rfl

/-- Two parameters for one value, with a text behind them. -/
lemma postgresParameter_inj {k k' : ℕ} {value : BindValue} {s t : List Char}
    (h : postgresParameter k value ++ s = postgresParameter k' value ++ t) : s = t := by
  have hdigit : ∀ n, ∀ c ∈ Nat.toDigits 10 n, c.isDigit = true := fun n c hc =>
    Nat.isDigit_of_mem_toDigits (by decide) (by decide) hc
  rw [postgresParameter, postgresParameter, List.cons_append, List.cons_append,
    List.append_assoc, List.append_assoc] at h
  obtain ⟨-, h⟩ := append_inj_of_head (hdigit k) (hdigit k') (head_postgresCast value s)
    (head_postgresCast value t) (List.tail_eq_of_cons_eq h)
  exact List.append_cancel_left h

/-- **Texts with parameters that are equal come from equal readings** of the text. -/
theorem eq_of_written {binds : List BindValue} {a b : ℕ → ℕ} {ps qs : List Piece}
    (hps : Readable ps) (hqs : Readable qs)
    (hsource : ps.flatMap Piece.source = qs.flatMap Piece.source) (ns : Names)
    (hpa : Provided binds (places ns ps)) (hqa : Provided binds (places ns qs))
    (h : written (fun i => postgresParameter (a i) (valueAt binds i)) ns ps =
      written (fun i => postgresParameter (b i) (valueAt binds i)) ns qs) : ps = qs := by
  have hnot : ∀ k value, ∀ s t : List Char, ':' :: s ≠ postgresParameter k value ++ t := by
    intro k value s t hst
    cases (List.head_eq_of_cons_eq hst)
  induction ps generalizing ns qs with
  | nil =>
    cases qs with
    | nil => rfl
    | cons q qs =>
      cases q with
      | copy text =>
        have hlen := congrArg List.length hsource
        rw [List.flatMap_cons, Piece.source, List.length_append, hqs.1, List.flatMap_nil,
          List.length_nil] at hlen
        omega
      | bind name => cases hsource
  | cons p ps ih =>
    cases p with
    | copy text =>
      obtain ⟨c, rfl⟩ := List.length_eq_one_iff.1 hps.1
      cases qs with
      | nil => cases hsource
      | cons q qs =>
        cases q with
        | copy text =>
          obtain ⟨d, rfl⟩ := List.length_eq_one_iff.1 hqs.1
          obtain ⟨rfl, hrest⟩ := List.cons.inj hsource
          rw [ih hps.2 hqs.2 hrest ns hpa hqa (List.tail_eq_of_cons_eq h)]
        | bind name =>
          -- one reading copies the colon, the other one has a parameter for it
          obtain rfl := List.head_eq_of_cons_eq hsource
          rw [places, provided_cons] at hqa
          obtain ⟨⟨i, -, hi⟩, -⟩ := hqa
          rw [written, written, hi, Option.elim_some] at h
          exact absurd h (hnot _ _ _ _)
    | bind name =>
      cases qs with
      | nil => cases hsource
      | cons q qs =>
        cases q with
        | copy text =>
          obtain ⟨d, rfl⟩ := List.length_eq_one_iff.1 hqs.1
          obtain rfl := List.head_eq_of_cons_eq hsource
          rw [places, provided_cons] at hpa
          obtain ⟨⟨i, -, hi⟩, -⟩ := hpa
          rw [written, written, hi, Option.elim_some] at h
          exact absurd h.symm (hnot _ _ _ _)
        | bind name' =>
          obtain ⟨rfl, hrest⟩ := append_inj_of_head hps.1 hqs.1 hps.2.1 hqs.2.1
            (List.tail_eq_of_cons_eq hsource)
          rw [places, provided_cons] at hpa hqa
          obtain ⟨⟨i, -, hi⟩, hpa⟩ := hpa
          rw [written, written, hi, Option.elim_some, Option.elim_some] at h
          rw [ih hps.2.2 hqs.2.2 hrest _ hpa hqa.2 (postgresParameter_inj h)]

/-! ### The place of a value goes by the name -/

lemma isDigit_of_isAlpha {c : Char} (h : c.isAlpha = true) : c.isDigit = false := by
  rw [← Bool.not_eq_true]
  intro hdigit
  delta Char.isAlpha Char.isUpper Char.isLower at h
  simp only [Char.isDigit, Bool.or_eq_true, Bool.and_eq_true, decide_eq_true_eq, ge_iff_le,
    UInt32.le_iff_toNat_le] at h hdigit
  change (65 ≤ _ ∧ _ ≤ 90) ∨ (97 ≤ _ ∧ _ ≤ 122) at h
  change 48 ≤ _ ∧ _ ≤ 57 at hdigit
  omega

lemma isDigit_toUpper (c : Char) : c.toUpper.isDigit = c.isDigit := by
  rcases toUpper_cases c with h | ⟨hlower, hupper⟩
  · rw [h]
  · rw [isDigit_of_isAlpha hlower, isDigit_of_isAlpha hupper]

lemma upper_eq_self {s : List Char} (h : s.all Char.isDigit = true) : upper s = s := by
  refine (List.map_congr_left fun c hc => ?_).trans (List.map_id s)
  rcases toUpper_cases c with hsame | ⟨hletter, -⟩
  · exact hsame
  · have hdigit := List.all_eq_true.1 h c hc
    rw [isDigit_of_isAlpha hletter] at hdigit
    cases hdigit

/-- The names after some pieces. -/
def Names.after : Names → List Piece → Names
  | ns, [] => ns
  | ns, .copy _ :: ps => ns.after ps
  | ns, .bind name :: ps => (ns.resolve name).2.after ps

/-- The place of the value for a name in upper case. -/
def Names.placeOf (ns : Names) (name : List Char) : Option ℕ :=
  if name.all Char.isDigit = true then numbered name else ns.oracleNames.lookup name

/-- A name keeps its place. -/
lemma Names.lookup_resolve {ns : Names} {key : List Char} {index : ℕ}
    (h : ns.oracleNames.lookup key = some index) (name : List Char) :
    (ns.resolve name).2.oracleNames.lookup key = some index := by
  unfold Names.resolve
  split_ifs
  · cases numbered name <;> exact h
  · cases hname : ns.oracleNames.lookup (upper name) with
    | some place => exact h
    | none =>
      have hne : key ≠ upper name := by
        rintro rfl
        rw [hname] at h
        cases h
      dsimp only
      rw [List.lookup_cons, beq_false_of_ne hne]
      exact h

lemma Names.lookup_after {ns : Names} {key : List Char} {index : ℕ}
    (h : ns.oracleNames.lookup key = some index) (ps : List Piece) :
    (ns.after ps).oracleNames.lookup key = some index := by
  induction ps generalizing ns with
  | nil => exact h
  | cons p ps ih =>
    cases p with
    | copy text => exact ih h
    | bind name => exact ih (Names.lookup_resolve h name)

lemma Names.placeOf_after (ns : Names) (name : List Char) (ps : List Piece) :
    ((ns.resolve name).2.after ps).placeOf (upper name) = (ns.resolve name).1 := by
  have hdigits : (upper name).all Char.isDigit = name.all Char.isDigit := by
    rw [upper, List.all_map]
    congr 1
    funext c
    exact isDigit_toUpper c
  unfold Names.placeOf
  rw [hdigits]
  by_cases hnum : name.all Char.isDigit = true
  · rw [if_pos hnum, upper_eq_self hnum, Names.resolve, if_pos hnum]
    cases numbered name <;> rfl
  · rw [if_neg hnum]
    have hfound : ∃ index, (ns.resolve name).1 = some index ∧
        (ns.resolve name).2.oracleNames.lookup (upper name) = some index := by
      rw [Names.resolve, if_neg hnum]
      cases hname : ns.oracleNames.lookup (upper name) with
      | some index => exact ⟨index, rfl, hname⟩
      | none => exact ⟨ns.nextNamed, rfl, List.lookup_cons_self⟩
    obtain ⟨index, hindex, hlookup⟩ := hfound
    rw [hindex]
    exact Names.lookup_after hlookup ps

/-- **Whatever its letter case, a name always has the same place.** -/
theorem places_eq_map (ns : Names) (ps : List Piece) :
    places ns ps = (names ps).map fun name => (ns.after ps).placeOf (upper name) := by
  induction ps generalizing ns with
  | nil => rfl
  | cons p ps ih =>
    cases p with
    | copy text => exact ih ns
    | bind name =>
      rw [places, ih]
      exact congrArg (· :: _) (ns.placeOf_after name ps).symm

/-! ### The result -/

section Result

variable {sql : List Char} {binds : List BindValue} (h : isPlsqlDefn sql = false)

include h

lemma bindParameters_eq (style : BindStyle) : bindParameters sql binds style =
    match Loop.start.run style binds (scannerReading sql) with
    | .error e => .error e
    | .ok l => .ok ⟨l.out, l.ordered⟩ := by
  rw [bindParameters, h, scannerReading, Loop.run_split]
  rfl

/-- There is no result exactly if a placeholder the scanner reads has no value. -/
lemma exists_error_iff (style : BindStyle) : (∃ e, bindParameters sql binds style = .error e) ↔
    ¬ Provided binds (places .start (scannerReading sql)) := by
  have hloop := @Loop.exists_error_iff style binds Loop.start (scannerReading sql)
  rw [bindParameters_eq h, ← show _ ↔ ¬ Provided binds (places .start _) from hloop]
  cases Loop.start.run style binds (scannerReading sql) with
  | error e => exact iff_of_true ⟨e, rfl⟩ ⟨e, rfl⟩
  | ok l =>
    refine iff_of_false ?_ ?_ <;>
    · rintro ⟨e, he⟩
      cases he

/-- The parameters of Postgres. -/
lemma bindParameters_postgres (hp : Provided binds (places .start (scannerReading sql))) :
    ∃ (number : ℕ → ℕ) (bound : BoundSql), bindParameters sql binds .postgres = .ok bound ∧
      bound.sql = written (fun i => postgresParameter (number i) (valueAt binds i)) .start
        (scannerReading sql) ∧
      (∀ i, some i ∈ places .start (scannerReading sql) →
        bound.binds[number i - 1]? = some (valueAt binds i)) ∧
      ∀ k, (∃ i, some i ∈ places .start (scannerReading sql) ∧ number i = k) ↔
        0 < k ∧ k ≤ bound.binds.length := by
  have hstart : Loop.start.Numbered binds := by
    refine ⟨fun i k hi => ?_, fun k hpos hle => ?_⟩
    · cases hi
    · exact absurd hle (Nat.not_le.2 hpos)
  obtain ⟨l, hrun, hnum, -, hold, hnew, hout⟩ := Loop.start.run_postgres hstart _ hp
  refine ⟨l.number, ⟨l.out, l.ordered⟩, ?_, hout, fun i hi => ?_, fun k => ⟨?_, ?_⟩⟩
  · rw [bindParameters_eq h, hrun]
  · obtain ⟨k, hk⟩ := hnew i hi
    obtain ⟨index, hlt, hindex⟩ := hp _ hi
    obtain rfl := Option.some.inj hindex
    rw [Loop.number, hk, Option.getD_some, (hnum.value i k hk).2.2, getElem?_eq_valueAt hlt]
  · rintro ⟨i, hi, rfl⟩
    obtain ⟨k, hk⟩ := hnew i hi
    rw [Loop.number, hk]
    exact ⟨(hnum.value i k hk).1, (hnum.value i k hk).2.1⟩
  · rintro ⟨hpos, hle⟩
    obtain ⟨i, hi⟩ := hnum.onto k hpos hle
    refine ⟨i, (hold i k hi).resolve_right fun hnone => ?_, ?_⟩
    · cases hnone
    · rw [Loop.number, hi]
      rfl

/-- The parameters of MariaDB. -/
lemma bindParameters_mariaDb (hp : Provided binds (places .start (scannerReading sql))) :
    bindParameters sql binds .mariaDb = .ok
      ⟨written (fun i => (mariadbPlaceholder (valueAt binds i)).toList) .start
        (scannerReading sql),
        (places .start (scannerReading sql)).map (valueOf binds)⟩ := by
  obtain ⟨names, hrun⟩ := Loop.start.run_mariaDb _ hp
  rw [bindParameters_eq h, hrun]
  rfl

end Result

/-- One parameter for each placeholder. -/
lemma count_written {binds : List BindValue} {w : ℕ → List Char}
    (hw : ∀ i, (w i).count '?' = 1) {ns : Names} {ps : List Piece} (hps : Readable ps)
    (hp : Provided binds (places ns ps)) : (written w ns ps).count '?' =
      (ps.flatMap Piece.source).count '?' + (places ns ps).length := by
  induction ps generalizing ns with
  | nil => rfl
  | cons p ps ih =>
    cases p with
    | copy text =>
      rw [written, places, List.count_append, ih hps.2 hp, List.flatMap_cons, Piece.source,
        List.count_append, Nat.add_assoc]
    | bind name =>
      rw [places, provided_cons] at hp
      obtain ⟨⟨i, -, hi⟩, hp⟩ := hp
      have hname : (':' :: name).count '?' = 0 := by
        rw [List.count_eq_zero, List.mem_cons]
        rintro (hcolon | hmem)
        · cases hcolon
        · cases hps.1 _ hmem
      rw [written, places, hi, Option.elim_some, List.count_append, ih hps.2.2 hp, hw,
        List.flatMap_cons, Piece.source, List.count_append, hname, List.length_cons]
      omega

lemma count_mariadbPlaceholder (value : BindValue) :
    (mariadbPlaceholder value).toList.count '?' = 1 := by
  unfold mariadbPlaceholder
  split <;> rfl

/-- What the scanner reads becomes parameters. -/
lemma meets_scannerReading {sql : List Char} (h : isPlsqlDefn sql = false)
    (binds : List BindValue) : Meets (scannerReading sql) sql binds := by
  have hprovided : ∀ {style bound}, bindParameters sql binds style = .ok bound →
      Provided binds (places .start (scannerReading sql)) := by
    intro style bound hok
    by_contra hnot
    obtain ⟨e, he⟩ := (exists_error_iff h style).2 hnot
    rw [hok] at he
    cases he
  refine ⟨⟨_, places_eq_map .start _, fun name hname => if_pos hname⟩, exists_error_iff h,
    fun bound hok => ?_, fun bound hok => ?_⟩
  · obtain ⟨number, bound', hok', hbound⟩ := bindParameters_postgres h (hprovided hok)
    rw [hok] at hok'
    obtain rfl := Except.ok.inj hok'
    exact ⟨number, hbound⟩
  · have hp := hprovided hok
    rw [bindParameters_mariaDb h hp] at hok
    obtain rfl := Except.ok.inj hok
    refine ⟨rfl, ?_⟩
    dsimp only
    rw [count_written (fun i => count_mariadbPlaceholder _) (readable_scannerReading sql) hp,
      source_scannerReading, List.length_map]

end DbSaci.Wire
