import DbSaci.Translate.SequenceCalls

set_option relaxedAutoImplicit false
set_option autoImplicit false

/-!
# What calls for pseudocolumns draw

In Oracle a statement draws one value for each row of each sequence that has a `NEXTVAL` in it, and
all pseudocolumns of the sequence have that value in the row. In PostgreSQL each call of `nextval`
draws a value when it is evaluated.

## Main definitions

* `Counters` — how many values have been drawn of the sequences, and their current values.
* `postgresRow`, `oracleRow` — what a row gets and draws.
* `Once` — each sequence with a `NEXTVAL` is drawn once in a row, in front of its other calls.
* `Statement.Right` — the text has the calls, and each row gets and draws what it does in Oracle.

## Main results

* `postgresRow_eq_iff` — a row gets and draws the same exactly if each sequence is drawn once.
* `right_exactly_when` — when a statement is right.
-/

namespace DbSaci.Translate.Sequence

open Text

/-- A sequence: its schema, if there is one, and its name. -/
abbrev SequenceKey := Option (List Char) × List Char

/-- A pseudocolumn that is evaluated: whether it is `NEXTVAL`, and the sequence. -/
abbrev Evaluated := Bool × SequenceKey

/-- How many values have been drawn of the sequences, and which one the session has drawn last. -/
structure Counters where
  drawn : SequenceKey → ℕ
  current : SequenceKey → Option ℕ
  lt : ∀ k, ∀ v ∈ current k, v < drawn k

/-- No value has been drawn. -/
def Counters.start : Counters where
  drawn := fun _ => 0
  current := fun _ => none
  lt := fun _ _ h => by cases h

namespace Counters

variable (s : Counters)

/-- Draw a value of some sequences. -/
def draw (p : SequenceKey → Prop) [DecidablePred p] : Counters where
  drawn := fun k => if p k then s.drawn k + 1 else s.drawn k
  current := fun k => if p k then some (s.drawn k) else s.current k
  lt := by
    intro k v hv
    split_ifs at hv ⊢
    · rw [← Option.some.inj hv]
      exact Nat.lt_succ_self _
    · exact s.lt k v hv

/-- The state of a sequence. -/
def at_ (k : SequenceKey) : ℕ × Option ℕ := (s.drawn k, s.current k)

/-- The state behind a value of the sequence. -/
def afterDraw (k : SequenceKey) : ℕ × Option ℕ := (s.drawn k + 1, some (s.drawn k))

lemma ext_iff_at {s t : Counters} : s = t ↔ ∀ k, s.at_ k = t.at_ k := by
  constructor
  · rintro rfl k
    rfl
  · intro h
    obtain ⟨drawn, current, lt⟩ := s
    obtain ⟨drawn', current', lt'⟩ := t
    have hdrawn : drawn = drawn' := funext fun k => (Prod.mk.inj (h k)).1
    have hcurrent : current = current' := funext fun k => (Prod.mk.inj (h k)).2
    subst hdrawn hcurrent
    rfl

lemma at_draw {p : SequenceKey → Prop} [DecidablePred p] (k : SequenceKey) :
    (s.draw p).at_ k = if p k then s.afterDraw k else s.at_ k := by
  rw [at_, draw]
  by_cases h : p k
  · rw [if_pos h]
    simp only [if_pos h]
    rfl
  · rw [if_neg h]
    simp only [if_neg h]
    rfl

end Counters

/-! ### Rows -/

/-- PostgreSQL evaluates the calls of a row one after the other. -/
def postgresRow : Counters → List Evaluated → List (Option ℕ) × Counters
  | s, [] => ([], s)
  | s, (true, k) :: row =>
    let rest := postgresRow (s.draw (· = k)) row
    (some (s.drawn k) :: rest.1, rest.2)
  | s, (false, k) :: row =>
    let rest := postgresRow s row
    (s.current k :: rest.1, rest.2)

/-- Oracle draws a value of each sequence that has a `NEXTVAL` in the statement, and all
pseudocolumns have the current values. -/
def oracleRow (written : List Evaluated) (s : Counters) (row : List Evaluated) :
    List (Option ℕ) × Counters :=
  let next := s.draw fun k => (true, k) ∈ written
  (row.map fun e => next.current e.2, next)

/-- The rows of a statement, one after the other. -/
def rowsFrom (step : Counters → List Evaluated → List (Option ℕ) × Counters) :
    Counters → List (List Evaluated) → List (List (Option ℕ) × Counters)
  | _, [] => []
  | s, row :: rows => step s row :: rowsFrom step (step s row).2 rows

/-- In a row each sequence with a `NEXTVAL` in the statement is drawn once, and its other calls are
evaluated behind. -/
def Once (written row : List Evaluated) : Prop :=
  ∀ k, (true, k) ∈ written → ∃ a b, row = a ++ (true, k) :: b ∧ (∀ next, (next, k) ∉ a) ∧
    (true, k) ∉ b

/-- A sequence is as it has to be behind a row: it is so already and is not drawn any more, or it is
drawn once, in front of its other calls. -/
def Ends (s t : Counters) (row : List Evaluated) (k : SequenceKey) : Prop :=
  s.at_ k = t.at_ k ∧ (true, k) ∉ row ∨
    s.afterDraw k = t.at_ k ∧ ∃ a b, row = a ++ (true, k) :: b ∧ (∀ next, (next, k) ∉ a) ∧
      (true, k) ∉ b

section Row

variable {s t : Counters} {row : List Evaluated} {k : SequenceKey}

/-- A call for another sequence does not count. -/
lemma ends_cons_of_ne {e : Evaluated} (h : e.2 ≠ k) :
    Ends s t (e :: row) k ↔ Ends s t row k := by
  have hne : ∀ next, (next, k) ≠ e := by
    rintro next rfl
    exact h rfl
  refine or_congr (and_congr_right fun _ => ?_) (and_congr_right fun _ => ?_)
  · rw [List.mem_cons, not_or, and_iff_right (hne true)]
  · constructor
    · rintro ⟨a, b, hrow, ha, hb⟩
      cases a with
      | nil => exact absurd (List.cons.inj hrow).1.symm (hne true)
      | cons f a =>
        obtain ⟨-, hrow⟩ := List.cons.inj hrow
        exact ⟨a, b, hrow, fun next hmem => ha next (List.mem_cons_of_mem f hmem), hb⟩
    · rintro ⟨a, b, rfl, ha, hb⟩
      refine ⟨e :: a, b, rfl, fun next hmem => ?_, hb⟩
      rcases List.mem_cons.1 hmem with heq | hmem
      · exact hne next heq
      · exact ha next hmem

/-- A current value in front. -/
lemma ends_currval : Ends s t ((false, k) :: row) k ↔
    s.current k = t.current k ∧ Ends s t row k := by
  constructor
  · rintro (⟨hat, hmem⟩ | ⟨-, a, b, hrow, ha, -⟩)
    · exact ⟨(Prod.mk.inj hat).2, Or.inl ⟨hat, fun h => hmem (List.mem_cons_of_mem _ h)⟩⟩
    · cases a with
      | nil => cases hrow
      | cons f a =>
        obtain ⟨rfl, -⟩ := List.cons.inj hrow
        exact absurd List.mem_cons_self (ha false)
  · rintro ⟨hcurrent, ⟨hat, hmem⟩ | ⟨hdraw, -⟩⟩
    · refine Or.inl ⟨hat, fun h => ?_⟩
      rcases List.mem_cons.1 h with h | h
      · cases h
      · exact hmem h
    · -- the value that is drawn is none that has been drawn
      obtain ⟨-, hlast⟩ := Prod.mk.inj hdraw
      have := s.lt k (s.drawn k) (hcurrent.trans hlast.symm)
      exact absurd this (Nat.lt_irrefl _)

/-- A value that is drawn in front. -/
lemma ends_nextval : Ends s t ((true, k) :: row) k ↔
    some (s.drawn k) = t.current k ∧ Ends (s.draw (· = k)) t row k := by
  have hat : (s.draw (· = k)).at_ k = s.afterDraw k := by
    rw [Counters.at_draw, if_pos rfl]
  constructor
  · rintro (⟨-, hmem⟩ | ⟨hdraw, a, b, hrow, ha, hb⟩)
    · exact absurd List.mem_cons_self hmem
    · cases a with
      | nil =>
        obtain ⟨-, rfl⟩ := List.cons.inj hrow
        exact ⟨(Prod.mk.inj hdraw).2, Or.inl ⟨hat.trans hdraw, hb⟩⟩
      | cons f a =>
        obtain ⟨rfl, -⟩ := List.cons.inj hrow
        exact absurd List.mem_cons_self (ha true)
  · rintro ⟨hcurrent, ⟨hsame, hmem⟩ | ⟨hdraw, -⟩⟩
    · exact Or.inr ⟨hat.symm.trans hsame, [], row, rfl, fun _ => List.not_mem_nil, hmem⟩
    · obtain ⟨-, hlast⟩ := Prod.mk.inj hdraw
      have hdrawn : (s.draw (· = k)).drawn k = s.drawn k + 1 := if_pos rfl
      have heq := Option.some.inj (hcurrent.trans hlast.symm)
      rw [hdrawn] at heq
      omega

/-- **What a row gets and draws** is what it has to be exactly if each sequence ends as it has
to. -/
theorem postgresRow_eq_iff_ends : postgresRow s row = (row.map fun e => t.current e.2, t) ↔
    ∀ k, Ends s t row k := by
  induction row generalizing s with
  | nil =>
    rw [postgresRow, List.map_nil, Prod.mk.injEq, and_iff_right rfl, Counters.ext_iff_at]
    refine forall_congr' fun k => ?_
    constructor
    · exact fun h => Or.inl ⟨h, List.not_mem_nil⟩
    · rintro (⟨h, -⟩ | ⟨-, a, b, hrow, -⟩)
      · exact h
      · exact absurd hrow.symm (List.append_ne_nil_of_right_ne_nil a (List.cons_ne_nil _ _))
  | cons e row ih =>
    obtain ⟨next, k₀⟩ := e
    cases next with
    | false =>
      have hsplit : postgresRow s ((false, k₀) :: row) =
          (((false, k₀) :: row).map fun e => t.current e.2, t) ↔
          s.current k₀ = t.current k₀ ∧
            postgresRow s row = (row.map fun e => t.current e.2, t) := by
        rw [postgresRow, List.map_cons, Prod.mk.injEq, List.cons.injEq, and_assoc]
        refine and_congr_right fun _ => ?_
        rw [Prod.ext_iff]
      rw [hsplit, ih]
      constructor
      · rintro ⟨hcurrent, hall⟩ k
        by_cases hk : k₀ = k
        · subst hk
          exact ends_currval.2 ⟨hcurrent, hall k₀⟩
        · exact (ends_cons_of_ne hk).2 (hall k)
      · intro hall
        have hk₀ := ends_currval.1 (hall k₀)
        refine ⟨hk₀.1, fun k => ?_⟩
        by_cases hk : k₀ = k
        · subst hk
          exact hk₀.2
        · exact (ends_cons_of_ne hk).1 (hall k)
    | true =>
      have hsplit : postgresRow s ((true, k₀) :: row) =
          (((true, k₀) :: row).map fun e => t.current e.2, t) ↔
          some (s.drawn k₀) = t.current k₀ ∧
            postgresRow (s.draw (· = k₀)) row = (row.map fun e => t.current e.2, t) := by
        rw [postgresRow, List.map_cons, Prod.mk.injEq, List.cons.injEq, and_assoc]
        refine and_congr_right fun _ => ?_
        rw [Prod.ext_iff]
      have hother : ∀ {k}, k₀ ≠ k → (Ends (s.draw (· = k₀)) t row k ↔ Ends s t row k) := by
        intro k hk
        have hat : (s.draw (· = k₀)).at_ k = s.at_ k := by
          rw [Counters.at_draw, if_neg fun h => hk h.symm]
        have hafter : (s.draw (· = k₀)).afterDraw k = s.afterDraw k := by
          have hdrawn : (s.draw (· = k₀)).drawn k = s.drawn k := if_neg fun h => hk h.symm
          rw [Counters.afterDraw, Counters.afterDraw, hdrawn]
        rw [Ends, Ends, hat, hafter]
      rw [hsplit, ih]
      constructor
      · rintro ⟨hcurrent, hall⟩ k
        by_cases hk : k₀ = k
        · subst hk
          exact ends_nextval.2 ⟨hcurrent, hall k₀⟩
        · exact (ends_cons_of_ne hk).2 ((hother hk).1 (hall k))
      · intro hall
        have hk₀ := ends_nextval.1 (hall k₀)
        refine ⟨hk₀.1, fun k => ?_⟩
        by_cases hk : k₀ = k
        · subst hk
          exact hk₀.2
        · exact (hother hk).2 ((ends_cons_of_ne hk).1 (hall k))

/-- **A row gets and draws what it does in Oracle** exactly if each sequence is drawn once. -/
theorem postgresRow_eq_iff {written : List Evaluated} (hrow : ∀ e ∈ row, e ∈ written) :
    postgresRow s row = oracleRow written s row ↔ Once written row := by
  rw [oracleRow, postgresRow_eq_iff_ends]
  refine forall_congr' fun k => ?_
  by_cases hk : (true, k) ∈ written
  · have hat : (s.draw fun k => (true, k) ∈ written).at_ k = s.afterDraw k := by
      rw [Counters.at_draw, if_pos hk]
    rw [Ends, hat]
    constructor
    · rintro (⟨hsame, -⟩ | ⟨-, honce⟩) -
      · have := (Prod.mk.inj hsame).1
        omega
      · exact honce
    · exact fun honce => Or.inr ⟨rfl, honce hk⟩
  · have hat : (s.draw fun k => (true, k) ∈ written).at_ k = s.at_ k := by
      rw [Counters.at_draw, if_neg hk]
    refine iff_of_true (Or.inl ⟨hat.symm, fun h => hk (hrow _ h)⟩) fun h => absurd h hk

/-- The rows of a statement. -/
lemma rowsFrom_eq_iff {written : List Evaluated} {rows : List (List Evaluated)}
    (hrows : ∀ row ∈ rows, ∀ e ∈ row, e ∈ written) :
    rowsFrom postgresRow s rows = rowsFrom (oracleRow written) s rows ↔
      ∀ row ∈ rows, Once written row := by
  induction rows generalizing s with
  | nil => exact iff_of_true rfl fun row hrow => absurd hrow List.not_mem_nil
  | cons row rows ih =>
    have hstep := postgresRow_eq_iff (s := s) (hrows row List.mem_cons_self)
    have ih := fun s => ih (s := s) fun r hr => hrows r (List.mem_cons_of_mem row hr)
    rw [rowsFrom, rowsFrom, List.cons.injEq, List.forall_mem_cons]
    constructor
    · rintro ⟨hrow, hrest⟩
      rw [hrow] at hrest
      exact ⟨hstep.1 hrow, (ih _).1 hrest⟩
    · rintro ⟨hrow, hrest⟩
      have heq := hstep.2 hrow
      rw [heq]
      exact ⟨rfl, (ih _).2 hrest⟩

end Row

/-! ### Statements -/

/-- The pseudocolumns of a statement. -/
def written (ps : List Piece) : List Evaluated :=
  ps.filterMap fun p =>
    match p with
    | .reference r => some (r.next, r.key)
    | _ => none

/-- A statement, with the pseudocolumns that are evaluated for each of its rows, in their order. -/
structure Statement where
  pieces : List Piece
  wellFormed : WellFormed pieces
  rows : List (List Evaluated)
  evaluated : ∀ row ∈ rows, ∀ e ∈ row, e ∈ written pieces

/-- The pass puts the calls and changes nothing else, and each row gets and draws what it does in
Oracle. -/
def Statement.Right (st : Statement) (s : Counters) : Prop :=
  rewriteSequencePseudocolumns (source st.pieces) = called st.pieces ∧
    rowsFrom postgresRow s st.rows = rowsFrom (oracleRow (written st.pieces)) s st.rows

/-- **When a statement is right**: the pass understands each reference and takes no word for a
sequence, and each sequence with a `NEXTVAL` is drawn once in each row, in front of its other
calls. -/
theorem right_exactly_when (st : Statement) (s : Counters) : st.Right s ↔
    ((∀ r, Piece.reference r ∈ st.pieces → r.Simple) ∧ TrapFree st.pieces) ∧
      ∀ row ∈ st.rows, Once (written st.pieces) row :=
  and_congr (rewrite_eq_iff st.wellFormed) (rowsFrom_eq_iff st.evaluated)

/-! ### A sequence of a schema, and two values in a row -/

/-- `hr.s.NEXTVAL`. -/
def qualified : Statement where
  pieces := [.reference ⟨some ⟨.plain ['h', 'r'], [], []⟩, .plain ['s'], [], [], true,
    "NEXTVAL".toList⟩]
  wellFormed := by
    refine ⟨⟨⟨?_, ⟨by decide, by decide⟩, nofun, nofun, by decide⟩, nofun⟩, trivial, trivial⟩
    rintro s hs
    obtain rfl := Option.some.inj hs
    exact ⟨⟨by decide, by decide⟩, nofun, nofun⟩
  rows := []
  evaluated := nofun

/-- `s.NEXTVAL,s.NEXTVAL`. -/
def twice : Statement where
  pieces :=
    let r : Reference := ⟨none, .plain ['s'], [], [], true, "NEXTVAL".toList⟩
    [.reference r, .symbol ',', .reference r]
  wellFormed := by
    have hok : Reference.Ok ⟨none, .plain ['s'], [], [], true, "NEXTVAL".toList⟩ :=
      ⟨nofun, ⟨by decide, by decide⟩, nofun, nofun, by decide⟩
    refine ⟨⟨hok, ?_⟩, trivial, ⟨by decide, by decide, by decide, by decide, by decide, by decide⟩,
      fun h => absurd h (by decide), ⟨hok, nofun⟩, trivial, trivial⟩
    rintro c hc
    obtain rfl := Option.some.inj hc
    rfl
  rows := [[(true, none, ['S']), (true, none, ['S'])]]
  evaluated := by
    intro row hrow e he
    rw [List.mem_singleton.1 hrow] at he
    have he : e = (true, none, ['S']) := by simpa using he
    subst he
    decide

/-- **A sequence of a schema** becomes a function of the schema, and **two values of a sequence** are
drawn for one row. -/
theorem qualified_and_twice_not_right : ¬ qualified.Right Counters.start ∧
    rewriteSequencePseudocolumns (source qualified.pieces) = "hr.nextval('s')".toList ∧
    ¬ twice.Right Counters.start := by
  refine ⟨fun h => ?_, by decide, fun h => ?_⟩
  · have hsimple := ((right_exactly_when _ _).1 h).1.1 _ List.mem_cons_self
    cases hsimple.schema
  · have honce := ((right_exactly_when _ _).1 h).2 _ List.mem_cons_self
    obtain ⟨a, b, hrow, ha, hb⟩ := honce (none, ['S']) (by decide)
    cases a with
    | nil =>
      obtain ⟨-, rfl⟩ := List.cons.inj hrow
      exact hb List.mem_cons_self
    | cons e a =>
      obtain ⟨rfl, -⟩ := List.cons.inj hrow
      exact ha true List.mem_cons_self

end DbSaci.Translate.Sequence
