import DbSaci.Translate.InsertLayout
import DbSaci.Library.Truth

set_option relaxedAutoImplicit false
set_option autoImplicit false

/-!
# The meaning of a multi-table `INSERT`

A statement with its conditions and their `INTO` clauses, the rows Oracle inserts for a row of the
source, and those the lowered statements insert. The conditions are three-valued, and a text
inserts a row where its `WHERE` clause is true of it.

## Main definitions

* `MultiInsert` — an `INSERT ALL` or an `INSERT FIRST`, as it is written.
* `MultiInsert.inserts` — where Oracle inserts a row.
* `lowered` — where the lowered statements insert a row.
* `MultiInsert.Preserved` — both passes read every `INTO` clause and insert every row where Oracle
  does.
* `MultiInsert.Good` — a `WHEN` at most once under `FIRST`, no `ELSE`, and the expected layout.

## Main results

* `MultiInsert.lowered_targets` — where the lowered statements insert a row, condition by
  condition.
* `MultiInsert.lowered_eq_inserts`, `MultiInsert.exclusive_of_lowered_eq` — that is where Oracle
  does exactly if the statement is exclusive.
-/

namespace DbSaci.Translate

open Text

/-! ### Statements -/

/-- A condition and the `INTO` clauses under it. -/
structure Branch where
  head : WhenClause
  intos : List IntoClause
  nonempty : intos ≠ []

/-- An `ELSE` and the `INTO` clauses under it. -/
structure Otherwise where
  head : ElseClause
  intos : List IntoClause
  nonempty : intos ≠ []

/-- An `INSERT ALL` or an `INSERT FIRST`: unconditional `INTO` clauses, or conditions with their
own, and a subquery. -/
structure MultiInsert where
  lead : List Char
  kwInsert : Keyword "INSERT"
  gapInsert : List Char
  first : Bool
  kwKind : Keyword (if first then "FIRST" else "ALL")
  gapKind : List Char
  plain : List IntoClause
  branches : List Branch
  otherwise : Option Otherwise
  source : List Char
  gaps : Gap lead ∧ Gap gapInsert ∧ Gap gapKind
  apart : gapInsert ≠ [] ∧ gapKind ≠ []
  shape : (plain ≠ [] ∧ first = false ∧ branches = [] ∧ otherwise = none) ∨
    (plain = [] ∧ branches ≠ [])
  trimmed : Trimmed source ∧ source.getLast? ≠ some ';'

/-- The clauses of a condition. -/
def Branch.clauses (b : Branch) : List Clause := .when b.head :: b.intos.map .into

/-- The clauses of an `ELSE`. -/
def Otherwise.clauses (o : Otherwise) : List Clause := .otherwise o.head :: o.intos.map .into

namespace MultiInsert

/-- The clauses of a statement. -/
def clauses (m : MultiInsert) : List Clause :=
  m.plain.map .into ++ (m.branches.flatMap Branch.clauses ++ m.otherwise.elim [] Otherwise.clauses)

/-- The `INTO` clauses of a statement. -/
def intos (m : MultiInsert) : List IntoClause :=
  m.plain ++ (m.branches.flatMap Branch.intos ++ m.otherwise.elim [] Otherwise.intos)

/-- The text of a statement. -/
def text (m : MultiInsert) : List Char :=
  m.lead ++ (m.kwInsert.text ++ (m.gapInsert ++ (m.kwKind.text ++ (m.gapKind ++
    writeAll m.clauses m.source))))

/-- The targets the clauses stand for. -/
def targets (m : MultiInsert) : List Target := expected none [] m.clauses

end MultiInsert

/-! ### Meaning -/

/-- The rows inserted for an `INTO` clause: the table, its columns and the values. -/
abbrev Row := List Char × List Char × List Char

/-- The row a target inserts. -/
def Target.row (t : Target) : Row := (t.table, t.cols, t.values)

/-- The truth value of a `WHERE` clause on a row, from those of the conditions. -/
def When.value (v : List Char → Truth) : When → Truth
  | cond c => v c
  | noneOf cs => cs.foldl (fun acc c => acc ⊓ (v c).neg) ⊤

/-- A target takes a row. -/
def Target.takes (v : List Char → Truth) (t : Target) : Bool :=
  t.when.all fun w => (w.value v).holds

/-- What the lowered statements insert for a row. -/
def lowered (v : List Char → Truth) (ts : List Target) : List Row :=
  (ts.filter (Target.takes v)).map Target.row

/-- The condition is true of a row. -/
def Branch.taken (v : List Char → Truth) (b : Branch) : Bool := (v b.head.cond).holds

/-- The rows of a condition. -/
def Branch.rows (b : Branch) : List Row := b.intos.map IntoClause.target

namespace MultiInsert

/-- What Oracle inserts for a row: `ALL` takes every condition that is true, `FIRST` the first of
them, and `ELSE` is taken when none is true. -/
def inserts (m : MultiInsert) (v : List Char → Truth) : List Row :=
  let true_ := m.branches.filter (Branch.taken v)
  m.plain.map IntoClause.target ++
    ((if m.first then true_.take 1 else true_).flatMap Branch.rows ++
      if true_ = [] then (m.otherwise.elim [] Otherwise.intos).map IntoClause.target else [])

/-- **The meaning is preserved**: both passes lower the statement, read every `INTO` clause and the
source, and insert each row of the source where Oracle does. -/
def Preserved (m : MultiInsert) : Prop :=
  ∀ pass ∈ [rewriteInsertAll, rewriteInsertAllMariadb],
    ∃ ts, pass m.text = .ok (ts, m.source) ∧ ts.map Target.row = m.intos.map IntoClause.target ∧
      ∀ v, lowered v ts = m.inserts v

/-- The texts in the statement do not get in the way of the searches. -/
def Readable (m : MultiInsert) : Prop :=
  (∀ c ∈ m.clauses, c.Readable) ∧ Ascii m.source ∧ Without "VALUES".toList m.source

/-- The passes expect one blank after `INSERT`, a blank after `ALL` or `FIRST`, and spaced
clauses. -/
def Spaced (m : MultiInsert) : Prop :=
  m.gapInsert = [' '] ∧ m.gapKind.head? = some ' ' ∧ ∀ c ∈ m.clauses, c.Spaced

/-- `FIRST` stands before at most one condition, and there is no `ELSE`. -/
def Exclusive (m : MultiInsert) : Prop :=
  m.otherwise = none ∧ (m.first = true → m.branches.length ≤ 1)

/-- The passes preserve the meaning. -/
def Good (m : MultiInsert) : Prop := m.Spaced ∧ m.Exclusive

instance (m : MultiInsert) : Decidable m.Readable := inferInstanceAs (Decidable (_ ∧ _))

instance (m : MultiInsert) : Decidable m.Spaced := inferInstanceAs (Decidable (_ ∧ _))

instance (m : MultiInsert) : Decidable m.Exclusive := inferInstanceAs (Decidable (_ ∧ _))

instance (m : MultiInsert) : Decidable m.Good := inferInstanceAs (Decidable (_ ∧ _))

end MultiInsert

/-! ### Where the lowered statements insert a row -/

/-- The target of a clause under a condition. -/
def IntoClause.toTarget (w : Option When) (i : IntoClause) : Target :=
  ⟨i.table, i.colsText, i.values, w⟩

@[simp] lemma row_toTarget (w : Option When) (i : IntoClause) : (i.toTarget w).row = i.target := rfl

lemma expected_map_into (w : Option When) (prior : List (List Char)) (is : List IntoClause)
    (cs : List Clause) :
    expected w prior (is.map .into ++ cs) =
      is.map (IntoClause.toTarget w) ++ expected w prior cs := by
  induction is with
  | nil => rfl
  | cons i is ih =>
    rw [List.map_cons, List.cons_append, expected, ih]
    rfl

@[simp] lemma lowered_nil (v : List Char → Truth) : lowered v [] = [] := rfl

lemma lowered_append (v : List Char → Truth) (ts us : List Target) :
    lowered v (ts ++ us) = lowered v ts ++ lowered v us := by
  simp [lowered]

/-- Clauses under one condition are taken together. -/
lemma lowered_toTarget (v : List Char → Truth) (w : Option When) (is : List IntoClause) :
    lowered v (is.map (IntoClause.toTarget w)) =
      if w.all fun w => (w.value v).holds then is.map IntoClause.target else [] := by
  have htakes : ∀ t ∈ is.map (IntoClause.toTarget w),
      t.takes v = w.all fun w => (w.value v).holds := by
    intro t ht
    obtain ⟨i, -, rfl⟩ := List.mem_map.1 ht
    rfl
  by_cases h : (w.all fun w => (w.value v).holds) = true
  · rw [if_pos h, lowered, List.filter_eq_self.2 fun t ht => (htakes t ht).trans h, List.map_map]
    rfl
  · rw [if_neg h, lowered, List.filter_eq_nil_iff.2 fun t ht => (htakes t ht).symm ▸ h]
    rfl

lemma holds_noneOf (v : List Char → Truth) (cs : List (List Char)) :
    ((When.noneOf cs).value v).holds = cs.all fun c => (v c).neg.holds := by
  rw [When.value, Truth.holds_foldl_inf]
  rfl

/-- The conditions one after the other: each takes the rows it is true of. -/
lemma lowered_branches (v : List Char → Truth) (bs : List Branch) (w : Option When)
    (prior : List (List Char)) (o : Option Otherwise) :
    lowered v (expected w prior (bs.flatMap Branch.clauses ++ o.elim [] Otherwise.clauses)) =
      (bs.filter (Branch.taken v)).flatMap Branch.rows ++
        if (prior ++ bs.map fun b => b.head.cond).all fun c => (v c).neg.holds then
          (o.elim [] Otherwise.intos).map IntoClause.target
        else [] := by
  induction bs generalizing w prior with
  | nil =>
    cases o with
    | none => simp [expected]
    | some o =>
      have h := expected_map_into (some (.noneOf prior)) prior o.intos []
      rw [List.append_nil] at h
      simp only [List.flatMap_nil, List.nil_append, Option.elim_some, Otherwise.clauses, expected, h,
        List.append_nil, lowered_toTarget, Option.all_some, holds_noneOf, List.filter_nil,
        List.map_nil]
  | cons b bs ih =>
    rw [List.flatMap_cons, Branch.clauses, List.cons_append, List.cons_append, List.append_assoc,
      expected, expected_map_into, lowered_append, lowered_toTarget, ih, List.append_assoc prior]
    simp only [Option.all_some, When.value, List.filter_cons, Branch.taken, List.map_cons,
      List.singleton_append]
    by_cases hb : (v b.head.cond).holds = true
    · simp only [hb, if_true, List.flatMap_cons, Branch.rows, List.append_assoc]
    · simp only [hb, if_false, List.nil_append, Bool.false_eq_true]

lemma rows_branches (bs : List Branch) (w : Option When) (prior : List (List Char))
    (o : Option Otherwise) :
    (expected w prior (bs.flatMap Branch.clauses ++ o.elim [] Otherwise.clauses)).map Target.row =
      (bs.flatMap Branch.intos ++ o.elim [] Otherwise.intos).map IntoClause.target := by
  induction bs generalizing w prior with
  | nil =>
    cases o with
    | none => rfl
    | some o =>
      have h := expected_map_into (some (.noneOf prior)) prior o.intos []
      rw [List.append_nil] at h
      rw [List.flatMap_nil, List.nil_append, Option.elim_some, Otherwise.clauses, expected, h,
        expected, List.append_nil, List.map_map]
      rfl
  | cons b bs ih =>
    rw [List.flatMap_cons, Branch.clauses, List.cons_append, List.cons_append, List.append_assoc,
      expected, expected_map_into, List.map_append, List.map_map, ih, List.flatMap_cons]
    simp only [List.map_append, List.append_assoc]
    rfl

namespace MultiInsert

/-- **Where the lowered statements insert a row**: every condition takes the rows it is true of,
also under `FIRST`, and `ELSE` those that every condition is false of. -/
theorem lowered_targets (m : MultiInsert) (v : List Char → Truth) :
    lowered v m.targets =
      m.plain.map IntoClause.target ++
        ((m.branches.filter (Branch.taken v)).flatMap Branch.rows ++
          if (m.branches.map fun b => b.head.cond).all fun c => (v c).neg.holds then
            (m.otherwise.elim [] Otherwise.intos).map IntoClause.target
          else []) := by
  rw [targets, clauses, expected_map_into, lowered_append, lowered_toTarget, lowered_branches]
  rfl

/-- The targets are the `INTO` clauses of the statement. -/
lemma rows_targets (m : MultiInsert) :
    m.targets.map Target.row = m.intos.map IntoClause.target := by
  rw [targets, clauses, expected_map_into, List.map_append, List.map_map, rows_branches, intos]
  simp only [List.map_append]
  rfl

/-- A good statement is lowered to one that inserts where Oracle does. -/
lemma lowered_eq_inserts {m : MultiInsert} (h : m.Exclusive) (v : List Char → Truth) :
    lowered v m.targets = m.inserts v := by
  obtain ⟨helse, hfirst⟩ := h
  have htake : (if m.first then (m.branches.filter (Branch.taken v)).take 1
      else m.branches.filter (Branch.taken v)) = m.branches.filter (Branch.taken v) := by
    split_ifs with hf
    · refine List.take_of_length_le ?_
      exact (List.length_filter_le _ _).trans (hfirst hf)
    · rfl
  rw [lowered_targets, inserts, htake, helse]
  simp

/-- Only such statements are lowered to one that inserts where Oracle does. -/
lemma exclusive_of_lowered_eq {m : MultiInsert} (h : ∀ v, lowered v m.targets = m.inserts v) :
    m.Exclusive := by
  constructor
  · -- where every condition is unknown, only Oracle takes the `ELSE`
    by_contra helse
    obtain ⟨o, ho⟩ := Option.ne_none_iff_exists'.1 helse
    have hbranches : m.branches ≠ [] := by
      rcases m.shape with ⟨-, -, -, hnone⟩ | ⟨-, hne⟩
      · exact absurd hnone helse
      · exact hne
    obtain ⟨b, bs, hbs⟩ := List.exists_cons_of_ne_nil hbranches
    have hnone : m.branches.filter (Branch.taken fun _ => .unknown) = [] :=
      List.filter_eq_nil_iff.2 fun b _ => by simp [Branch.taken, Truth.holds]
    have hv := h fun _ => .unknown
    rw [lowered_targets, inserts, hnone, ho, hbs] at hv
    have hlen := congrArg List.length hv
    simp [Truth.neg, Truth.holds] at hlen
    exact o.nonempty hlen
  · -- where every condition is true, Oracle takes the first alone
    intro hfirst
    by_contra hlen
    obtain ⟨b, c, bs, hbs⟩ : ∃ b c bs, m.branches = b :: c :: bs := by
      match hbs : m.branches with
      | [] => simp [hbs] at hlen
      | [b] => simp [hbs] at hlen
      | b :: c :: bs => exact ⟨b, c, bs, rfl⟩
    have hall : m.branches.filter (Branch.taken fun _ => .yes) = m.branches :=
      List.filter_eq_self.2 fun b _ => by simp [Branch.taken, Truth.holds]
    have hv := h fun _ => .yes
    rw [lowered_targets, inserts, hall, hbs, if_pos hfirst] at hv
    have hlen := congrArg List.length hv
    simp [Truth.neg, Truth.holds] at hlen
    exact c.nonempty (List.map_eq_nil_iff.1 hlen.1)

end MultiInsert

end DbSaci.Translate
