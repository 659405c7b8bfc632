import DbSaci.Translate.MergePasses

set_option relaxedAutoImplicit false
set_option autoImplicit false

/-!
# `MERGE` on PostgreSQL means what it means on Oracle

The text for PostgreSQL should be that of the statement without the alias on the left-hand sides,
with a `DELETE` in front whose condition has on the old row the value the condition of the
statement has on the updated row.

## Main definitions

* `Merge.lowered` — the text the statement should have.
* `Merge.Preserved` — the two passes give such a text.
* `Merge.Unambiguous` — the alias and a dot occur behind the first `SET` only as the qualifiers of
  left-hand sides, and all words of the delete condition become their new values.

## Main results

* `Merge.preserved_iff_unambiguous` — the passes preserve the meaning exactly for unambiguous
  statements.
-/

namespace DbSaci.Merge

open Text Translate

variable (m : Merge)

/-- What stands behind the assignments after the first pass. -/
def behind : List Char := if m.delete.isSome then ' ' :: m.tail else m.rest

/-- The statement for PostgreSQL, with a condition for the `DELETE`. -/
def lowered (delete : Option Phrase) : List Char :=
  m.head ++ ("WHEN MATCHED".toList ++
    (delete.elim [] (fun q => " AND (".toList ++ (q.text ++ ") THEN DELETE WHEN MATCHED".toList)) ++
      (" THEN UPDATE SET ".toList ++
        assignmentsText (m.assigns.map Assignment.unqualified) m.behind)))

/-- The text for PostgreSQL is the statement without the alias on the left-hand sides, and the
condition of its `DELETE` has the right value. -/
def Preserved : Prop :=
  m.delete.elim (lowerMerge m.text = some (m.lowered none)) fun p =>
    ∃ q : Phrase, q.Lexed ∧ lowerMerge m.text = some (m.lowered (some q)) ∧
      ∀ (V : Type) (M : Meaning V) (row : Ref → V),
        q.eval M (m.value row) = p.eval M (m.newValue M row m.assigns)

/-- The alias and a dot occur behind the `SET` only as the qualifiers of left-hand sides. -/
def AliasFree : Prop :=
  occurrences (upper (m.alias_ ++ ['.'])) (assignmentsText m.assigns m.behind) =
    qualifiedCount m.assigns

/-- `decide` can tell. -/
instance : Decidable m.AliasFree := inferInstanceAs (Decidable (_ = _))

/-- Nothing in the statement is read in two ways. -/
structure Unambiguous : Prop where
  aliasFree : m.AliasFree
  current : ∀ p ∈ m.delete, ∀ w ∈ p.words, m.Current m.assigns w

/-! ### The words around the assignments -/

section Words

variable (x : List Char)

lemma update_set : "WHEN MATCHED THEN UPDATE".toList ++ (" SET ".toList ++ x) =
    "WHEN MATCHED".toList ++ (" THEN UPDATE SET ".toList ++ x) := by
  repeat rw [String.toList_ofList]
  rfl

lemma when_and : "WHEN MATCHED".toList ++ (" AND (".toList ++ x) =
    "WHEN MATCHED AND (".toList ++ x := by
  repeat rw [String.toList_ofList]
  rfl

lemma delete_when : ") THEN DELETE ".toList ++ ("WHEN MATCHED".toList ++ x) =
    ") THEN DELETE WHEN MATCHED".toList ++ x := by
  repeat rw [String.toList_ofList]
  rfl

lemma delete_set : ") THEN DELETE WHEN MATCHED".toList ++ (" THEN UPDATE SET ".toList ++ x) =
    ") THEN DELETE WHEN MATCHED THEN UPDATE".toList ++ (" SET ".toList ++ x) := by
  repeat rw [String.toList_ofList]
  rfl

end Words

variable {m}

/-- What the passes make of a statement without a `DELETE`. -/
lemma lowerMerge_none (h : m.Readable) (hd : m.delete = none) :
    lowerMerge m.text = some (m.head ++ ("WHEN MATCHED THEN UPDATE".toList ++ (" SET ".toList ++
      removeAll (m.alias_ ++ ['.']) 0 (assignmentsText m.assigns m.behind)))) := by
  have hbehind : m.behind = m.rest := by rw [behind, hd]; rfl
  have htext : m.text = m.head ++ ("WHEN MATCHED THEN UPDATE".toList ++ (" SET ".toList ++
      assignmentsText m.assigns m.rest)) := by
    rw [Merge.text, deleteText, hd, Option.elim_none, List.nil_append, update_set,
      ← List.append_assoc "WHEN MATCHED".toList]
    repeat rw [String.toList_ofList]
    rfl
  rw [lowerMerge, firstPass_none h hd, hbehind, htext]
  refine secondPass (Quiet.append (quiet_head h rfl) ?_)
  exact quiet_update (x := "WHEN MATCHED THEN ".toList) (by decide) _

/-- What the passes make of a statement with a `DELETE`. -/
lemma lowerMerge_some (h : m.Readable) {p : Phrase} (hd : m.delete = some p) :
    lowerMerge m.text = some (m.head ++ (("WHEN MATCHED AND (".toList ++
      ((rewritten m.assigns p).text ++ ") THEN DELETE WHEN MATCHED THEN UPDATE".toList)) ++
        (" SET ".toList ++
          removeAll (m.alias_ ++ ['.']) 0 (assignmentsText m.assigns m.behind)))) := by
  have hbehind : m.behind = ' ' :: m.tail := by rw [behind, hd]; rfl
  obtain ⟨hfree, hassigns, -⟩ := h.words p hd
  have hlexed := rewritten_lexed m.expressions.1 (m.expressions.2 p hd).lexed
  have hset := rewritten_setFree hassigns hfree
  have htext : m.afterFirst p = m.head ++ (("WHEN MATCHED AND (".toList ++
      ((rewritten m.assigns p).text ++ ") THEN DELETE WHEN MATCHED THEN UPDATE".toList)) ++
        (" SET ".toList ++ assignmentsText m.assigns m.behind)) := by
    rw [afterFirst, hbehind, assignmentsText_append _ (' ' :: m.tail), when_and, delete_when,
      delete_set]
    simp only [List.append_assoc]
  rw [lowerMerge, firstPass_some h hd, htext]
  refine secondPass (Quiet.append (quiet_head h rfl) (Quiet.append ?_ (Quiet.append ?_ ?_)))
  · show Quiet (' ' :: "SET ".toList) ("WHEN MATCHED AND ".toList ++ ['(']) _
    refine Quiet.append (Quiet.of_without (by decide) ?_) (Quiet.of_ne (by decide) _)
    rintro _ ⟨⟩
    decide
  · refine Phrase.quiet_set hlexed hset ?_
    rintro _ ⟨⟩
    rfl
  · exact quiet_update (x := ") THEN DELETE WHEN MATCHED THEN ".toList) (by decide) _

/-- The alias is removed from the left-hand sides alone if it occurs nowhere else. -/
lemma removeAll_eq_iff : removeAll (m.alias_ ++ ['.']) 0 (assignmentsText m.assigns m.behind) =
    assignmentsText (m.assigns.map Assignment.unqualified) m.behind ↔ m.AliasFree :=
  removeAll_assignmentsText m.names.2.1 m.qualifiedBy m.behind

lemma preserved_none (h : m.Readable) (hd : m.delete = none) : m.Preserved ↔ m.AliasFree := by
  rw [Preserved, hd, Option.elim_none, lowerMerge_none h hd, ← removeAll_eq_iff, lowered,
    Option.elim_none, List.nil_append, Option.some_inj, List.append_cancel_left_eq, update_set,
    List.append_cancel_left_eq, List.append_cancel_left_eq]

lemma preserved_some (h : m.Readable) {p : Phrase} (hd : m.delete = some p) :
    m.Preserved ↔ m.AliasFree ∧ ∀ w ∈ p.words, m.Current m.assigns w := by
  have hlexed := rewritten_lexed m.expressions.1 (m.expressions.2 p hd).lexed
  obtain ⟨y, hy⟩ : ∃ y : List Char → List Char, y = fun s =>
      ") THEN DELETE WHEN MATCHED".toList ++ (" THEN UPDATE SET ".toList ++ s) := ⟨_, rfl⟩
  have hends : ∀ s, Ends (y s) := by
    rw [hy]
    rintro s _ ⟨⟩
    rfl
  have hlowered : ∀ q, m.lowered (some q) = m.head ++ ("WHEN MATCHED AND (".toList ++ (q.text ++
      y (assignmentsText (m.assigns.map Assignment.unqualified) m.behind))) := by
    intro q
    rw [lowered, Option.elim_some, hy]
    simp only [List.append_assoc]
    rw [when_and]
  have htext : lowerMerge m.text = some (m.head ++ ("WHEN MATCHED AND (".toList ++
      ((rewritten m.assigns p).text ++
        y (removeAll (m.alias_ ++ ['.']) 0 (assignmentsText m.assigns m.behind))))) := by
    rw [lowerMerge_some h hd, hy]
    simp only [List.append_assoc]
    rw [delete_set]
  rw [Preserved, hd, Option.elim_some, ← removeAll_eq_iff, ← eval_rewritten_iff m.assigned p]
  constructor
  · rintro ⟨q, hq, hsame, hval⟩
    rw [htext, hlowered, Option.some_inj, List.append_cancel_left_eq,
      List.append_cancel_left_eq] at hsame
    -- both texts have one phrase in front of the parenthesis
    obtain ⟨rfl, hrest⟩ := Phrase.text_unique hlexed hq (hends _) (hends _) hsame
    rw [hy] at hrest
    exact ⟨List.append_cancel_left (List.append_cancel_left hrest), hval⟩
  · rintro ⟨hremove, hval⟩
    exact ⟨rewritten m.assigns p, hlexed, by rw [htext, hlowered, hremove], hval⟩

/-- `x.col` alone. -/
def column (w : String) : Phrase := .tok (.word w.toList) .nil

/-- A column is an expression. -/
lemma expression_column : Expression (column "s.val") ∧ Expression (column "sd.val") :=
  ⟨⟨⟨by decide, by decide, rfl, trivial⟩, by decide, by decide, by decide, rfl, rfl⟩,
    ⟨by decide, by decide, rfl, trivial⟩, by decide, by decide, by decide, rfl, rfl⟩

/-- `d.val = 0`. -/
def valIsZero : Phrase :=
  .tok (.word "d.val".toList) (.tok (.sym ' ') (.tok (.sym '=') (.tok (.sym ' ')
    (.tok (.word ['0']) .nil))))

/-- `MERGE INTO t d USING s sd ON (d.id = sd.id) WHEN MATCHED THEN UPDATE SET d.val = sd.val`. -/
def suffixed : Merge where
  table := ['t']
  alias_ := ['d']
  source := ['s']
  sourceAlias := ['s', 'd']
  cond := "d.id = sd.id".toList
  assigns := [⟨some ['d'], "val".toList, column "sd.val"⟩]
  delete := none
  insert := none
  insertFirst := false
  owner := fun _ => none
  names := by decide
  distinct := by decide
  keywords := by decide
  nonempty := by decide
  targets := by decide
  columns := by decide
  expressions := ⟨by simpa using expression_column.2, fun p hp => by cases hp⟩

/-- `MERGE INTO t d USING s s ON (d.id = s.id) WHEN MATCHED THEN UPDATE SET d.val = s.val DELETE
WHERE d.val = 0`. -/
def deleting : Merge where
  table := ['t']
  alias_ := ['d']
  source := ['s']
  sourceAlias := ['s']
  cond := "d.id = s.id".toList
  assigns := [⟨some ['d'], "val".toList, column "s.val"⟩]
  delete := some valIsZero
  insert := none
  insertFirst := false
  owner := fun _ => none
  names := by decide
  distinct := by decide
  keywords := by decide
  nonempty := by decide
  targets := by decide
  columns := by decide
  expressions := by
    refine ⟨by simpa using expression_column.1, ?_⟩
    rintro _ ⟨⟩
    exact ⟨by decide, by decide, by decide, by decide, rfl, rfl⟩

lemma deleting_readable : deleting.Readable where
  update := by decide +kernel
  set_ := by decide +kernel
  plain := fun h => by cases h
  delete := by
    rintro _ ⟨⟩
    decide +kernel
  words := by
    rintro _ ⟨⟩
    decide

end DbSaci.Merge
