import DbSaci.Sql.Merge

set_option relaxedAutoImplicit false
set_option autoImplicit false

/-!
# Assignments put into a condition one after the other

The condition of a `DELETE` is about the updated row. Putting the right-hand sides into it one
after the other gives a condition about the old row; it has the right value exactly if every column
of the condition that is assigned is written as in its assignment, and no later assignment changes
what its right-hand side reads.

## Main definitions

* `Merge.rewritten` — the condition with the assignments put in.
* `Merge.Settles` — a word still stands for a column after some assignments.
* `Merge.Current` — a word becomes its new value.

## Main results

* `Merge.eval_rewritten_iff` — the rewritten condition has the right value on every row and for
  every meaning exactly if all its words become their new values.
-/

namespace DbSaci

open Text Translate

/-- The right-hand side for the left-hand side. -/
def Assignment.group (a : Assignment) (w : List Char) : Option Phrase :=
  if a.hits w then some a.rhs else none

namespace Merge

variable (m : Merge)

/-- The condition with the assignments put in one after the other. -/
def rewritten (as : List Assignment) (p : Phrase) : Phrase :=
  as.foldl (fun p a => p.subst a.group) p

/-- The value of a word after the assignments have been put in. -/
def afterValue {V : Type} (M : Meaning V) (row : Ref → V) :
    List Assignment → List Char → Option V
  | [], w => m.value row w
  | a :: as, w =>
    if a.hits w then some (a.rhs.eval M (afterValue M row as)) else afterValue M row as w

/-- A word stands for a column after the assignments have been put in: it is not replaced, or
replaced by a word that does. -/
def Settles : List Assignment → Ref → List Char → Prop
  | [], r, w => m.resolve w = some r
  | a :: as, r, w =>
    if a.hits w then
      match a.rhs.single? with
      | some y => Settles as r y
      | none => False
    else Settles as r w

/-- A word becomes its new value: it is the left-hand side of its assignment, and the columns its
right-hand side reads are left alone by the assignments behind it. Otherwise the assignment has to
be one of the column to itself. -/
def Current : List Assignment → List Char → Prop
  | [], _ => True
  | a :: as, w =>
    if m.names_ a w then
      if a.hits w then ∀ x ∈ a.rhs.words, ∀ r ∈ m.resolve x, m.Settles as r x
      else (a.rhs.single?).bind m.resolve = m.resolve w
    else Current as w

/-- The assignments are to different columns of the target. -/
structure Assigned (as : List Assignment) : Prop where
  targets : ∀ a ∈ as, Name a.col ∧ ∀ q ∈ a.qualifier, Name q ∧ upper q = upper m.alias_
  columns : (as.map fun a => upper a.col).Nodup

variable {m}

lemma Assigned.tail {a : Assignment} {as : List Assignment} (h : m.Assigned (a :: as)) :
    m.Assigned as :=
  ⟨fun b hb => h.targets b (List.mem_cons_of_mem _ hb),
    (List.nodup_cons.1 (by simpa using h.columns)).2⟩

/-- A left-hand side stands for the column that is assigned. -/
lemma Assigned.names_of_hits {as : List Assignment} (h : m.Assigned as) {a : Assignment}
    (ha : a ∈ as) {w : List Char} (hit : a.hits w) : m.names_ a w := by
  obtain ⟨hq, hw⟩ := hit
  obtain ⟨q, hq⟩ := Option.isSome_iff_exists.1 hq
  obtain ⟨⟨-, hname⟩, hup⟩ := (h.targets a ha).2 q hq
  have hdot : ∀ c ∈ upper q, (decide (c ≠ '.')) = true := fun c hc =>
    decide_eq_true fun hdot => (hname c (mem_of_mem_upper (by rw [hdot]; rfl) hc)).2.1 hdot
  have hlhs : upper w = upper q ++ '.' :: upper a.col := by
    rw [hw, Assignment.lhs, hq, Option.elim_some, upper_append, upper_cons]
    rfl
  rw [names_, resolve, hlhs, List.dropWhile_append_of_pos hdot, List.takeWhile_append_of_pos hdot]
  simp [hup]

section Values

variable {V : Type} {M : Meaning V} {row : Ref → V}

lemma substValue_group (as : List Assignment) (a : Assignment) :
    Phrase.substValue M (m.afterValue M row as) a.group = m.afterValue M row (a :: as) := by
  funext w
  rw [Phrase.substValue, Assignment.group, afterValue]
  split_ifs <;> rfl

/-- The value of the rewritten condition. -/
lemma eval_rewritten (as : List Assignment) (p : Phrase) :
    (rewritten as p).eval M (m.value row) = p.eval M (m.afterValue M row as) := by
  induction as generalizing p with
  | nil => rfl
  | cons a as ih =>
    have hstep : rewritten (a :: as) p = rewritten as (p.subst a.group) := rfl
    rw [hstep, ih, Phrase.eval_subst, substValue_group]

/-- A word that no assignment is made to keeps its value. -/
lemma afterValue_of_not_names {as : List Assignment} (h : m.Assigned as) {w : List Char}
    (hw : ∀ a ∈ as, ¬ m.names_ a w) : m.afterValue M row as w = m.value row w := by
  induction as with
  | nil => rfl
  | cons a as ih =>
    have hmiss : ¬ a.hits w := fun hit =>
      hw a List.mem_cons_self (h.names_of_hits List.mem_cons_self hit)
    rw [afterValue, if_neg hmiss]
    exact ih h.tail fun b hb => hw b (List.mem_cons_of_mem _ hb)

/-- A word that stands for a column is assigned at most once. -/
lemma Assigned.not_names_of_names {a : Assignment} {as : List Assignment}
    (h : m.Assigned (a :: as)) {w : List Char} (hw : m.names_ a w) :
    ∀ b ∈ as, ¬ m.names_ b w := by
  intro b hb hbw
  have hcol : upper a.col = upper b.col := by
    rw [names_, hw] at hbw
    exact (Prod.mk.inj (Option.some.inj hbw)).2
  have hnodup := h.columns
  rw [List.map_cons, List.nodup_cons, hcol] at hnodup
  exact hnodup.1 (List.mem_map_of_mem hb)

/-- A word that stands for nothing stands for nothing afterwards. -/
lemma afterValue_isSome {as : List Assignment} (h : m.Assigned as) (w : List Char) :
    (m.afterValue M row as w).isSome = (m.value row w).isSome := by
  induction as with
  | nil => rfl
  | cons a as ih =>
    rw [afterValue]
    split_ifs with hit
    · have hname := h.names_of_hits List.mem_cons_self hit
      rw [value, hname]
      rfl
    · exact ih h.tail

lemma newValue_isSome (as : List Assignment) (w : List Char) :
    (m.newValue M row as w).isSome = (m.value row w).isSome := by
  induction as with
  | nil => rfl
  | cons a as ih =>
    rw [newValue]
    split_ifs with hname
    · rw [value, hname]
      rfl
    · exact ih

/-- A word that settles has the value of its column. -/
lemma afterValue_of_settles {as : List Assignment} {r : Ref} {w : List Char}
    (h : m.Settles as r w) : m.afterValue M row as w = some (row r) := by
  induction as generalizing w with
  | nil =>
    have h : m.resolve w = some r := h
    rw [afterValue, value, h]
    rfl
  | cons a as ih =>
    rw [Settles] at h
    rw [afterValue]
    split_ifs at h ⊢ with hit
    · cases hsingle : a.rhs.single? with
      | none =>
        rw [hsingle] at h
        exact h.elim
      | some y =>
        rw [hsingle] at h
        rw [Phrase.eval_of_single hsingle (ih h)]
    · exact ih h

/-- **A current word gets its new value.** -/
lemma afterValue_of_current {as : List Assignment} (h : m.Assigned as) {w : List Char}
    (hw : m.Current as w) : m.afterValue M row as w = m.newValue M row as w := by
  induction as with
  | nil => rfl
  | cons a as ih =>
    rw [Current] at hw
    rw [afterValue, newValue]
    by_cases hname : m.names_ a w
    · rw [if_pos hname] at hw ⊢
      by_cases hit : a.hits w
      · rw [if_pos hit] at hw ⊢
        refine congrArg some (Phrase.eval_congr fun x hx => ?_)
        cases hr : m.resolve x with
        | none =>
          refine afterValue_of_not_names h.tail fun b hb hbx => ?_
          rw [names_, hr] at hbx
          cases hbx
        | some r =>
          rw [afterValue_of_settles (hw x hx r hr), value, hr]
          rfl
      · rw [if_neg hit] at hw ⊢
        rw [afterValue_of_not_names h.tail (h.not_names_of_names hname), value, hname]
        rw [hname] at hw
        obtain ⟨y, hy, hres⟩ := Option.bind_eq_some_iff.1 hw
        have hval : m.value row y = some (row (.target, upper a.col)) := by
          rw [value, hres]
          rfl
        rw [Phrase.eval_of_single hy hval]
        rfl
    · rw [if_neg hname] at hw ⊢
      have hmiss : ¬ a.hits w := fun hit => hname (h.names_of_hits List.mem_cons_self hit)
      rw [if_neg hmiss]
      exact ih h.tail hw

end Values

/-! ### With the free meaning -/

/-- A word that has the value of a column settles. -/
lemma settles_of_afterValue {as : List Assignment} {r : Ref} {w : List Char}
    (h : m.afterValue (free Ref) .leaf as w = some (.leaf r)) : m.Settles as r w := by
  induction as generalizing w with
  | nil =>
    rw [afterValue, value] at h
    obtain ⟨s, hs, hleaf⟩ := Option.map_eq_some_iff.1 h
    obtain rfl : s = r := Term.leaf.inj hleaf
    exact hs
  | cons a as ih =>
    rw [afterValue] at h
    rw [Settles]
    split_ifs at h ⊢ with hit
    · obtain ⟨y, hy, hval⟩ := Phrase.eval_free_eq_leaf.1 (Option.some.inj h)
      rw [hy]
      exact ih hval
    · exact ih h

/-- A word that gets its new value is current. -/
lemma current_of_afterValue {as : List Assignment} (h : m.Assigned as) {w : List Char}
    (hw : m.afterValue (free Ref) .leaf as w = m.newValue (free Ref) .leaf as w) :
    m.Current as w := by
  induction as with
  | nil => trivial
  | cons a as ih =>
    rw [afterValue, newValue] at hw
    rw [Current]
    by_cases hname : m.names_ a w
    · rw [if_pos hname] at hw ⊢
      by_cases hit : a.hits w
      · rw [if_pos hit] at hw ⊢
        have hwords := Phrase.eval_free_inj
          (fun x _ => afterValue_isSome h.tail x) (Option.some.inj hw)
        intro x hx r hr
        refine settles_of_afterValue ?_
        rw [hwords x hx, value, hr]
        rfl
      · rw [if_neg hit, afterValue_of_not_names h.tail (h.not_names_of_names hname), value,
          hname] at hw
        rw [if_neg hit]
        obtain ⟨y, hy, hval⟩ := Phrase.eval_free_eq_leaf.1 (Option.some.inj hw).symm
        obtain ⟨s, hs, hleaf⟩ := Option.map_eq_some_iff.1 hval
        obtain rfl := Term.leaf.inj hleaf
        rw [hy, Option.bind_some, hs]
        exact hname.symm
    · have hmiss : ¬ a.hits w := fun hit => hname (h.names_of_hits List.mem_cons_self hit)
      rw [if_neg hname, if_neg hmiss] at hw
      rw [if_neg hname]
      exact ih h.tail hw

/-- **The rewritten condition has the right value**, on every row and for every meaning, exactly if
all its words become their new values. -/
theorem eval_rewritten_iff {as : List Assignment} (h : m.Assigned as) (p : Phrase) :
    (∀ (V : Type) (M : Meaning V) (row : Ref → V),
      (rewritten as p).eval M (m.value row) = p.eval M (m.newValue M row as)) ↔
      ∀ w ∈ p.words, m.Current as w := by
  constructor
  · intro heval w hw
    have hfree := heval (Term Ref) (free Ref) .leaf
    rw [eval_rewritten] at hfree
    refine current_of_afterValue h (Phrase.eval_free_inj (fun x _ => ?_) hfree w hw)
    rw [afterValue_isSome h, newValue_isSome]
  · intro hcur V M row
    rw [eval_rewritten]
    exact Phrase.eval_congr fun w hw => afterValue_of_current h (hcur w hw)

end Merge

end DbSaci
