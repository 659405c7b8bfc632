import DbSaci.Translate.MergeText
import DbSaci.Sql.Merge

set_option relaxedAutoImplicit false
set_option autoImplicit false

/-!
# Removing the target alias

Every occurrence of the alias and a dot behind the first `SET` is removed. Of a list of assignments
and what stands behind it exactly the qualifiers of the left-hand sides are removed if the alias
and a dot occur nowhere else.

## Main results

* `length_removeAll` — each occurrence makes the text shorter by the length of the pattern.
* `removeAll_assignmentsText` — only the qualifiers are removed exactly if there is no other
  occurrence.
-/

namespace DbSaci.Translate

open Text

/-! ### Occurrences -/

section Remove

variable {needle x y : List Char}

lemma removeAll_quiet (h : Quiet (upper needle) x y) :
    removeAll needle 0 (x ++ y) = x ++ removeAll needle 0 y := by
  induction x with
  | nil => rfl
  | cons c x ih =>
    rw [List.cons_append, removeAll, if_neg (Bool.eq_false_iff.1 h.1), ih h.2]
    rfl

lemma removeAll_skip (x y : List Char) : removeAll needle x.length (x ++ y) =
    removeAll needle 0 y := by
  induction x with
  | nil => rfl
  | cons c x ih => rw [List.length_cons, List.cons_append, removeAll, ih]

/-- A pattern that has a dot at its end alone does not start again before its dot. -/
lemma quiet_before_dot {name : List Char} (hname : ∀ c ∈ name, c ≠ '.') (t y : List Char)
    (ht : t.length < name.length) : Quiet (upper (name ++ ['.'])) (t ++ ['.']) y := by
  have hmiss : ∀ t : List Char, t.length < name.length →
      startsWith (upper (name ++ ['.'])) (t ++ '.' :: y) = false := by
    intro t ht
    rw [← Bool.not_eq_true, startsWith, List.isPrefixOf_iff_prefix, upper_append, upper_append]
    intro h
    have htext : upper t ++ ['.'] <+: upper t ++ upper ('.' :: y) := by
      rw [List.prefix_append_right_inj]
      exact List.prefix_append ['.'] (upper y)
    have hpre : upper t ++ ['.'] <+: upper name := by
      refine List.prefix_of_prefix_length_le (htext.trans (List.prefix_refl _))
        ((List.prefix_append _ _).trans h) ?_
      simp only [List.length_append, length_upper, List.length_singleton]
      omega
    have hdot : '.' ∈ upper name := hpre.subset (by simp)
    exact hname '.' (mem_of_mem_upper rfl hdot) rfl
  induction t with
  | nil => exact ⟨hmiss [] ht, trivial⟩
  | cons c t ih =>
    refine ⟨?_, ih (Nat.lt_of_succ_lt ht)⟩
    have := hmiss (c :: t) ht
    simpa using this

variable (hname : ∀ c ∈ x, c ≠ '.') (hne : x ≠ []) {name : List Char} (hx : upper x = upper name)

include hname hne hx in
/-- An occurrence is removed, and counts once. -/
lemma remove_name (y : List Char) :
    removeAll (name ++ ['.']) 0 (x ++ '.' :: y) = removeAll (name ++ ['.']) 0 y ∧
    occurrences (upper (name ++ ['.'])) (x ++ '.' :: y) =
      occurrences (upper (name ++ ['.'])) y + 1 := by
  have hlen : x.length = name.length := by
    rw [← length_upper x, hx, length_upper]
  have hup : upper (name ++ ['.']) = upper (x ++ ['.']) := by
    rw [upper_append, upper_append, hx]
  have hstart : startsWith (upper (name ++ ['.'])) (x ++ '.' :: y) = true := by
    rw [hup, startsWith, List.isPrefixOf_iff_prefix, show x ++ '.' :: y = x ++ ['.'] ++ y by simp,
      upper_append (x ++ ['.'])]
    exact List.prefix_append _ _
  cases x with
  | nil => exact absurd rfl hne
  | cons c x =>
    rw [List.cons_append] at hstart ⊢
    have htext : x ++ '.' :: y = x ++ ['.'] ++ y := by simp
    constructor
    · have hskip : (name ++ ['.']).length - 1 = (x ++ ['.']).length := by
        simp only [List.length_append, ← hlen, List.length_cons]
        omega
      rw [removeAll, if_pos hstart, hskip, htext, removeAll_skip]
    · have hquiet : Quiet (upper (name ++ ['.'])) (x ++ ['.']) y := by
        rw [hup]
        exact quiet_before_dot hname x y (Nat.lt_succ_self _)
      rw [occurrences, if_pos hstart, htext, occurrences_quiet hquiet, Nat.add_comm]

end Remove

/-- A text that starts with a name and a dot, in any letter case. -/
lemma exists_name {name s : List Char} (hname : Name name)
    (h : startsWith (upper (name ++ ['.'])) s = true) :
    ∃ x y, s = x ++ '.' :: y ∧ x ≠ [] ∧ upper x = upper name ∧ ∀ c ∈ x, c ≠ '.' := by
  rw [startsWith, List.isPrefixOf_iff_prefix, upper_append] at h
  obtain ⟨r, hr⟩ := h
  rw [List.append_assoc] at hr
  obtain ⟨x, t, rfl, hx, ht⟩ := List.map_eq_append_iff.1 hr.symm
  obtain ⟨d, y, rfl, hd, -⟩ := List.map_eq_cons_iff.1 ht
  obtain rfl : '.' = d := by
    have hmem : '.' ∈ upper [d] := by simp [upper, hd]
    exact List.mem_singleton.1 (mem_of_mem_upper rfl hmem)
  refine ⟨x, y, rfl, ?_, hx, ?_⟩
  · rintro rfl
    exact hname.1 (List.map_eq_nil_iff.1 hx.symm)
  · rintro c hc rfl
    have hmem : '.' ∈ upper name := by
      rw [← hx]
      exact List.mem_map_of_mem hc
    exact (hname.2 '.' (mem_of_mem_upper rfl hmem)).2.1 rfl

/-- **Each occurrence makes the text shorter** by the length of the pattern. -/
theorem length_removeAll {name : List Char} (hname : Name name) (s : List Char) :
    (removeAll (name ++ ['.']) 0 s).length +
      (name.length + 1) * occurrences (upper (name ++ ['.'])) s = s.length := by
  induction hn : s.length using Nat.strong_induction_on generalizing s with
  | _ n ih =>
    subst hn
    cases s with
    | nil => rfl
    | cons c s =>
      by_cases hstart : startsWith (upper (name ++ ['.'])) (c :: s) = true
      · -- the text starts with the alias and a dot
        obtain ⟨x, y, hs, hne, hx, hdot⟩ := exists_name hname hstart
        obtain ⟨hremove, hcount⟩ := remove_name hdot hne hx y
        have hlen : x.length = name.length := by rw [← length_upper x, hx, length_upper]
        have hshort : y.length < (c :: s).length := by
          rw [hs, List.length_append, List.length_cons]
          omega
        have := ih y.length hshort y rfl
        rw [hs, hremove, hcount, List.length_append, List.length_cons, Nat.mul_add]
        omega
      · have := ih s.length (Nat.lt_succ_self _) s rfl
        rw [removeAll, if_neg hstart, occurrences, if_neg hstart, Nat.zero_add, List.length_cons,
          List.length_cons]
        omega

/-! ### Assignments -/

/-- How many assignments have a qualified left-hand side. -/
def qualifiedCount (as : List Assignment) : ℕ := as.countP fun a => a.qualifier.isSome

lemma assignmentsText_cons (a : Assignment) (as : List Assignment) (rest : List Char) :
    ∃ mid, assignmentsText (a :: as) rest = a.lhs ++ (mid ++ assignmentsText as rest) ∧
      assignmentsText ((a :: as).map Assignment.unqualified) rest =
        a.col ++ (mid ++ assignmentsText (as.map Assignment.unqualified) rest) := by
  cases as with
  | nil =>
    exact ⟨" = ".toList ++ a.rhs.text, by simp [assignmentsText, Assignment.text],
      by simp [assignmentsText, Assignment.text, Assignment.unqualified, Assignment.lhs]⟩
  | cons b as =>
    exact ⟨" = ".toList ++ (a.rhs.text ++ ", ".toList),
      by simp [assignmentsText, Assignment.text],
      by simp [assignmentsText, Assignment.text, Assignment.unqualified, Assignment.lhs]⟩

section Assignments

variable {name : List Char} (hname : Name name)

/-- The assignments of a statement with this alias. -/
def QualifiedBy (name : List Char) (as : List Assignment) : Prop :=
  ∀ a ∈ as, ∀ q ∈ a.qualifier, Name q ∧ upper q = upper name

lemma QualifiedBy.tail {a : Assignment} {as : List Assignment} (h : QualifiedBy name (a :: as)) :
    QualifiedBy name as := fun b hb => h b (List.mem_cons_of_mem _ hb)

/-- Only the qualifiers are removed if there is no other occurrence. -/
lemma removeAll_of_occurrences {as : List Assignment} (has : QualifiedBy name as)
    {rest : List Char}
    (hle : occurrences (upper (name ++ ['.'])) (assignmentsText as rest) ≤ qualifiedCount as) :
    occurrences (upper (name ++ ['.'])) (assignmentsText as rest) = qualifiedCount as ∧
    removeAll (name ++ ['.']) 0 (assignmentsText as rest) =
      assignmentsText (as.map Assignment.unqualified) rest := by
  induction as with
  | nil =>
    have hzero : occurrences (upper (name ++ ['.'])) rest = 0 := Nat.le_zero.1 hle
    have hquiet : Quiet (upper (name ++ ['.'])) rest [] := by
      refine quiet_of_occurrences_le ?_
      rw [List.append_nil, hzero]
      exact Nat.zero_le _
    have hremove := removeAll_quiet hquiet
    rw [List.append_nil] at hremove
    exact ⟨hzero, hremove.trans (List.append_nil rest)⟩
  | cons a as ih =>
    obtain ⟨mid, htext, hunq⟩ := assignmentsText_cons a as rest
    have hmid : ∀ y, a.col ++ (mid ++ y) = (a.col ++ mid) ++ y := fun y => by simp
    rw [htext] at hle ⊢
    rw [hunq, hmid]
    cases hq : a.qualifier with
    | none =>
      have hcount : qualifiedCount (a :: as) = qualifiedCount as :=
        List.countP_cons_of_neg (by simp [hq])
      rw [Assignment.lhs, hq, Option.elim_none, hmid, hcount] at hle ⊢
      have hsub := (occurrences_le_append _ (a.col ++ mid) (assignmentsText as rest)).trans hle
      obtain ⟨hocc, hremove⟩ := ih has.tail hsub
      have hquiet := quiet_of_occurrences_le (hle.trans hocc.ge)
      rw [occurrences_quiet hquiet, removeAll_quiet hquiet, hremove]
      exact ⟨hocc, rfl⟩
    | some q =>
      obtain ⟨⟨hqne, hqword⟩, hqup⟩ := has a List.mem_cons_self q hq
      have hcount : qualifiedCount (a :: as) = qualifiedCount as + 1 :=
        List.countP_cons_of_pos (by simp [hq])
      obtain ⟨hremove, hocc⟩ := remove_name (fun c hc => (hqword c hc).2.1) hqne hqup
        ((a.col ++ mid) ++ assignmentsText as rest)
      rw [Assignment.lhs, hq, Option.elim_some, List.append_assoc, List.cons_append, hmid,
        hocc, hcount] at hle ⊢
      rw [hremove]
      have hle := Nat.le_of_succ_le_succ hle
      have hsub := (occurrences_le_append _ (a.col ++ mid) (assignmentsText as rest)).trans hle
      obtain ⟨hocc, hremove⟩ := ih has.tail hsub
      have hquiet := quiet_of_occurrences_le (hle.trans hocc.ge)
      rw [occurrences_quiet hquiet, removeAll_quiet hquiet, hremove, hocc]
      exact ⟨rfl, rfl⟩

/-- Each qualifier makes the text longer by the length of the alias and a dot. -/
lemma length_assignmentsText {as : List Assignment} (has : QualifiedBy name as)
    (rest : List Char) :
    (assignmentsText as rest).length =
      (assignmentsText (as.map Assignment.unqualified) rest).length +
        (name.length + 1) * qualifiedCount as := by
  induction as with
  | nil => rfl
  | cons a as ih =>
    obtain ⟨mid, htext, hunq⟩ := assignmentsText_cons a as rest
    have ih := ih has.tail
    rw [htext, hunq]
    simp only [List.length_append]
    cases hq : a.qualifier with
    | none =>
      have hcount : qualifiedCount (a :: as) = qualifiedCount as :=
        List.countP_cons_of_neg (by simp [hq])
      rw [Assignment.lhs, hq, Option.elim_none, hcount]
      omega
    | some q =>
      have hlen : q.length = name.length := by
        rw [← length_upper q, (has a List.mem_cons_self q hq).2, length_upper]
      have hcount : qualifiedCount (a :: as) = qualifiedCount as + 1 :=
        List.countP_cons_of_pos (by simp [hq])
      rw [Assignment.lhs, hq, Option.elim_some, hcount, List.length_append, List.length_cons,
        Nat.mul_add]
      omega

include hname in
/-- **Only the qualifiers are removed** exactly if there is no other occurrence. -/
theorem removeAll_assignmentsText {as : List Assignment} (has : QualifiedBy name as)
    (rest : List Char) :
    removeAll (name ++ ['.']) 0 (assignmentsText as rest) =
        assignmentsText (as.map Assignment.unqualified) rest ↔
      occurrences (upper (name ++ ['.'])) (assignmentsText as rest) = qualifiedCount as := by
  constructor
  · intro h
    have hremove := length_removeAll hname (assignmentsText as rest)
    have hlen := length_assignmentsText has rest
    rw [h] at hremove
    have hmul : (name.length + 1) * occurrences (upper (name ++ ['.'])) (assignmentsText as rest) =
        (name.length + 1) * qualifiedCount as := by omega
    exact Nat.eq_of_mul_eq_mul_left (Nat.succ_pos _) hmul
  · exact fun h => (removeAll_of_occurrences has h.le).2

end Assignments

end DbSaci.Translate
