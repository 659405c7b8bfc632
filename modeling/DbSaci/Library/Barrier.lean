import DbSaci.Library.Text

set_option relaxedAutoImplicit false
set_option autoImplicit false

/-!
# Barriers

A pattern does not reach over a character that it does not hold. Where such a character stands in a
text, the pattern occurs on one side of it.

## Main results

* `prefix_barrier`, `infix_barrier` — where the pattern occurs.
* `find_barrier` — where it is found.
* `find_isSome_iff`, `rfind_eq_none_iff` — that it is found.
* `cutAt_barrier_iff` — when a text is read up to the pattern behind it.
-/

namespace Text

variable {c : Char} {p : List Char}

/-- A pattern at the start of a text ends in front of a barrier. -/
lemma prefix_barrier (hc : c ∉ p) (x y : List Char) : p <+: x ++ c :: y ↔ p <+: x := by
  constructor
  · intro h
    rcases Nat.lt_or_ge x.length p.length with hlt | hge
    · have hbar : x ++ [c] <+: x ++ c :: y :=
        (List.prefix_append_right_inj x).2 (List.prefix_append [c] y)
      have hlen : (x ++ [c]).length ≤ p.length := by
        rw [List.length_append, List.length_singleton]
        omega
      have hp : x ++ [c] <+: p := List.prefix_of_prefix_length_le hbar h hlen
      exact absurd (hp.subset (by simp)) hc
    · exact List.prefix_of_prefix_length_le h (List.prefix_append x _) hge
  · intro h
    exact h.trans (List.prefix_append x _)

/-- **A pattern occurs on one side of a barrier.** -/
theorem infix_barrier (hc : c ∉ p) (hne : p ≠ []) (x y : List Char) :
    p <:+: x ++ c :: y ↔ p <:+: x ∨ p <:+: y := by
  have hbar : ¬ p <+: c :: y := by
    intro h
    have hnil := (prefix_barrier hc [] y).1 h
    exact hne (List.prefix_nil.1 hnil)
  induction x with
  | nil =>
    rw [List.nil_append, List.infix_cons_iff, or_iff_right hbar, List.infix_nil,
      or_iff_right hne]
  | cons a x ih =>
    have hp := prefix_barrier hc (a :: x) y
    rw [List.cons_append] at hp
    rw [List.cons_append, List.infix_cons_iff, List.infix_cons_iff, hp, or_assoc]
    exact or_congr_right ih

/-- **Where a pattern is found**: in front of a barrier, or behind it. -/
theorem find_barrier (hc : c ∉ p) (hne : p ≠ []) (x y : List Char) :
    find p (x ++ c :: y) = (find p x).or ((find p y).map (· + (x.length + 1))) := by
  induction x with
  | nil =>
    have hbar : ¬ p.isPrefixOf (c :: y) = true := by
      intro h
      have hnil := (prefix_barrier hc [] y).1 (List.isPrefixOf_iff_prefix.1 h)
      exact hne (List.prefix_nil.1 hnil)
    have hnil : find p [] = none := by
      rw [find, if_neg]
      rw [List.isEmpty_iff]
      exact hne
    have hcons : find p (c :: y) = (find p y).map (· + 1) := by
      rw [find, if_neg hbar]
    rw [List.nil_append, hcons, hnil]
    rfl
  | cons a x ih =>
    have hp := prefix_barrier hc (a :: x) y
    rw [List.cons_append] at hp
    rw [List.cons_append, find, find, ih]
    by_cases h : p <+: a :: x
    · rw [if_pos (List.isPrefixOf_iff_prefix.2 (hp.2 h)), if_pos (List.isPrefixOf_iff_prefix.2 h),
        Option.some_or]
    · rw [if_neg fun hb => h (hp.1 (List.isPrefixOf_iff_prefix.1 hb)),
        if_neg fun hb => h (List.isPrefixOf_iff_prefix.1 hb)]
      cases find p x with
      | some i => rfl
      | none =>
        rw [Option.none_or, Option.map_none, Option.none_or, Option.map_map]
        rfl

/-- A pattern is found if and only if it occurs. -/
lemma find_isSome_iff {s : List Char} : (find p s).isSome = true ↔ p <:+: s := by
  induction s with
  | nil =>
    rw [find, List.infix_nil]
    split_ifs with h
    · exact iff_of_true rfl (List.isEmpty_iff.1 h)
    · exact iff_of_false Bool.false_ne_true fun hnil => h (List.isEmpty_iff.2 hnil)
  | cons c s ih =>
    rw [find, List.infix_cons_iff, ← ih]
    split_ifs with h
    · exact iff_of_true rfl (Or.inl (List.isPrefixOf_iff_prefix.1 h))
    · rw [Option.isSome_map, or_iff_right fun hpre => h (List.isPrefixOf_iff_prefix.2 hpre)]

/-- A pattern is not found from behind if and only if it does not occur. -/
lemma rfind_eq_none_iff (hne : p ≠ []) {s : List Char} : rfind p s = none ↔ ¬ p <:+: s := by
  induction s with
  | nil =>
    rw [rfind, if_neg fun h => hne (List.isEmpty_iff.1 h), List.infix_nil]
    exact iff_of_true rfl hne
  | cons c s ih =>
    rw [rfind, List.infix_cons_iff, not_or, ← ih]
    cases rfind p s with
    | some n => simp
    | none =>
      show (if p.isPrefixOf (c :: s) = true then some 0 else none) = none ↔ _
      rw [← List.isPrefixOf_iff_prefix]
      split_ifs with h
      · simp [h]
      · simp [h]

/-- Where a pattern is found, it stands. -/
lemma prefix_of_rfind {p s : List Char} {n : ℕ} (h : rfind p s = some n) : p <+: s.drop n := by
  induction s generalizing n with
  | nil =>
    rw [rfind] at h
    split_ifs at h with hp
    rw [List.isEmpty_iff.1 hp]
    exact List.nil_prefix
  | cons c s ih =>
    rw [rfind] at h
    cases hs : rfind p s with
    | some m =>
      rw [hs] at h
      obtain rfl := Option.some.inj h
      exact ih hs
    | none =>
      rw [hs] at h
      simp only at h
      split_ifs at h with hp
      obtain rfl := Option.some.inj h
      exact List.isPrefixOf_iff_prefix.1 hp

/-- The text in front of a pattern, and the text behind it. -/
def cutAt (p s : List Char) : Option (List Char × List Char) :=
  (find p s).map fun i => (s.take i, s.drop (i + p.length))

/-- **A text between barriers is read up to the pattern behind it** if and only if the pattern does
not occur in it. -/
theorem cutAt_barrier_iff (hc : c ∉ p) (hne : p ≠ []) {x front tail : List Char}
    (hfront : find p (front ++ (p ++ tail)) = some front.length) :
    cutAt p (c :: (x ++ c :: (front ++ (p ++ tail)))) = some (c :: (x ++ c :: front), tail) ↔
      ¬ p <:+: x := by
  have hnil : find p [] = none := by
    rw [find, if_neg fun hempty => hne (List.isEmpty_iff.1 hempty)]
  have hfind : find p (c :: (x ++ c :: (front ++ (p ++ tail)))) =
      ((find p x).or (some (front.length + (x.length + 1)))).map (· + 1) := by
    rw [← List.nil_append (c :: (x ++ c :: (front ++ (p ++ tail)))), find_barrier hc hne,
      find_barrier hc hne, hfront, hnil, Option.none_or, Option.map_some]
    rfl
  rw [cutAt, hfind, ← find_isSome_iff, Option.map_map]
  cases hx : find p x with
  | some i =>
    refine iff_of_false (fun hread => ?_) fun hno => hno rfl
    have hshort := ((find_eq_some_iff x [] i).1 hx).2
    have hlen := congrArg (fun y => y.1.length) (Option.some.inj hread)
    simp only [Function.comp_apply, List.length_take, List.length_cons, List.length_append] at hlen
    omega
  | none =>
    refine iff_of_true ?_ (by simp)
    have hsplit : c :: (x ++ c :: (front ++ (p ++ tail))) =
        c :: (x ++ c :: front) ++ (p ++ tail) := by simp
    have hlen : front.length + (x.length + 1) + 1 = (c :: (x ++ c :: front)).length := by
      simp only [List.length_cons, List.length_append]
      omega
    rw [hsplit, Option.none_or, Option.map_some]
    simp only [Function.comp_apply, hlen, List.take_left]
    rw [← List.drop_drop, List.drop_left, List.drop_left]

/-- White space in front does not reach over a barrier. -/
lemma trimStart_barrier (hc : isSpace c = false) (x y : List Char) :
    trimStart (x ++ c :: y) = trimStart x ++ c :: y := by
  induction x with
  | nil => exact trimStart_of_head hc y
  | cons a x ih =>
    cases ha : isSpace a with
    | true =>
      have hdrop : ∀ s, trimStart (a :: s) = trimStart s := fun s => List.dropWhile_cons_of_pos ha
      rw [List.cons_append, hdrop, hdrop, ih]
    | false => rw [List.cons_append, trimStart_of_head ha, trimStart_of_head ha, List.cons_append]

/-- White space behind does not reach over a barrier. -/
lemma trimEnd_barrier (hc : isSpace c = false) (x y : List Char) :
    trimEnd (x ++ c :: y) = x ++ c :: trimEnd y := by
  have hrev : (x ++ c :: y).reverse = y.reverse ++ c :: x.reverse := by simp
  have hdrop := trimStart_barrier hc y.reverse x.reverse
  rw [trimStart] at hdrop
  rw [trimEnd, trimEnd, List.rdropWhile, List.rdropWhile, hrev, hdrop]
  simp [trimStart]

end Text
