import DbSaci.Library.Scanner
import Mathlib.Data.List.Infix

set_option relaxedAutoImplicit false
set_option autoImplicit false

/-!
# Separators

A text that is cut wherever a separator stands, from left to right.

## Main definitions

* `Separator.cut` — the parts of a text.
* `Separator.Passes` — no separator starts in a text when it is followed by another one.

## Main results

* `Separator.intercalate_cut` — the parts with the separator between them are the text.
* `Separator.not_infix_of_mem_cut` — there is no separator in a part.
* `Separator.cut_append` — a text in front of a separator is a part if no separator starts in it.
-/

namespace Separator

variable {α : Type} (sep : List α)

/-- No separator starts in a text when it is followed by another one. -/
def Passes (x y : List α) : Prop := ∀ a b, x = a ++ b → b ≠ [] → ¬ sep <+: b ++ y

variable {sep} {c : α} {s x y : List α}

lemma Passes.tail (h : Passes sep (c :: x) y) : Passes sep x y := fun a b hab hb =>
  h (c :: a) b (congrArg (c :: ·) hab) hb

/-- What is no part of a separator keeps the text in front of it apart from one behind it. -/
lemma passes_of_not_mem {d : α} (hd : d ∉ sep) (hx : ¬ sep <:+: x) (y : List α) :
    Passes sep (x ++ [d]) y := by
  intro a b hab hb hsep
  obtain ⟨b, rfl⟩ : ∃ b', b = b' ++ [d] := by
    obtain ⟨b', e, rfl⟩ := List.eq_nil_or_concat b |>.resolve_left hb
    rw [List.concat_eq_append, ← List.append_assoc] at hab
    exact ⟨b', by rw [List.concat_eq_append, (List.append_inj_right' hab rfl)]⟩
  rw [← List.append_assoc] at hab
  obtain rfl : x = a ++ b := List.append_inj_left' hab rfl
  rcases Nat.lt_or_ge b.length sep.length with hlt | hge
  · -- the separator would go over what is no part of it
    have hpre : b ++ [d] <+: sep := by
      refine List.prefix_of_prefix_length_le (List.prefix_append _ y) hsep ?_
      rw [List.length_append]
      exact hlt
    exact hd (hpre.subset (List.mem_append_right b (List.mem_singleton_self d)))
  · rw [List.append_assoc] at hsep
    have hpre : sep <+: b :=
      List.prefix_of_prefix_length_le hsep (List.prefix_append b _) hge
    exact hx (hpre.isInfix.trans (List.suffix_append a b).isInfix)

lemma intercalate_cons {p : List α} {ps : List (List α)} (h : ps ≠ []) :
    sep.intercalate (p :: ps) = p ++ (sep ++ sep.intercalate ps) := by
  obtain ⟨q, qs, rfl⟩ := List.exists_cons_of_ne_nil h
  simp [List.intercalate]

/-! ### The parts of a text -/

variable [DecidableEq α] (sep)

/-- The parts of a text behind so many elements. -/
def cutFrom : ℕ → List α → List (List α)
  | _, [] => [[]]
  | k + 1, _ :: s => cutFrom k s
  | 0, c :: s =>
    if sep <+: c :: s then [] :: cutFrom (sep.length - 1) s
    else (cutFrom 0 s).modifyHead (c :: ·)

/-- The parts of a text. -/
def cut (s : List α) : List (List α) := cutFrom sep 0 s

variable {sep}

@[simp] lemma cut_nil : cut sep [] = [[]] := rfl

lemma cutFrom_eq_cut (k : ℕ) (s : List α) : cutFrom sep k s = cut sep (s.drop k) := by
  induction s generalizing k with
  | nil => cases k <;> rfl
  | cons c s ih =>
    cases k with
    | zero => rfl
    | succ k => exact ih k

lemma cut_here (hne : sep ≠ []) (h : sep <+: s) :
    cut sep s = [] :: cut sep (s.drop sep.length) := by
  cases s with
  | nil => exact absurd (List.prefix_nil.1 h) hne
  | cons c s =>
    obtain ⟨n, hn⟩ := Nat.exists_eq_succ_of_ne_zero (mt List.length_eq_zero_iff.1 hne)
    rw [cut, cutFrom, if_pos h, cutFrom_eq_cut, hn]
    rfl

lemma cut_later (h : ¬ sep <+: c :: s) :
    cut sep (c :: s) = (cut sep s).modifyHead (c :: ·) := if_neg h

lemma cut_ne_nil (sep s : List α) : cut sep s ≠ [] := by
  induction s with
  | nil => exact List.cons_ne_nil _ _
  | cons c s ih =>
    rw [cut, cutFrom]
    split_ifs
    · exact List.cons_ne_nil _ _
    · obtain ⟨p, ps, hps⟩ := List.exists_cons_of_ne_nil ih
      rw [show cutFrom sep 0 s = p :: ps from hps]
      exact List.cons_ne_nil _ _

/-- **The parts with the separator between them are the text.** -/
theorem intercalate_cut (hne : sep ≠ []) (s : List α) : sep.intercalate (cut sep s) = s := by
  induction s using scan_induction with
  | nil => simp [List.intercalate]
  | cons c s ih =>
    by_cases h : sep <+: c :: s
    · obtain ⟨n, hn⟩ := Nat.exists_eq_succ_of_ne_zero (mt List.length_eq_zero_iff.1 hne)
      have hrest := List.prefix_iff_eq_append.1 h
      rw [hn, List.drop_succ_cons] at hrest
      rw [cut_here hne h, intercalate_cons (cut_ne_nil sep _), List.nil_append, hn,
        List.drop_succ_cons, ih n, hrest]
    · obtain ⟨p, ps, hps⟩ := List.exists_cons_of_ne_nil (cut_ne_nil sep s)
      have hs := ih 0
      rw [List.drop_zero, hps] at hs
      rw [cut_later h, hps, List.modifyHead_cons]
      cases ps with
      | nil => simpa [List.intercalate] using hs
      | cons q qs =>
        rw [intercalate_cons (List.cons_ne_nil _ _)] at hs ⊢
        rw [List.cons_append, hs]

/-- **There is no separator in a part.** -/
theorem not_infix_of_mem_cut (hne : sep ≠ []) (h : x ∈ cut sep s) : ¬ sep <:+: x := by
  induction s using scan_induction generalizing x with
  | nil =>
    obtain rfl := List.mem_singleton.1 h
    exact fun hx => hne (List.infix_nil.1 hx)
  | cons c s ih =>
    by_cases hp : sep <+: c :: s
    · rw [cut_here hne hp] at h
      obtain ⟨n, hn⟩ := Nat.exists_eq_succ_of_ne_zero (mt List.length_eq_zero_iff.1 hne)
      rcases List.mem_cons.1 h with rfl | h
      · exact fun hx => hne (List.infix_nil.1 hx)
      · rw [hn, List.drop_succ_cons] at h
        exact ih n h
    · obtain ⟨p, ps, hps⟩ := List.exists_cons_of_ne_nil (cut_ne_nil sep s)
      have hmem : ∀ q ∈ p :: ps, ¬ sep <:+: q := fun q hq =>
        ih 0 (x := q) (by rwa [List.drop_zero, hps])
      rw [cut_later hp, hps, List.modifyHead_cons] at h
      rcases List.mem_cons.1 h with rfl | h
      · -- the part starts the text, so that a separator would stand at the start of both
        have hstart : p <+: s := by
          have hs := intercalate_cut hne s
          rw [hps] at hs
          cases ps with
          | nil => exact ⟨[], by simpa [List.intercalate] using hs⟩
          | cons q qs =>
            rw [intercalate_cons (List.cons_ne_nil _ _)] at hs
            exact ⟨_, hs⟩
        rw [List.infix_cons_iff, not_or]
        exact ⟨fun hpre => hp (hpre.trans (List.cons_prefix_cons.2 ⟨rfl, hstart⟩)),
          hmem p List.mem_cons_self⟩
      · exact hmem x (List.mem_cons_of_mem _ h)

/-! ### Texts in front of a separator -/

/-- A text in which no separator starts is part of the first part. -/
lemma cut_of_passes (h : Passes sep x y) :
    cut sep (x ++ y) = (cut sep y).modifyHead (x ++ ·) := by
  induction x with
  | nil =>
    rw [List.nil_append]
    cases hcut : cut sep y <;> rfl
  | cons c x ih =>
    have hc : ¬ sep <+: c :: (x ++ y) := h [] (c :: x) rfl (List.cons_ne_nil _ _)
    rw [List.cons_append, cut_later hc, ih h.tail, List.modifyHead_modifyHead]
    rfl

/-- **A text in front of a separator** is a part if no separator starts in it. -/
theorem cut_append (hne : sep ≠ []) (h : Passes sep x (sep ++ y)) :
    cut sep (x ++ (sep ++ y)) = x :: cut sep y := by
  rw [cut_of_passes h, cut_here hne (List.prefix_append _ _), List.drop_left,
    List.modifyHead_cons, List.append_nil]

/-- A text without a separator is one part. -/
lemma cut_of_not_infix (h : ¬ sep <:+: x) : cut sep x = [x] := by
  have hpass : Passes sep x [] := by
    rintro a b rfl - hb
    rw [List.append_nil] at hb
    exact h (hb.isInfix.trans (List.suffix_append a b).isInfix)
  have hcut := cut_of_passes hpass
  rwa [List.append_nil, cut_nil, List.modifyHead_cons, List.append_nil] at hcut

end Separator
