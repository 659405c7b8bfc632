import DbSaci.Library.Fronts

set_option relaxedAutoImplicit false
set_option autoImplicit false

/-!
# Traced removals

A pass that removes a pattern from a text, on letters that carry more than the letter itself, so that
it can be told which ones are left.

## Main definitions

* `cutCi` — each occurrence of a pattern is removed.
* `Clear` — no occurrence of a pattern takes letters of some kind.

## Main results

* `map_cutCi` — on the letters alone it is `replaceCi`.
* `filter_cutLoop_iff` — when all letters of a kind are left.
-/

namespace Text

variable {α : Type} (letter : α → Char)

/-- The loop of a removal: so many letters are left out first. -/
def cutLoop (p : List Char) : ℕ → List α → List α
  | _, [] => []
  | skip + 1, _ :: s => cutLoop p skip s
  | 0, c :: s =>
    if startsWith p ((c :: s).map letter) = true then cutLoop p (p.length - 1) s
    else c :: cutLoop p 0 s

/-- Each occurrence of a pattern is removed, in any letter case. -/
def cutCi (p : List Char) (s : List α) : List α := cutLoop letter (upper p) 0 s

/-- No occurrence of a pattern takes letters of some kind. -/
def Clear (kind : α → Bool) (p : List Char) (s : List α) : Prop :=
  ∀ u v, s = u ++ v → startsWith p (v.map letter) = true → ∀ c ∈ v.take p.length, kind c = false

section

variable {letter} {kind : α → Bool} {p : List Char} {s t x : List α} {c : α}

lemma map_cutLoop (p : List Char) (n : ℕ) (s : List α) :
    (cutLoop letter p n s).map letter =
      replaceLoop (startsWith p) p.length [] n (s.map letter) := by
  induction s generalizing n with
  | nil => cases n <;> rfl
  | cons c s ih =>
    cases n with
    | succ n => exact ih n
    | zero =>
      rw [cutLoop, List.map_cons, replaceLoop]
      by_cases hit : startsWith p (letter c :: s.map letter) = true
      · rw [if_pos hit, if_pos hit, List.nil_append, ih]
      · rw [if_neg hit, if_neg hit, List.map_cons, ih]

/-- **On the letters alone it is a replacement** by nothing. -/
theorem map_cutCi (p : List Char) (s : List α) :
    (cutCi letter p s).map letter = replaceCi p [] (s.map letter) := by
  rw [cutCi, map_cutLoop, length_upper, replaceCi]

lemma cutLoop_skip (p : List Char) (n : ℕ) (s : List α) :
    cutLoop letter p n s = cutLoop letter p 0 (s.drop n) := by
  induction s generalizing n with
  | nil =>
    rw [List.drop_nil]
    cases n <;> rfl
  | cons c s ih =>
    cases n with
    | zero => rfl
    | succ n => exact ih n

lemma Clear.mono (h : Clear letter kind p (x ++ s)) : Clear letter kind p s := by
  rintro u v rfl
  exact h (x ++ u) v (List.append_assoc x u v).symm

/-- The letter that a pattern starts with is one of the pattern. -/
lemma Clear.not_startsWith (h : Clear letter kind p (c :: s)) (hne : p ≠ [])
    (hc : kind c = true) : ¬ startsWith p ((c :: s).map letter) = true := by
  intro hit
  obtain ⟨d, q, rfl⟩ := List.exists_cons_of_ne_nil hne
  have hfalse := h [] (c :: s) rfl hit c (by simp)
  rw [hc] at hfalse
  cases hfalse

/-- A text without an occurrence is left. -/
lemma cutLoop_kept (h : Clear letter kind p (x ++ s)) (hne : p ≠ [])
    (hx : ∀ c ∈ x, kind c = true) :
    cutLoop letter p 0 (x ++ s) = x ++ cutLoop letter p 0 s := by
  induction x with
  | nil => rfl
  | cons c x ih =>
    have hrest : Clear letter kind p (x ++ s) := Clear.mono (x := [c]) h
    have hnot : ¬ startsWith p ((c :: (x ++ s)).map letter) = true :=
      Clear.not_startsWith h hne (hx c List.mem_cons_self)
    rw [List.cons_append, cutLoop, if_neg hnot,
      ih hrest fun d hd => hx d (List.mem_cons_of_mem c hd), List.cons_append]

/-- No occurrence starts with another letter. -/
lemma cutLoop_quiet {d : Char} {q : List Char} (hx : ∀ c ∈ x, (letter c).toUpper ≠ d) :
    cutLoop letter (d :: q) 0 (x ++ s) = x ++ cutLoop letter (d :: q) 0 s := by
  induction x with
  | nil => rfl
  | cons c x ih =>
    have hnot : ¬ startsWith (d :: q) ((c :: (x ++ s)).map letter) = true := by
      rw [startsWith, List.isPrefixOf_iff_prefix, List.map_cons, upper_cons]
      intro hpre
      exact hx c List.mem_cons_self (List.cons_prefix_cons.1 hpre).1.symm
    rw [List.cons_append, cutLoop, if_neg hnot, ih fun e he => hx e (List.mem_cons_of_mem c he),
      List.cons_append]

/-- An occurrence is removed. -/
lemma cutLoop_hit (hne : p ≠ []) (hx : upper (x.map letter) = p) :
    cutLoop letter p 0 (x ++ s) = cutLoop letter p 0 s := by
  cases x with
  | nil => exact absurd hx.symm hne
  | cons c x =>
    have hlen : p.length - 1 = x.length := by
      rw [← hx, length_upper, List.length_map, List.length_cons, Nat.add_sub_cancel]
    have hit : startsWith p ((c :: (x ++ s)).map letter) = true := by
      rw [← List.cons_append, List.map_append]
      exact startsWith_front hx
    rw [List.cons_append, cutLoop, if_pos hit, cutLoop_skip, hlen, List.drop_left]

/-! ### Letters that are left -/

lemma length_filter_cutLoop_le (kind : α → Bool) (p : List Char) (n : ℕ) (s : List α) :
    ((cutLoop letter p n s).filter kind).length ≤ (s.filter kind).length := by
  have hcons : ∀ (c : α) (s : List α), (s.filter kind).length ≤ ((c :: s).filter kind).length :=
    fun c s => ((List.sublist_cons_self c s).filter kind).length_le
  induction s generalizing n with
  | nil => cases n <;> exact Nat.le_refl _
  | cons c s ih =>
    cases n with
    | succ n => exact Nat.le_trans (ih n) (hcons c s)
    | zero =>
      rw [cutLoop]
      split_ifs with hit
      · exact Nat.le_trans (ih _) (hcons c s)
      · rw [List.filter_cons, List.filter_cons]
        have hle := ih 0
        split_ifs
        · exact Nat.succ_le_succ hle
        · exact hle

/-- An occurrence of a pattern whose first letter does not come again. -/
lemma startsWith_overlap {d : Char} {q : List Char} (hd : d ∉ q) {u v : List α}
    (hu : u ≠ []) (hlen : u.length ≤ q.length)
    (huv : startsWith (d :: q) ((u ++ v).map letter) = true) :
    ¬ startsWith (d :: q) (v.map letter) = true := by
  intro hv
  rw [startsWith, List.isPrefixOf_iff_prefix] at huv hv
  obtain ⟨c, u, rfl⟩ := List.exists_cons_of_ne_nil hu
  obtain ⟨e, v, rfl⟩ : ∃ e v', v = e :: v' := by
    cases v with
    | nil => exact absurd (List.prefix_nil.1 hv) (List.cons_ne_nil d q)
    | cons e v => exact ⟨e, v, rfl⟩
  have hhead := (List.cons_prefix_cons.1 hv).1
  rw [List.cons_append, List.map_cons, upper_cons, List.map_append, upper_append] at huv
  have hq := (List.cons_prefix_cons.1 huv).2
  rw [List.length_cons] at hlen
  have hpre : upper (u.map letter) ++ [d] <+: q := by
    refine List.prefix_of_prefix_length_le ?_ hq ?_
    · rw [List.map_cons, upper_cons, ← hhead]
      exact (List.prefix_append_right_inj _).2 (List.prefix_append [d] _)
    · simp
      omega
  exact hd (hpre.subset (by simp))

/-- **When all letters of a kind are left**: no occurrence takes one. -/
theorem filter_cutLoop_iff {d : Char} {q : List Char} (hd : d ∉ q) :
    ((cutLoop letter (d :: q) 0 s).filter kind).length = (s.filter kind).length ↔
      Clear letter kind (d :: q) s := by
  induction hk : s.length using Nat.strongRecOn generalizing s with
  | ind k ih =>
    cases s with
    | nil =>
      refine iff_of_true rfl fun u v huv hit => ?_
      obtain ⟨-, rfl⟩ := List.append_eq_nil_iff.1 huv.symm
      cases hit
    | cons c s =>
      rw [List.length_cons] at hk
      by_cases hit : startsWith (d :: q) ((c :: s).map letter) = true
      · -- the occurrence, and what comes behind it
        have hsplit : c :: s = (c :: s.take q.length) ++ s.drop q.length := by
          rw [List.cons_append, List.take_append_drop]
        have ih := ih (s.drop q.length).length (by rw [List.length_drop]; omega) rfl
        have hle : ((cutLoop letter (d :: q) 0 (s.drop q.length)).filter kind).length ≤
            ((s.drop q.length).filter kind).length := length_filter_cutLoop_le kind (d :: q) 0 _
        have hlength : ((c :: s).filter kind).length =
            ((c :: s.take q.length).filter kind).length +
              ((s.drop q.length).filter kind).length := by
          rw [← List.length_append, ← List.filter_append, ← hsplit]
        rw [cutLoop, if_pos hit, List.length_cons, Nat.add_sub_cancel, cutLoop_skip, hlength]
        have hempty : ((c :: s.take q.length).filter kind).length = 0 ↔
            ∀ e ∈ c :: s.take q.length, kind e = false := by
          rw [List.length_eq_zero_iff, List.filter_eq_nil_iff]
          simp only [Bool.not_eq_true]
        constructor
        · intro heq
          have hclear := ih.1 (by omega)
          have hnone := hempty.1 (by omega)
          intro u v huv hv
          by_cases hu : u = []
          · subst hu
            rw [List.nil_append] at huv
            rw [← huv, List.length_cons, List.take_succ_cons]
            exact hnone
          · rcases Nat.lt_or_ge q.length u.length with hlt | hge
            · rw [hsplit] at huv
              rcases List.append_eq_append_iff.1 huv with ⟨r, rfl, hr⟩ | ⟨r, hr, -⟩
              · exact hclear r v hr hv
              · have hlen := congrArg List.length hr
                rw [List.length_cons, List.length_take, List.length_append] at hlen
                have hr0 : r = [] := List.length_eq_zero_iff.1 (by omega)
                subst hr0
                rw [List.append_nil] at hr
                rw [hr] at huv
                exact hclear [] v (List.append_cancel_left huv) hv
            · rw [huv] at hit
              exact absurd hv (startsWith_overlap hd hu hge hit)
        · intro hclear
          have hnone : ∀ e ∈ c :: s.take q.length, kind e = false := by
            have hhere := hclear [] (c :: s) rfl hit
            rwa [List.length_cons, List.take_succ_cons] at hhere
          rw [hsplit] at hclear
          have hrest := ih.2 hclear.mono
          have hzero := hempty.2 hnone
          omega
      · have ih := ih s.length (by omega) rfl
        have hiff : Clear letter kind (d :: q) (c :: s) ↔ Clear letter kind (d :: q) s := by
          refine ⟨Clear.mono (x := [c]), fun hclear u v huv hv => ?_⟩
          cases u with
          | nil =>
            rw [List.nil_append] at huv
            rw [← huv] at hv
            exact absurd hv hit
          | cons e u => exact hclear u v (List.cons.inj huv).2 hv
        rw [cutLoop, if_neg hit, hiff, ← ih, List.filter_cons, List.filter_cons]
        split_ifs
        · rw [List.length_cons, List.length_cons, Nat.add_right_cancel_iff]
        · exact Iff.rfl

end

end Text
