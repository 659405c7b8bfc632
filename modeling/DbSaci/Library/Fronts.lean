import DbSaci.Library.Text

set_option relaxedAutoImplicit false
set_option autoImplicit false

/-!
# Fronts of texts

A pass over a text that replaces patterns leaves the front of the text as it is if no pattern starts
in it, whatever comes behind. It is then the same pass behind any white space.

## Main definitions

* `replaceAll`, `replaceCi` — all occurrences of a pattern are replaced.
* `truncateTail` — the text without its end.
* `Apart` — a pattern does not start in a text, whatever comes behind it.
* `Steady` — a pass leaves a front as it is, and white space in front of it.

## Main results

* `eq_or_of_toUpper` — the letters with one upper case.
* `quiet_front` — where a pattern does not start, and not in white space in front either.
* `Steady.comp`, `Steady.foldl` — passes in a row.
* `steady_replaceAll`, `steady_replaceCi`, `steady_truncateTail` — such passes.
-/

namespace Text

/-! ### Replacements -/

/-- The loop of a replacement: so many characters are left out first. -/
def replaceLoop (hit : List Char → Bool) (len : ℕ) (r : List Char) : ℕ → List Char → List Char
  | _, [] => []
  | skip + 1, _ :: s => replaceLoop hit len r skip s
  | 0, c :: s =>
    if hit (c :: s) = true then r ++ replaceLoop hit len r (len - 1) s
    else c :: replaceLoop hit len r 0 s

/-- Each occurrence of a pattern is replaced. -/
def replaceAll (p r s : List Char) : List Char := replaceLoop p.isPrefixOf p.length r 0 s

/-- Each occurrence of a pattern is replaced, in any letter case. -/
def replaceCi (p r s : List Char) : List Char := replaceLoop (startsWith (upper p)) p.length r 0 s

/-- The text without a pattern at its end. -/
def truncateTail (p s : List Char) : List Char :=
  if p.isSuffixOf s = true then s.take (s.length - p.length) else s

/-! ### Letter case -/

/-- The letters with one upper case. -/
lemma eq_or_of_toUpper {c d : Char} (h : c.toUpper = d) : c = d ∨ c = Char.ofNat (d.toNat + 32) := by
  by_cases hc : 'a'.val ≤ c.val ∧ c.val ≤ 'z'.val
  · right
    have hval : c.toUpper.val = c.val + ('A'.val - 'a'.val) := by
      delta Char.toUpper
      rw [dif_pos hc]
    obtain ⟨hlo, hhi⟩ := hc
    rw [UInt32.le_iff_toNat_le] at hlo hhi
    change 97 ≤ c.toNat at hlo
    change c.toNat ≤ 122 at hhi
    have hdiff : ('A'.val - 'a'.val).toNat = 4294967264 := rfl
    have hnat : d.toNat = c.toNat - 32 := by
      rw [← h, Char.toNat, hval, UInt32.toNat_add, hdiff]
      change (c.toNat + 4294967264) % 4294967296 = _
      omega
    have hback : c.toNat - 32 + 32 = c.toNat := by omega
    rw [hnat, hback, Char.ofNat_toNat]
  · left
    rw [← h]
    delta Char.toUpper
    rw [dif_neg hc]

/-! ### Bytes -/

/-- The lower case of an ASCII letter is one. -/
lemma utf8Size_of_toUpper {c : Char} (h : c.toUpper.utf8Size = 1) : c.utf8Size = 1 := by
  delta Char.toUpper at h
  split at h
  · rename_i hc
    have hle : c.val ≤ 0x7f := UInt32.le_trans hc.2 (by decide)
    simp [Char.utf8Size, hle]
  · exact h

/-- A text in ASCII has as many bytes as letters. -/
lemma byteLen_of_upper {s p : List Char} (hs : upper s = p) (hp : ∀ c ∈ p, c.utf8Size = 1) :
    byteLen s = p.length := by
  subst hs
  induction s with
  | nil => rfl
  | cons c s ih =>
    have hc := utf8Size_of_toUpper (hp c.toUpper List.mem_cons_self)
    have ih := ih fun d hd => hp d (List.mem_cons_of_mem _ hd)
    have hcons : byteLen (c :: s) = c.utf8Size + byteLen s := by simp [byteLen]
    rw [hcons, hc, ih, upper_cons, List.length_cons, Nat.add_comm]

/-- A text that is cut has so many bytes in front. -/
lemma splitAtByte_eq_some {n : ℕ} {s a b : List Char} (h : splitAtByte n s = some (a, b)) :
    s = a ++ b ∧ byteLen a = n := by
  induction s generalizing n a with
  | nil =>
    cases n with
    | zero =>
      obtain ⟨rfl, rfl⟩ := Prod.mk.inj (Option.some.inj h)
      exact ⟨rfl, rfl⟩
    | succ n => cases h
  | cons c s ih =>
    cases n with
    | zero =>
      obtain ⟨rfl, rfl⟩ := Prod.mk.inj (Option.some.inj h)
      exact ⟨rfl, rfl⟩
    | succ n =>
      rw [splitAtByte] at h
      split_ifs at h with hle
      obtain ⟨⟨a', b'⟩, hsplit, heq⟩ := Option.map_eq_some_iff.1 h
      obtain ⟨rfl, rfl⟩ := Prod.mk.inj heq
      obtain ⟨rfl, hlen⟩ := ih hsplit
      have hcons : byteLen (c :: a') = c.utf8Size + byteLen a' := by simp [byteLen]
      refine ⟨rfl, ?_⟩
      omega

/-! ### Where no pattern starts -/

/-- The pattern does not start in the text, whatever comes behind it. -/
def Apart (p : List Char) : List Char → Prop
  | [] => True
  | c :: x => p.take (x.length + 1) ≠ (c :: x).take p.length ∧ Apart p x

/-- Which can be computed. -/
instance decidableApart (p : List Char) : ∀ x, Decidable (Apart p x)
  | [] => inferInstanceAs (Decidable True)
  | c :: x =>
    have := decidableApart p x
    inferInstanceAs (Decidable (p.take (x.length + 1) ≠ (c :: x).take p.length ∧ Apart p x))

section Quiet

variable {p w x t : List Char}

/-- A pattern at the start of two texts agrees with the first one. -/
lemma take_of_start (h : p <+: x ++ t) : p.take x.length = x.take p.length := by
  obtain ⟨r, hr⟩ := h
  have hp : p = (x ++ t).take p.length := by
    rw [← hr, List.take_left]
  calc p.take x.length = ((x ++ t).take p.length).take x.length := by rw [← hp]
    _ = ((x ++ t).take x.length).take p.length := by rw [List.take_take, List.take_take, min_comm]
    _ = x.take p.length := by rw [List.take_left]

/-- **Where a pattern does not start, whatever comes behind.** -/
theorem quiet_of_apart (h : Apart p (upper x)) (t : List Char) : Quiet p x t := by
  induction x with
  | nil => trivial
  | cons c x ih =>
    refine ⟨?_, ih h.2⟩
    rw [← Bool.not_eq_true, startsWith, List.isPrefixOf_iff_prefix, ← List.cons_append,
      upper_append]
    intro hp
    have htake := take_of_start hp
    rw [length_upper, List.length_cons] at htake
    apply h.1
    show p.take ((upper x).length + 1) = (upper (c :: x)).take p.length
    rw [length_upper]
    exact htake

/-- A pattern that starts with a letter does not start in white space. -/
lemma quiet_of_letter (hp : p.head?.any (fun c => !isSpace c) = true)
    (hw : ∀ c ∈ w, isSpace c = true) (t : List Char) : Quiet p w t := by
  cases p with
  | nil => cases hp
  | cons d q =>
    refine Quiet.of_ne (fun c hc => ?_) t
    rintro rfl
    rw [toUpper_of_isSpace (hw c hc)] at hp
    simp [hw c hc] at hp

/-- A pattern that starts with one blank does not start in white space in front of a text. -/
lemma quiet_spaces {q : List Char} (hw : ∀ c ∈ w, isSpace c = true)
    (hq : ∀ c ∈ q.head?, isSpace c = false) (hne : q ≠ [])
    (hx : Apart (' ' :: q) (' ' :: upper x)) (t : List Char) : Quiet (' ' :: q) w (x ++ t) := by
  induction w with
  | nil => trivial
  | cons c w ih =>
    have hw' : ∀ d ∈ w, isSpace d = true := fun d hd => hw d (List.mem_cons_of_mem c hd)
    refine ⟨?_, ih hw'⟩
    rw [← Bool.not_eq_true, startsWith, List.isPrefixOf_iff_prefix, upper_cons]
    intro hp
    obtain ⟨-, hrest⟩ := List.cons_prefix_cons.1 hp
    cases w with
    | nil =>
      rw [List.nil_append, upper_append] at hrest
      apply hx.1
      rw [List.take_succ_cons, List.length_cons, List.take_succ_cons, take_of_start hrest]
    | cons d w =>
      obtain ⟨e, q, rfl⟩ := List.exists_cons_of_ne_nil hne
      have hd := hw' d List.mem_cons_self
      rw [List.cons_append, upper_cons] at hrest
      obtain ⟨heq, -⟩ := List.cons_prefix_cons.1 hrest
      rw [toUpper_of_isSpace hd] at heq
      subst heq
      rw [hq e rfl] at hd
      cases hd

/-- **A pattern that starts with one blank does not start in a front**, nor in white space in front
of it. -/
theorem quiet_front {q : List Char} (hw : ∀ c ∈ w, isSpace c = true)
    (hq : ∀ c ∈ q.head?, isSpace c = false) (hne : q ≠ [])
    (hx : Apart (' ' :: q) (' ' :: upper x)) (t : List Char) : Quiet (' ' :: q) (w ++ x) t :=
  (quiet_spaces hw hq hne hx t).append (quiet_of_apart hx.2 t)

lemma startsWith_of_isPrefixOf {s : List Char} (h : p.isPrefixOf s = true) :
    startsWith (upper p) s = true := by
  rw [startsWith, List.isPrefixOf_iff_prefix]
  exact (List.isPrefixOf_iff_prefix.1 h).map Char.toUpper

/-- The loop goes on behind a text in which the pattern does not start. -/
lemma replaceLoop_append {hit : List Char → Bool} (len : ℕ) (r : List Char)
    (hhit : ∀ s, hit s = true → startsWith p s = true) (h : Quiet p x t) :
    replaceLoop hit len r 0 (x ++ t) = x ++ replaceLoop hit len r 0 t := by
  induction x with
  | nil => rfl
  | cons c x ih =>
    have hnot : ¬ hit (c :: (x ++ t)) = true := by
      intro hyes
      have hstart := hhit _ hyes
      rw [h.1] at hstart
      cases hstart
    rw [List.cons_append, replaceLoop, if_neg hnot, ih h.2, List.cons_append]

lemma replaceAll_append (r : List Char) (h : Quiet (upper p) x t) :
    replaceAll p r (x ++ t) = x ++ replaceAll p r t :=
  replaceLoop_append p.length r (fun _ => startsWith_of_isPrefixOf) h

lemma replaceCi_append (r : List Char) (h : Quiet (upper p) x t) :
    replaceCi p r (x ++ t) = x ++ replaceCi p r t :=
  replaceLoop_append p.length r (fun _ hs => hs) h

lemma quiet_of_append {y : List Char} (h : Quiet p (x ++ y) t) : Quiet p y t := by
  induction x with
  | nil => exact h
  | cons c x ih => exact ih h.2

/-- The end of a text lies behind a front in which it does not start. -/
lemma isSuffixOf_append (h : Quiet (upper p) x t) :
    p.isSuffixOf (x ++ t) = p.isSuffixOf t := by
  rw [Bool.eq_iff_iff, List.isSuffixOf_iff_suffix, List.isSuffixOf_iff_suffix]
  refine ⟨fun hp => ?_, fun hp => hp.trans (List.suffix_append x t)⟩
  rcases List.suffix_or_suffix_of_suffix hp (List.suffix_append x t) with ht | ⟨u, rfl⟩
  · exact ht
  · obtain ⟨v, hv⟩ := hp
    rw [← List.append_assoc, List.append_cancel_right_eq] at hv
    subst hv
    cases u with
    | nil => exact List.suffix_refl _
    | cons c u =>
      -- the end would start in the front
      have hstart := (quiet_of_append h).1
      rw [← List.cons_append, startsWith, ← Bool.not_eq_true, List.isPrefixOf_iff_prefix] at hstart
      exact absurd (List.prefix_refl _) hstart

lemma truncateTail_append (h : Quiet (upper p) x t) :
    truncateTail p (x ++ t) = x ++ truncateTail p t := by
  rw [truncateTail, truncateTail, isSuffixOf_append h]
  by_cases hp : p.isSuffixOf t = true
  · have hlen := (List.isSuffixOf_iff_suffix.1 hp).length_le
    rw [if_pos hp, if_pos hp, List.length_append, Nat.add_sub_assoc hlen, List.take_length_add_append]
  · rw [if_neg hp, if_neg hp]

/-- A text in which a pattern does not start, searched as it is written. -/
lemma find_append_of_quiet (h : Quiet (upper p) x t) :
    find p (x ++ t) = (find p t).map (· + x.length) := by
  induction x with
  | nil => simp
  | cons c x ih =>
    have hnot : ¬ p.isPrefixOf (c :: (x ++ t)) = true := by
      intro hp
      have hstart := startsWith_of_isPrefixOf hp
      rw [h.1] at hstart
      cases hstart
    rw [List.cons_append, find, if_neg hnot, ih h.2, Option.map_map]
    rfl

/-- A pattern that is found lies in the text. -/
lemma find_add_le {i : ℕ} (h : find p t = some i) : i + p.length ≤ t.length := by
  induction t generalizing i with
  | nil =>
    rw [find] at h
    split_ifs at h with hp
    obtain rfl := List.isEmpty_iff.1 hp
    obtain rfl := Option.some.inj h
    exact Nat.le_refl _
  | cons c t ih =>
    rw [find] at h
    split_ifs at h with hp
    · obtain rfl := Option.some.inj h
      have hle := (List.isPrefixOf_iff_prefix.1 hp).length_le
      omega
    · obtain ⟨j, hj, rfl⟩ := Option.map_eq_some_iff.1 h
      have hle := ih hj
      rw [List.length_cons]
      omega

end Quiet

/-! ### Steady passes -/

/-- A pass leaves a front as it is, up to letter case, and white space in front of it. -/
def Steady (X : List Char) (f : List Char → List Char) : Prop :=
  ∀ s, startsWith X s = true →
    startsWith X (f s) = true ∧ ∀ w, (∀ c ∈ w, isSpace c = true) → f (w ++ s) = w ++ f s

section Steady

variable {X : List Char}

/-- The front of a text, and what comes behind it. -/
lemma exists_front {s : List Char} (h : startsWith X s = true) :
    ∃ x t, s = x ++ t ∧ upper x = X := by
  rw [startsWith, List.isPrefixOf_iff_prefix] at h
  refine ⟨s.take X.length, s.drop X.length, (List.take_append_drop _ s).symm, ?_⟩
  obtain ⟨r, hr⟩ := h
  rw [upper, List.map_take, ← upper, ← hr, List.take_left]

lemma startsWith_front {x t : List Char} (hx : upper x = X) : startsWith X (x ++ t) = true := by
  rw [startsWith, List.isPrefixOf_iff_prefix, upper_append, hx]
  exact List.prefix_append X _

/-- **Passes in a row.** -/
theorem Steady.comp {f g : List Char → List Char} (hg : Steady X g) (hf : Steady X f) :
    Steady X fun s => g (f s) := by
  intro s hs
  obtain ⟨hfront, hspace⟩ := hf s hs
  obtain ⟨hfront', hspace'⟩ := hg (f s) hfront
  refine ⟨hfront', fun w hw => ?_⟩
  show g (f (w ++ s)) = w ++ g (f s)
  rw [hspace w hw, hspace' w hw]

/-- **A pass for each pattern of a list.** -/
theorem Steady.foldl {f : List Char → List Char → List Char} {ps : List (List Char)}
    (h : ∀ p ∈ ps, Steady X fun s => f s p) : Steady X fun s => ps.foldl f s := by
  induction ps with
  | nil => exact fun s hs => ⟨hs, fun _ _ => rfl⟩
  | cons p ps ih =>
    have hps := ih fun q hq => h q (List.mem_cons_of_mem p hq)
    exact hps.comp (h p List.mem_cons_self)

/-- A pattern that starts with one blank, and not in the front. -/
def Behind (X p : List Char) : Prop :=
  p.head? = some ' ' ∧ p.tail ≠ [] ∧ (upper p.tail).head?.all (fun c => !isSpace c) = true ∧
    Apart (upper p) (' ' :: X)

instance (X p : List Char) : Decidable (Behind X p) := by
  unfold Behind
  infer_instance

variable {p : List Char}

lemma Behind.quiet (h : Behind X p) {w x : List Char} (hx : upper x = X)
    (hw : ∀ c ∈ w, isSpace c = true) (t : List Char) : Quiet (upper p) (w ++ x) t := by
  obtain ⟨hblank, hlong, hletter, hapart⟩ := h
  cases p with
  | nil => cases hblank
  | cons c q =>
    obtain rfl := Option.some.inj hblank
    subst hx
    have hne : upper q ≠ [] := fun hnil => hlong (List.map_eq_nil_iff.1 hnil)
    refine quiet_front hw ?_ hne hapart t
    intro c hc
    rw [Option.all_eq_true] at hletter
    have hnot := hletter c hc
    rwa [Bool.not_eq_true'] at hnot

/-- A pass that goes on behind a front in which its pattern does not start. -/
lemma steady_of_append {f : List Char → List Char} (h : Behind X p)
    (hf : ∀ {x t : List Char}, Quiet (upper p) x t → f (x ++ t) = x ++ f t) : Steady X f := by
  intro s hs
  obtain ⟨x, t, rfl, hx⟩ := exists_front hs
  have hfront : f (x ++ t) = x ++ f t := hf (h.quiet (w := []) hx (by simp) t)
  refine ⟨?_, fun w hw => ?_⟩
  · rw [hfront]
    exact startsWith_front hx
  · rw [← List.append_assoc, hf (h.quiet hx hw t), hfront, List.append_assoc]

theorem steady_replaceAll (h : Behind X p) (r : List Char) : Steady X (replaceAll p r) :=
  steady_of_append h fun hquiet => replaceAll_append r hquiet

theorem steady_replaceCi (h : Behind X p) (r : List Char) : Steady X (replaceCi p r) :=
  steady_of_append h fun hquiet => replaceCi_append r hquiet

theorem steady_truncateTail (h : Behind X p) : Steady X (truncateTail p) :=
  steady_of_append h truncateTail_append

end Steady

end Text
