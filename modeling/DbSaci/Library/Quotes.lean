import Mathlib.Data.List.Basic
import Mathlib.Order.Nat

set_option relaxedAutoImplicit false
set_option autoImplicit false

/-!
# Outside quotes

A quoted part of a text ends at the next quote of its kind. A search that passes over quoted parts
looks at the places of a text that are outside of them.

## Main definitions

* `Quotes.quoteAfter` — the quote that is open behind a text.
* `Quotes.Occurs` — something stands outside quotes between two texts.
* `Quotes.placesOf` — where something stands outside quotes.

## Main results

* `Quotes.mem_placesOf` — the places are those where it occurs.
* `Quotes.head?_placesOf`, `Quotes.getLast?_placesOf` — the first and the last of them.
-/

namespace Quotes

/-- The characters that start a quoted part. -/
def isQuote (c : Char) : Bool := c == '\'' || c == '"'

/-- The open quote, one character on. -/
def quoteStep (quote : Option Char) (c : Char) : Option Char :=
  match quote with
  | some q => if c = q then none else some q
  | none => if isQuote c then some c else none

/-- The quote that is open behind a text. -/
def quoteAfter (quote : Option Char) (s : List Char) : Option Char := s.foldl quoteStep quote

/-- The places of a text, counted from `i`, that are outside quotes and where a test is met of the
character in front and the rest of the text. -/
def placesOf (test : Option Char → List Char → Bool) :
    Option Char → Option Char → ℕ → List Char → List ℕ
  | _, _, _, [] => []
  | quote, prev, i, c :: s =>
    if quote = none ∧ isQuote c = false ∧ test prev (c :: s) = true then
      i :: placesOf test (quoteStep quote c) (some c) (i + 1) s
    else placesOf test (quoteStep quote c) (some c) (i + 1) s

variable (test : Option Char → List Char → Bool)

/-- A test is met between two texts, outside quotes. -/
def OccursFrom (quote prev : Option Char) (a b : List Char) : Prop :=
  quoteAfter quote a = none ∧ (∃ c s, b = c :: s ∧ isQuote c = false) ∧
    test (a.getLast?.or prev) b = true

/-- A test is met between two texts, outside quotes, from the start of the first one. -/
def Occurs (a b : List Char) : Prop := OccursFrom test none none a b

/-- It is met there, and not behind. -/
def OccursLast (a b : List Char) : Prop :=
  Occurs test a b ∧ ∀ a' b', a' ++ b' = a ++ b → Occurs test a' b' → a'.length ≤ a.length

/-- It is met there, and not in front. -/
def OccursFirst (a b : List Char) : Prop :=
  Occurs test a b ∧ ∀ a' b', a' ++ b' = a ++ b → Occurs test a' b' → a.length ≤ a'.length

variable {test}

lemma occursFrom_cons {quote prev : Option Char} {c : Char} {a b : List Char} :
    OccursFrom test quote prev (c :: a) b ↔
      OccursFrom test (quoteStep quote c) (some c) a b := by
  have hlast : (c :: a).getLast?.or prev = a.getLast?.or (some c) := by
    rw [List.getLast?_cons]
    cases a.getLast? with
    | none => rfl
    | some d => rfl
  rw [OccursFrom, OccursFrom, hlast]
  exact Iff.rfl

lemma le_of_mem_placesOf {quote prev : Option Char} {i j : ℕ} {s : List Char}
    (h : j ∈ placesOf test quote prev i s) : i ≤ j := by
  induction s generalizing quote prev i with
  | nil => cases h
  | cons c s ih =>
    rw [placesOf] at h
    split_ifs at h with hhere
    · rcases List.mem_cons.1 h with rfl | h
      · exact Nat.le_refl _
      · exact (Nat.le_succ i).trans (ih h)
    · exact (Nat.le_succ i).trans (ih h)

/-- The places are in the order of the text. -/
lemma pairwise_placesOf (test : Option Char → List Char → Bool) (quote prev : Option Char) (i : ℕ)
    (s : List Char) : (placesOf test quote prev i s).Pairwise (· < ·) := by
  induction s generalizing quote prev i with
  | nil => exact List.Pairwise.nil
  | cons c s ih =>
    rw [placesOf]
    split_ifs with hhere
    · exact List.pairwise_cons.2 ⟨fun j hj => le_of_mem_placesOf hj, ih _ _ _⟩
    · exact ih _ _ _

lemma mem_placesOfFrom {quote prev : Option Char} {i j : ℕ} {s : List Char} :
    j ∈ placesOf test quote prev i s ↔
      ∃ a b, s = a ++ b ∧ j = i + a.length ∧ OccursFrom test quote prev a b := by
  induction s generalizing quote prev i with
  | nil =>
    refine iff_of_false (List.not_mem_nil) ?_
    rintro ⟨a, b, hs, -, -, ⟨c, t, rfl, -⟩, -⟩
    exact List.append_ne_nil_of_right_ne_nil a (List.cons_ne_nil c t) hs.symm
  | cons c s ih =>
    have hhere : OccursFrom test quote prev [] (c :: s) ↔
        quote = none ∧ isQuote c = false ∧ test prev (c :: s) = true := by
      refine and_congr_right fun _ => and_congr_left fun _ => ⟨?_, fun h => ⟨c, s, rfl, h⟩⟩
      rintro ⟨d, t, heq, hd⟩
      rwa [(List.cons.inj heq).1]
    have hsplit : (∃ a b, c :: s = a ++ b ∧ j = i + a.length ∧ OccursFrom test quote prev a b) ↔
        (j = i ∧ OccursFrom test quote prev [] (c :: s)) ∨
          ∃ a b, s = a ++ b ∧ j = i + 1 + a.length ∧
            OccursFrom test (quoteStep quote c) (some c) a b := by
      constructor
      · rintro ⟨a, b, hs, hj, hoccurs⟩
        cases a with
        | nil => exact Or.inl ⟨hj, hs ▸ hoccurs⟩
        | cons d a =>
          obtain ⟨rfl, htail⟩ := List.cons.inj hs
          refine Or.inr ⟨a, b, htail, ?_, occursFrom_cons.1 hoccurs⟩
          rw [hj, List.length_cons]
          omega
      · rintro (⟨hj, hoccurs⟩ | ⟨a, b, hs, hj, hoccurs⟩)
        · exact ⟨[], c :: s, rfl, hj, hoccurs⟩
        · refine ⟨c :: a, b, by rw [hs]; rfl, ?_, occursFrom_cons.2 hoccurs⟩
          rw [hj, List.length_cons]
          omega
    rw [hsplit, ← ih, hhere, placesOf]
    split_ifs with htest
    · rw [List.mem_cons, and_iff_left htest]
    · rw [iff_comm]
      exact or_iff_right fun h => htest h.2

/-- **The places are those where it occurs.** -/
theorem mem_placesOf {j : ℕ} {s : List Char} :
    j ∈ placesOf test none none 0 s ↔ ∃ a b, s = a ++ b ∧ j = a.length ∧ Occurs test a b := by
  simp only [mem_placesOfFrom, Nat.zero_add, Occurs]

/-- **The first place.** -/
theorem head?_placesOf {j : ℕ} {s : List Char} :
    (placesOf test none none 0 s).head? = some j ↔
      ∃ a b, s = a ++ b ∧ j = a.length ∧ OccursFirst test a b := by
  have horder := pairwise_placesOf test none none 0 s
  constructor
  · intro h
    obtain ⟨ps, hps⟩ := List.head?_eq_some_iff.1 h
    obtain ⟨a, b, hs, hj, hoccurs⟩ := mem_placesOf.1 (List.mem_of_mem_head? h)
    refine ⟨a, b, hs, hj, hoccurs, fun a' b' hs' hoccurs' => ?_⟩
    have hmem : a'.length ∈ placesOf test none none 0 s :=
      mem_placesOf.2 ⟨a', b', hs.trans hs'.symm, rfl, hoccurs'⟩
    rw [hps] at hmem horder
    rcases List.mem_cons.1 hmem with heq | hmem
    · exact (hj ▸ heq).ge
    · exact (hj ▸ (List.pairwise_cons.1 horder).1 _ hmem).le
  · rintro ⟨a, b, hs, rfl, hoccurs, hfirst⟩
    have hmem : a.length ∈ placesOf test none none 0 s := mem_placesOf.2 ⟨a, b, hs, rfl, hoccurs⟩
    cases hps : placesOf test none none 0 s with
    | nil =>
      rw [hps] at hmem
      cases hmem
    | cons p ps =>
      rw [hps] at hmem horder
      rcases List.mem_cons.1 hmem with heq | htail
      · rw [heq]
        rfl
      · have hp : p ∈ placesOf test none none 0 s := hps ▸ List.mem_cons_self
        obtain ⟨a', b', hs', rfl, hoccurs'⟩ := mem_placesOf.1 hp
        have hlt := (List.pairwise_cons.1 horder).1 _ htail
        exact absurd hlt (Nat.not_lt.2 (hfirst a' b' (hs'.symm.trans hs) hoccurs'))

/-- **The last place.** -/
theorem getLast?_placesOf {j : ℕ} {s : List Char} :
    (placesOf test none none 0 s).getLast? = some j ↔
      ∃ a b, s = a ++ b ∧ j = a.length ∧ OccursLast test a b := by
  have horder := pairwise_placesOf test none none 0 s
  constructor
  · intro h
    obtain ⟨ps, hps⟩ := List.getLast?_eq_some_iff.1 h
    obtain ⟨a, b, hs, hj, hoccurs⟩ := mem_placesOf.1 (List.mem_of_getLast? h)
    refine ⟨a, b, hs, hj, hoccurs, fun a' b' hs' hoccurs' => ?_⟩
    have hmem : a'.length ∈ placesOf test none none 0 s :=
      mem_placesOf.2 ⟨a', b', hs.trans hs'.symm, rfl, hoccurs'⟩
    rw [hps] at hmem horder
    rcases List.mem_append.1 hmem with hmem | hmem
    · exact (hj ▸ (List.pairwise_append.1 horder).2.2 _ hmem j List.mem_cons_self).le
    · exact (hj ▸ List.mem_singleton.1 hmem).le
  · rintro ⟨a, b, hs, rfl, hoccurs, hlast⟩
    have hmem : a.length ∈ placesOf test none none 0 s := mem_placesOf.2 ⟨a, b, hs, rfl, hoccurs⟩
    obtain ⟨p, hp⟩ : ∃ p, (placesOf test none none 0 s).getLast? = some p :=
      ⟨_, List.getLast?_eq_some_getLast (List.ne_nil_of_mem hmem)⟩
    obtain ⟨ps, hps⟩ := List.getLast?_eq_some_iff.1 hp
    obtain ⟨a', b', hs', rfl, hoccurs'⟩ := mem_placesOf.1 (List.mem_of_getLast? hp)
    have hle := hlast a' b' (hs'.symm.trans hs) hoccurs'
    rw [hps] at hmem horder
    rcases List.mem_append.1 hmem with hmem | hmem
    · have hlt := (List.pairwise_append.1 horder).2.2 _ hmem _ List.mem_cons_self
      omega
    · rw [hp, List.mem_singleton.1 hmem]

end Quotes
