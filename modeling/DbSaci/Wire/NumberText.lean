import DbSaci.Wire.Number
import Mathlib.Data.Rat.Defs
import Mathlib.Algebra.Field.Rat
import Mathlib.Algebra.GroupWithZero.Basic
import Mathlib.Tactic.FieldSimp

set_option relaxedAutoImplicit false
set_option autoImplicit false

/-!
# Decimal literals

A literal is a sign, digits with a point, and an exponent. It stands for a rational number, and
its text is read back in one way only.

## Main definitions

* `Literal`, `Literal.text`, `Literal.value` — a literal, its text and its number.
* `Literal.significant`, `Literal.point` — its normalised form.
* `partsOf` — the parts a text is read as.

## Main results

* `Literal.value_eq` — the number of the normalised form.
* `Literal.partsOf_text` — the text of a literal is read as that literal.
-/

namespace DbSaci.Wire

open Text Decimal

/-- A sign, or none. -/
def IsSign (s : List Char) : Prop := s = [] ∨ s = ['-'] ∨ s = ['+']

/-- The parts of a text: a sign, digits, a fraction, an exponent with its letter, its sign and its
digits, and what is left. -/
structure Parts where
  sign : List Char
  int : List Char
  frac : Option (List Char)
  exp : Option (Char × List Char × List Char)
  rest : List Char

namespace Parts

variable (p : Parts)

/-- The text that was taken apart. -/
def text : List Char :=
  p.sign ++ (p.int ++ (p.frac.elim [] (fun f => '.' :: f) ++
    (p.exp.elim [] (fun e => e.1 :: (e.2.1 ++ e.2.2)) ++ p.rest)))

/-- All digits in front of the exponent. -/
def mantissa : List Char := p.int ++ p.frac.getD []

/-- The digits without the zeros they start and end with. -/
def significant : List ℕ :=
  ((p.mantissa.map digitVal).dropWhile (· = 0)).rdropWhile (· = 0)

/-- The exponent; none for a text that has no digits for it or too many. -/
def exponent? : Option ℤ :=
  p.exp.elim (some 0) fun e =>
    (parseI32 e.2.2).map fun n => if e.2.1 = ['-'] then -n else n

end Parts

/-- The sign a text starts with, and what stands behind it. -/
def signOf (s : List Char) : List Char × List Char :=
  match s with
  | '-' :: s => (['-'], s)
  | '+' :: s => (['+'], s)
  | s => ([], s)

/-- A fraction, and what stands behind it. -/
def fracOf (s : List Char) : Option (List Char) × List Char :=
  match s with
  | '.' :: s => (some (s.takeWhile Char.isDigit), s.dropWhile Char.isDigit)
  | s => (none, s)

/-- An exponent, and what stands behind it. -/
def expOf (s : List Char) : Option (Char × List Char × List Char) × List Char :=
  match s with
  | c :: s =>
    if c = 'e' ∨ c = 'E' then
      (some (c, (signOf s).1, (signOf s).2.takeWhile Char.isDigit),
        (signOf s).2.dropWhile Char.isDigit)
    else (none, c :: s)
  | [] => (none, [])

/-- The parts a text is read as. -/
def partsOf (s : List Char) : Parts where
  sign := (signOf s).1
  int := (signOf s).2.takeWhile Char.isDigit
  frac := (fracOf ((signOf s).2.dropWhile Char.isDigit)).1
  exp := (expOf (fracOf ((signOf s).2.dropWhile Char.isDigit)).2).1
  rest := (expOf (fracOf ((signOf s).2.dropWhile Char.isDigit)).2).2

/-- A decimal literal: a sign or none, digits, which may have a fraction, and it may have an
exponent; there is a digit in front of the exponent. -/
structure Literal extends Parts where
  sign_ok : IsSign sign
  int_ok : ∀ c ∈ int, c.isDigit = true
  frac_ok : ∀ f ∈ frac, ∀ c ∈ f, c.isDigit = true
  exp_ok : ∀ e ∈ exp, (e.1 = 'e' ∨ e.1 = 'E') ∧ IsSign e.2.1 ∧ e.2.2 ≠ [] ∧
    ∀ c ∈ e.2.2, c.isDigit = true
  rest_ok : rest = []
  mantissa_ok : toParts.mantissa ≠ []

lemma rest_ok_nil : ([] : List Char) = [] := rfl

lemma frac_ok_none : ∀ f ∈ (none : Option (List Char)), ∀ c ∈ f, c.isDigit = true := nofun

lemma exp_ok_none : ∀ e ∈ (none : Option (Char × List Char × List Char)),
    (e.1 = 'e' ∨ e.1 = 'E') ∧ IsSign e.2.1 ∧ e.2.2 ≠ [] ∧ ∀ c ∈ e.2.2, c.isDigit = true := nofun

namespace Literal

variable (l : Literal)

/-- The number behind the letter of the exponent. -/
def exponent : ℤ :=
  l.exp.elim 0 fun e => (if e.2.1 = ['-'] then -1 else 1) * (Nat.ofDigitChars 10 e.2.2 0 : ℕ)

/-- The number a literal stands for. -/
def value : ℚ :=
  (if l.sign = ['-'] then -1 else 1) * (Nat.ofDigitChars 10 l.mantissa 0 : ℕ) *
    10 ^ (l.exponent - (l.frac.getD []).length)

/-- The exponent of the normalised form, where the point stands in front of the first digit that
is not zero. -/
def point : ℤ :=
  l.int.length - ((l.mantissa.map digitVal).takeWhile (· = 0)).length + l.exponent

/-- The normalised form has at most 40 digits and an exponent of a `NUMBER`. -/
def InRange : Prop :=
  l.significant.length ≤ 40 ∧ (l.significant ≠ [] → -129 ≤ l.point ∧ l.point ≤ 126)

end Literal

/-! ### The number of the normalised form -/

/-- Leading zeros do not count. -/
lemma ofDigits_map_dropWhile {α : Type} {p : α → Bool} {f : α → ℕ}
    (h : ∀ c, p c = true → f c = 0) (s : List α) :
    ofDigits ((s.dropWhile p).map f) = ofDigits (s.map f) := by
  induction s with
  | nil => rfl
  | cons c s ih =>
    by_cases hc : p c = true
    · rw [List.dropWhile_cons_of_pos hc, ih, List.map_cons, h c hc]
      rfl
    · rw [List.dropWhile_cons_of_neg hc]

lemma ofDigits_dropWhile (ds : List ℕ) : ofDigits (ds.dropWhile (· = 0)) = ofDigits ds := by
  have hmap := ofDigits_map_dropWhile (p := fun d : ℕ => decide (d = 0)) (f := id)
    (fun d hd => of_decide_eq_true hd) ds
  rwa [List.map_id, List.map_id] at hmap

/-- A trailing zero moves the point. -/
lemma ofDigits_map_rdropWhile {α : Type} {p : α → Bool} {f : α → ℕ}
    (h : ∀ c, p c = true → f c = 0) (s : List α) :
    (ofDigits (s.map f) : ℚ) * 10 ^ (-(s.length : ℤ)) =
      ofDigits ((s.rdropWhile p).map f) * 10 ^ (-((s.rdropWhile p).length : ℤ)) := by
  induction s using List.reverseRecOn with
  | nil => rfl
  | append_singleton s c ih =>
    by_cases hc : p c = true
    · have hten : (10 : ℚ) ≠ 0 := by decide
      have hpow : -((s ++ [c]).length : ℤ) = -(s.length : ℤ) - 1 := by
        rw [List.length_append, List.length_singleton]
        omega
      rw [List.rdropWhile_concat_pos _ _ _ hc, ← ih, List.map_append, ofDigits_append,
        List.map_singleton, h c hc, hpow, zpow_sub_one₀ hten, List.length_singleton,
        show ofDigits [0] = 0 from rfl]
      push_cast
      field_simp
      ring
    · rw [List.rdropWhile_concat_neg _ _ _ hc]

lemma ofDigits_rdropWhile (ds : List ℕ) : (ofDigits ds : ℚ) * 10 ^ (-(ds.length : ℤ)) =
    ofDigits (ds.rdropWhile (· = 0)) * 10 ^ (-((ds.rdropWhile (· = 0)).length : ℤ)) := by
  have hmap := ofDigits_map_rdropWhile (p := fun d : ℕ => decide (d = 0)) (f := id)
    (fun d hd => of_decide_eq_true hd) ds
  rwa [List.map_id, List.map_id] at hmap

/-- **The number of the normalised form.** -/
theorem Literal.value_eq (l : Literal) : l.value = (if l.sign = ['-'] then -1 else 1) *
    ofDigits l.significant * 10 ^ (l.point - l.significant.length) := by
  have hten : (10 : ℚ) ≠ 0 := by decide
  have hlen : ((l.mantissa.map digitVal).takeWhile (· = 0)).length +
      ((l.mantissa.map digitVal).dropWhile (· = 0)).length =
        l.int.length + (l.frac.getD []).length := by
    rw [← List.length_append, List.takeWhile_append_dropWhile, List.length_map, Parts.mantissa,
      List.length_append]
  have hpoint : l.exponent - (l.frac.getD []).length =
      l.point + -(((l.mantissa.map digitVal).dropWhile (· = 0)).length : ℤ) := by
    rw [Literal.point]
    omega
  rw [Literal.value, ofDigitChars_eq, ← ofDigits_dropWhile, hpoint, zpow_add₀ hten, sub_eq_add_neg,
    zpow_add₀ hten]
  have hstrip := ofDigits_rdropWhile ((l.mantissa.map digitVal).dropWhile (· = 0))
  rw [← Parts.significant] at hstrip
  rw [mul_assoc, mul_left_comm _ (_ ^ l.point), hstrip]
  ring

/-! ### A text is read in one way -/

lemma signOf_append (s : List Char) : (signOf s).1 ++ (signOf s).2 = s := by
  unfold signOf
  split <;> rfl

lemma isSign_signOf (s : List Char) : IsSign (signOf s).1 := by
  unfold signOf IsSign
  split <;> simp

lemma fracOf_append (s : List Char) :
    (fracOf s).1.elim [] (fun f => '.' :: f) ++ (fracOf s).2 = s := by
  unfold fracOf
  split
  · rw [Option.elim_some, List.cons_append, List.takeWhile_append_dropWhile]
  · rfl

lemma expOf_append (s : List Char) :
    (expOf s).1.elim [] (fun e => e.1 :: (e.2.1 ++ e.2.2)) ++ (expOf s).2 = s := by
  unfold expOf
  split
  · split_ifs
    · rw [Option.elim_some, List.cons_append, List.append_assoc, List.takeWhile_append_dropWhile,
        signOf_append]
    · rfl
  · rfl

/-- Nothing of a text is lost. -/
lemma text_partsOf (s : List Char) : (partsOf s).text = s := by
  unfold Parts.text partsOf
  rw [expOf_append, fracOf_append, List.takeWhile_append_dropWhile, signOf_append]

/-- The digits in front of something else. -/
lemma span_digits {ds x : List Char} (hds : ∀ c ∈ ds, c.isDigit = true)
    (hx : ∀ c ∈ x.head?, c.isDigit = false) :
    (ds ++ x).takeWhile Char.isDigit = ds ∧ (ds ++ x).dropWhile Char.isDigit = x := by
  have hnone : x.takeWhile Char.isDigit = [] ∧ x.dropWhile Char.isDigit = x := by
    cases x with
    | nil => exact ⟨rfl, rfl⟩
    | cons c x =>
      have hc : ¬ c.isDigit = true := by
        rw [hx c rfl]
        decide
      exact ⟨List.takeWhile_cons_of_neg hc, List.dropWhile_cons_of_neg hc⟩
  rw [List.takeWhile_append_of_pos hds, List.dropWhile_append_of_pos hds, hnone.1, hnone.2]
  exact ⟨List.append_nil ds, rfl⟩

/-- A sign in front of something that does not start with one. -/
lemma signOf_sign {sign x : List Char} (h : IsSign sign)
    (hx : ∀ c ∈ x.head?, c ≠ '-' ∧ c ≠ '+') : signOf (sign ++ x) = (sign, x) := by
  rcases h with rfl | rfl | rfl
  · cases x with
    | nil => rfl
    | cons c x =>
      obtain ⟨hminus, hplus⟩ := hx c rfl
      show signOf (c :: x) = ([], c :: x)
      unfold signOf
      split
      · exact absurd ‹_› (by simpa using fun h => absurd h hminus)
      · exact absurd ‹_› (by simpa using fun h => absurd h hplus)
      · rfl
  · rfl
  · rfl

namespace Literal

variable (l : Literal)

/-- The exponent as it is written. -/
def expText : List Char := l.exp.elim [] fun e => e.1 :: (e.2.1 ++ e.2.2)

/-- The fraction as it is written. -/
def fracText : List Char := l.frac.elim [] fun f => '.' :: f

lemma text_eq : l.text = l.sign ++ (l.int ++ (l.fracText ++ l.expText)) := by
  rw [Parts.text, l.rest_ok, List.append_nil, fracText, expText]

lemma expOf_expText : expOf l.expText = (l.exp, []) := by
  unfold expText
  cases he : l.exp with
  | none => rfl
  | some e =>
    obtain ⟨letter, sign, digits⟩ := e
    obtain ⟨hletter, hsign, hne, hdigits⟩ := l.exp_ok _ he
    have hhead : ∀ c ∈ digits.head?, c ≠ '-' ∧ c ≠ '+' := by
      intro c hc
      have hdigit := hdigits c (List.mem_of_mem_head? hc)
      constructor
      · rintro rfl
        cases hdigit
      · rintro rfl
        cases hdigit
    have hspan := span_digits (x := []) hdigits (by simp)
    rw [List.append_nil] at hspan
    show expOf (letter :: (sign ++ digits)) = _
    rw [expOf, if_pos hletter, signOf_sign hsign hhead, hspan.1, hspan.2]

/-- What an exponent starts with. -/
lemma head_expText : ∀ c ∈ l.expText.head?, c = 'e' ∨ c = 'E' := by
  unfold expText
  cases he : l.exp with
  | none => simp
  | some e =>
    rintro c ⟨⟩
    exact (l.exp_ok e he).1

lemma fracOf_fracText : fracOf (l.fracText ++ l.expText) = (l.frac, l.expText) := by
  have hstop : ∀ c ∈ l.expText.head?, c.isDigit = false := by
    intro c hc
    rcases l.head_expText c hc with rfl | rfl <;> rfl
  unfold fracText
  cases hf : l.frac with
  | none =>
    show fracOf l.expText = _
    have hhead := l.head_expText
    cases hexp : l.expText with
    | nil => rfl
    | cons c s =>
      rw [hexp] at hhead
      rcases hhead c rfl with rfl | rfl <;> rfl
  | some f =>
    obtain ⟨htake, hdrop⟩ := span_digits (l.frac_ok f hf) hstop
    show fracOf ('.' :: (f ++ l.expText)) = _
    rw [fracOf, htake, hdrop]

/-- What stands behind the digits in front of the point. -/
lemma head_fracText : ∀ c ∈ (l.fracText ++ l.expText).head?, c = '.' ∨ c = 'e' ∨ c = 'E' := by
  unfold fracText
  cases l.frac with
  | none => exact fun c hc => .inr (l.head_expText c hc)
  | some f =>
    rintro c ⟨⟩
    exact .inl rfl

/-- **The text of a literal is read as that literal.** -/
theorem partsOf_text : partsOf l.text = l.toParts := by
  have hstop : ∀ c ∈ (l.fracText ++ l.expText).head?, c.isDigit = false := by
    intro c hc
    rcases l.head_fracText c hc with rfl | rfl | rfl <;> rfl
  have hhead : ∀ c ∈ (l.int ++ (l.fracText ++ l.expText)).head?, c ≠ '-' ∧ c ≠ '+' := by
    intro c hc
    rcases hint : l.int with _ | ⟨d, int⟩
    · rw [hint, List.nil_append] at hc
      rcases l.head_fracText c hc with rfl | rfl | rfl <;> decide
    · rw [hint] at hc
      obtain rfl : d = c := Option.some.inj hc
      have hdigit := l.int_ok d (by rw [hint]; exact List.mem_cons_self)
      constructor
      · rintro rfl
        cases hdigit
      · rintro rfl
        cases hdigit
  obtain ⟨htake, hdrop⟩ := span_digits l.int_ok hstop
  rw [partsOf, l.text_eq, signOf_sign l.sign_ok hhead]
  dsimp only
  rw [htake, hdrop, l.fracOf_fracText, l.expOf_expText]
  dsimp only
  rw [← l.rest_ok]

end Literal

end DbSaci.Wire
