import DbSaci.Wire.NumberDigits

set_option relaxedAutoImplicit false
set_option autoImplicit false

/-!
# A decimal literal as a `NUMBER` and back

The text that is encoded is trimmed and read as the parts of a literal. What it is encoded to is
decoded to the same number, but a text without a digit is taken for zero, and the arithmetic on the
exponent may overflow.

## Main definitions

* `Parts.encode` — what the parts of a text are encoded to.
* `Faithful` — nothing overflows, only literals that fit are accepted, and their number comes back.
* `Sound` — the texts for which it is so.

## Main results

* `encode_eq` — a text is encoded as its parts are.
* `faithful_iff_sound` — which texts are treated as they should be.
-/

namespace DbSaci.Wire

open Text Decimal

/-! ### Reading a text -/

lemma readSign_eq (s : List Char) :
    readSign s = (decide ((signOf s).1 = ['-']), (signOf s).2) := by
  rcases s with _ | ⟨c, s⟩
  · rfl
  · by_cases hminus : c = '-'
    · rw [hminus]
      rfl
    · by_cases hplus : c = '+'
      · rw [hplus]
        rfl
      · simp [readSign, signOf, hminus, hplus]

/-- Digits that start with no zero. -/
def Leading (digits : List ℕ) : Prop := digits.dropWhile (· = 0) = digits

lemma Leading.append_singleton {digits : List ℕ} {d : ℕ} (h : Leading digits)
    (hd : digits ≠ [] ∨ d ≠ 0) : Leading (digits ++ [d]) := by
  unfold Leading at h ⊢
  cases digits with
  | nil =>
    have hd : d ≠ 0 := hd.resolve_left (not_not.2 rfl)
    exact List.dropWhile_cons_of_neg (by simpa using hd)
  | cons e ds =>
    have he : e ≠ 0 := by
      rintro rfl
      have := congrArg List.length h
      rw [List.dropWhile_cons_of_pos (by simp)] at this
      have hle := (List.dropWhile_suffix (l := ds) (fun d => decide (d = 0))).length_le
      rw [List.length_cons] at this
      omega
    exact List.dropWhile_cons_of_neg (by simpa using he)

/-- The digits in front of the point, behind some that are there. -/
lemma readInteger_eq (s : List Char) {digits : List ℕ} (h : Leading digits) :
    readInteger s digits =
      ((digits ++ (s.takeWhile Char.isDigit).map digitVal).dropWhile (· = 0),
        s.dropWhile Char.isDigit) := by
  induction s generalizing digits with
  | nil =>
    rw [readInteger, List.takeWhile_nil, List.map_nil, List.append_nil, h]
    rfl
  | cons c s ih =>
    rw [readInteger]
    split_ifs with hdigit hfirst
    · rw [ih (h.append_singleton hfirst.symm), List.takeWhile_cons_of_pos hdigit,
        List.dropWhile_cons_of_pos hdigit, List.map_cons, List.append_assoc]
      rfl
    · -- a zero in front of all other digits
      obtain ⟨hzero, hnil⟩ : digitVal c = 0 ∧ digits = [] := by
        rw [not_or, not_not, not_not] at hfirst
        exact hfirst
      rw [ih h, hnil, List.takeWhile_cons_of_pos hdigit, List.dropWhile_cons_of_pos hdigit,
        List.map_cons, List.nil_append, List.nil_append, List.dropWhile_cons_of_pos (by simpa)]
    · rw [List.takeWhile_cons_of_neg hdigit, List.dropWhile_cons_of_neg hdigit, List.map_nil,
        List.append_nil, h]

/-- The zeros behind the point that move it. -/
def leadingZeros (digits : List ℕ) (s : List Char) : ℕ :=
  if digits = [] then (((s.takeWhile Char.isDigit).map digitVal).takeWhile (· = 0)).length else 0

/-- The digits behind the point, behind some that are there. -/
lemma readFraction_eq (s : List Char) {digits : List ℕ} (h : Leading digits) {point : ℤ}
    (hpoint : InI32 point) :
    readFraction s digits point =
      if ¬ InI32 (point - leadingZeros digits s) then .error .overflow
      else .ok (((digits ++ (s.takeWhile Char.isDigit).map digitVal).dropWhile (· = 0),
        point - leadingZeros digits s), s.dropWhile Char.isDigit) := by
  induction s generalizing digits point with
  | nil =>
    have hzeros : leadingZeros digits [] = 0 := by
      unfold leadingZeros
      split_ifs <;> rfl
    rw [readFraction, hzeros, Nat.cast_zero, sub_zero, if_neg (not_not.2 hpoint),
      List.takeWhile_nil, List.map_nil, List.append_nil, h]
    rfl
  | cons c s ih =>
    rw [readFraction]
    by_cases hdigit : c.isDigit = true
    · rw [if_pos hdigit, List.takeWhile_cons_of_pos hdigit, List.dropWhile_cons_of_pos hdigit]
      by_cases hzero : digitVal c = 0 ∧ digits = []
      · obtain ⟨hzero, rfl⟩ := hzero
        have hzeros : (leadingZeros [] (c :: s) : ℤ) = leadingZeros [] s + 1 := by
          unfold leadingZeros
          rw [if_pos rfl, if_pos rfl, List.takeWhile_cons_of_pos hdigit, List.map_cons,
            List.takeWhile_cons_of_pos (by simpa), List.length_cons, Nat.cast_succ]
        have hsub : point - 1 - leadingZeros [] s = point - (leadingZeros [] s + 1) := by omega
        rw [if_pos ⟨hzero, rfl⟩, hzeros, List.map_cons, List.nil_append,
          List.dropWhile_cons_of_pos (by simpa), checkedI32]
        by_cases hover : InI32 (point - 1)
        · rw [if_pos hover]
          show readFraction s [] (point - 1) = _
          rw [ih h hover, hsub]
          rfl
        · have hnot : ¬ InI32 (point - (leadingZeros [] s + 1)) := by
            unfold InI32 at hover hpoint ⊢
            omega
          rw [if_neg hover, if_pos hnot]
          rfl
      · have hfirst : digits ≠ [] ∨ digitVal c ≠ 0 := by
          rw [not_and_or] at hzero
          exact hzero.symm
        have hzeros : leadingZeros digits (c :: s) = 0 := by
          unfold leadingZeros
          split_ifs with hnil
          · rw [List.takeWhile_cons_of_pos hdigit, List.map_cons, List.takeWhile_cons_of_neg
              (by simpa using hfirst.resolve_left (not_not.2 hnil))]
            rfl
          · rfl
        have hzeros' : leadingZeros (digits ++ [digitVal c]) s = 0 := if_neg (by simp)
        rw [if_neg hzero, ih (h.append_singleton hfirst) hpoint, hzeros, hzeros', List.map_cons,
          List.append_assoc]
        rfl
    · have hzeros : leadingZeros digits (c :: s) = 0 := by
        unfold leadingZeros
        rw [List.takeWhile_cons_of_neg hdigit]
        split_ifs <;> rfl
      rw [if_neg hdigit, hzeros, Nat.cast_zero, sub_zero, if_neg (not_not.2 hpoint),
        List.takeWhile_cons_of_neg hdigit, List.dropWhile_cons_of_neg hdigit, List.map_nil,
        List.append_nil, h]

/-! ### What a text is encoded to -/

namespace Parts

variable (p : Parts)

/-- The digits in front of the point, without the zeros they start with. -/
def intDigits : List ℕ := (p.int.map digitVal).dropWhile (· = 0)

/-- The zeros behind the point that move it. -/
def fracZeros : ℕ := leadingZeros p.intDigits (p.frac.getD [])

/-- The point of the mantissa in 32 bits. -/
def point32 : ℤ := asI32 p.intDigits.length - p.fracZeros

/-- What the parts of a text are encoded to. -/
def encode : Except Failure (List UInt8) :=
  if ¬ InI32 p.point32 then .error .overflow
  else
    match p.exponent? with
    | none => .error (.conversion "invalid NUMBER exponent")
    | some e =>
      if ¬ InI32 (p.point32 + e) then .error .overflow
      else if p.rest ≠ [] then .error (.conversion "invalid NUMBER value")
      else if p.significant = [] then .ok [0x80]
      else if 40 < p.significant.length ∨ ¬ (-129 ≤ p.point32 + e ∧ p.point32 + e ≤ 126) then
        .error (.conversion "NUMBER out of Oracle range")
      else .ok (encodeDigits (decide (p.sign = ['-'])) p.significant (p.point32 + e))

end Parts

lemma asI32_mem (n : ℕ) : InI32 (asI32 n) := by
  have hle := Int.le_bmod (x := n) (m := 4294967296) (by decide)
  have hlt := Int.bmod_lt (x := n) (m := 4294967296) (by decide)
  unfold InI32 asI32
  omega

lemma leading_dropWhile (ds : List ℕ) : Leading (ds.dropWhile (· = 0)) := by
  induction ds with
  | nil => rfl
  | cons d ds ih =>
    by_cases hd : d = 0
    · rwa [List.dropWhile_cons_of_pos (by simpa)]
    · unfold Leading
      rw [List.dropWhile_cons_of_neg (by simpa), List.dropWhile_cons_of_neg (by simpa)]

/-- The zeros of digits that are followed by digits. -/
lemma dropWhile_dropWhile_append (a b : List ℕ) :
    (a.dropWhile (· = 0) ++ b).dropWhile (· = 0) = (a ++ b).dropWhile (· = 0) := by
  induction a with
  | nil => rfl
  | cons d a ih =>
    by_cases hd : d = 0
    · rw [List.dropWhile_cons_of_pos (by simpa), ih, List.cons_append,
        List.dropWhile_cons_of_pos (by simpa)]
    · rw [List.dropWhile_cons_of_neg (by simpa)]

/-- The number behind the letter of an exponent that was read. -/
def exponentOf (exp : Option (Char × List Char × List Char)) : Option ℤ :=
  exp.elim (some 0) fun e => (parseI32 e.2.2).map fun n => if e.2.1 = ['-'] then -n else n

lemma readExponent_eq (s : List Char) {point : ℤ}
    (hpoint : InI32 point) :
    readExponent s point =
      match exponentOf (expOf s).1 with
      | none => .error (.conversion "invalid NUMBER exponent")
      | some e =>
        if ¬ InI32 (point + e) then .error .overflow
        else .ok (point + e, (expOf s).2) := by
  have hnone : ¬ ¬ InI32 (point + 0) := by rwa [add_zero, not_not]
  rcases s with _ | ⟨c, s⟩
  · show _ = if ¬ InI32 (point + 0) then _ else _
    rw [if_neg hnone, add_zero]
    rfl
  · rw [readExponent, expOf]
    by_cases hletter : c = 'e' ∨ c = 'E'
    · rw [if_pos hletter, if_pos hletter, readSign_eq]
      cases hparse : parseI32 ((signOf s).2.takeWhile Char.isDigit) with
      | none => simp only [exponentOf, Option.elim_some, hparse, Option.map_none]
      | some n =>
        simp only [exponentOf, Option.elim_some, hparse, Option.map_some, decide_eq_true_eq]
        unfold checkedI32
        split_ifs <;> rfl
    · rw [if_neg hletter, if_neg hletter]
      show _ = if ¬ InI32 (point + 0) then _ else _
      rw [if_neg hnone, add_zero]

/-- The digits with those of a fraction, and where the point is. -/
lemma readPoint_eq (s : List Char) {digits : List ℕ} (h : Leading digits) :
    readPoint s digits =
      if ¬ InI32 (asI32 digits.length - leadingZeros digits ((fracOf s).1.getD [])) then
        .error .overflow
      else .ok (((digits ++ ((fracOf s).1.getD []).map digitVal).dropWhile (· = 0),
        asI32 digits.length - leadingZeros digits ((fracOf s).1.getD [])), (fracOf s).2) := by
  have hmem := asI32_mem digits.length
  have hnone : leadingZeros digits [] = 0 := by
    unfold leadingZeros
    split_ifs <;> rfl
  by_cases hdot : ∃ t, s = '.' :: t
  · obtain ⟨t, rfl⟩ := hdot
    have hzeros : leadingZeros digits (t.takeWhile Char.isDigit) = leadingZeros digits t := by
      unfold leadingZeros
      rw [List.takeWhile_takeWhile]
      simp
    show readFraction t digits (asI32 digits.length) = _
    rw [readFraction_eq t h hmem, ← hzeros]
    rfl
  · have hfrac : fracOf s = (none, s) := by
      unfold fracOf
      split
      · exact absurd ⟨_, rfl⟩ hdot
      · rfl
    have hread : readPoint s digits = .ok ((digits, asI32 digits.length), s) := by
      unfold readPoint
      split
      · exact absurd ⟨_, rfl⟩ hdot
      · rfl
    rw [hfrac, hread, Option.getD_none, hnone, Nat.cast_zero, sub_zero, if_neg (not_not.2 hmem),
      List.map_nil, List.append_nil, h]

section Bind

variable {α β : Type} (f : α → Except Failure β)

lemma ok_bind (a : α) : (Except.ok a >>= f) = f a := rfl

lemma error_bind (e : Failure) : (Except.error e >>= f) = .error e := rfl

end Bind

/-- **A text is encoded as its parts are.** -/
theorem encode_eq (s : List Char) (h : trim s ≠ []) :
    encodeOracleNumberDecimal s = (partsOf (trim s)).encode := by
  obtain ⟨u, hu⟩ : ∃ u, u = trim s := ⟨_, rfl⟩
  rw [← hu] at h ⊢
  have hdigits := @readInteger_eq (signOf u).2 [] rfl
  rw [List.nil_append] at hdigits
  have hpoint := readPoint_eq ((signOf u).2.dropWhile Char.isDigit)
    (leading_dropWhile (((signOf u).2.takeWhile Char.isDigit).map digitVal))
  rw [dropWhile_dropWhile_append, ← List.map_append] at hpoint
  unfold encodeOracleNumberDecimal
  simp only [← hu, if_neg h, readSign_eq, hdigits, hpoint]
  have hp : asI32 (((signOf u).2.takeWhile Char.isDigit).map digitVal |>.dropWhile (· = 0)).length -
      leadingZeros (((signOf u).2.takeWhile Char.isDigit).map digitVal |>.dropWhile (· = 0))
        ((fracOf ((signOf u).2.dropWhile Char.isDigit)).1.getD []) = (partsOf u).point32 := rfl
  rw [hp]
  unfold Parts.encode
  by_cases hlow : InI32 (partsOf u).point32
  · have hexp := readExponent_eq (fracOf ((signOf u).2.dropWhile Char.isDigit)).2 hlow
    have hsame : (partsOf u).exponent? =
        exponentOf (expOf (fracOf ((signOf u).2.dropWhile Char.isDigit)).2).1 := rfl
    rw [if_neg (not_not.2 hlow), if_neg (not_not.2 hlow), hsame]
    rw [ok_bind]
    dsimp only
    rw [hexp]
    cases exponentOf (expOf (fracOf ((signOf u).2.dropWhile Char.isDigit)).2).1 with
    | none => exact error_bind _ _
    | some e =>
      have hrest : (partsOf u).rest =
          (expOf (fracOf ((signOf u).2.dropWhile Char.isDigit)).2).2 := rfl
      have hsig : (((((signOf u).2.takeWhile Char.isDigit ++
          (fracOf ((signOf u).2.dropWhile Char.isDigit)).1.getD []).map digitVal).dropWhile
            (· = 0)).rdropWhile (· = 0)) = (partsOf u).significant := rfl
      rw [← hrest, hsig]
      by_cases hin : InI32 ((partsOf u).point32 + e)
      · dsimp only
        rw [if_neg (not_not.2 hin), if_neg (not_not.2 hin), ok_bind]
        dsimp only
        by_cases hempty : (partsOf u).rest ≠ []
        · rw [if_pos hempty, if_pos hempty]
          exact error_bind _ _
        · rw [if_neg hempty, if_neg hempty]
          by_cases hzero : (partsOf u).significant = []
          · rw [if_pos hzero, if_pos hzero]
            rfl
          · rw [if_neg hzero, if_neg hzero]
            by_cases hrange : 40 < (partsOf u).significant.length ∨
                ¬ (-129 ≤ (partsOf u).point32 + e ∧ (partsOf u).point32 + e ≤ 126)
            · rw [if_pos hrange, if_pos hrange]
              exact error_bind _ _
            · rw [if_neg hrange, if_neg hrange]
              rfl
      · dsimp only
        rw [if_pos hin, if_pos hin]
        exact error_bind _ _
  · rw [if_pos hlow, if_pos hlow]
    exact error_bind _ _

/-! ### The parts of a text -/

namespace Parts

variable (p : Parts)

/-- What the zeros at the start of the digits leave of the place of the point. -/
lemma intDigits_sub_fracZeros (h : ∀ c ∈ p.frac.getD [], c.isDigit = true) :
    (p.intDigits.length : ℤ) - p.fracZeros =
      p.int.length - ((p.mantissa.map digitVal).takeWhile (· = 0)).length := by
  have hlen : ((p.int.map digitVal).takeWhile (· = 0)).length + p.intDigits.length =
      p.int.length := by
    rw [intDigits, ← List.length_append, List.takeWhile_append_dropWhile, List.length_map]
  have htake : (p.frac.getD []).takeWhile Char.isDigit = p.frac.getD [] :=
    List.takeWhile_eq_self_iff.2 h
  unfold mantissa fracZeros leadingZeros
  rw [List.map_append, htake]
  by_cases hnil : p.intDigits = []
  · have hzeros : ∀ d ∈ p.int.map digitVal, decide (d = 0) = true :=
      List.dropWhile_eq_nil_iff.1 hnil
    rw [if_pos hnil, List.takeWhile_append_of_pos hzeros, List.length_append, List.length_map, hnil,
      List.length_nil]
    omega
  · have hstop : ((p.int.map digitVal).takeWhile (· = 0)).length ≠ (p.int.map digitVal).length := by
      intro hall
      rw [List.length_map] at hall
      exact hnil (List.eq_nil_of_length_eq_zero (by omega))
    rw [if_neg hnil, List.takeWhile_append, if_neg hstop]
    omega

/-- The text is accepted, with a number for its exponent. -/
def Accepted (e : ℤ) : Prop :=
  p.rest = [] ∧ (p.significant = [] ∨
    p.significant.length ≤ 40 ∧ -129 ≤ p.point32 + e ∧ p.point32 + e ≤ 126)

end Parts

/-- Nothing overflows, only literals that fit are accepted, and their number comes back. -/
def Faithful (s : List Char) : Prop :=
  encodeOracleNumberDecimal s ≠ .error .overflow ∧
    ∀ bytes, encodeOracleNumberDecimal s = .ok bytes → ∃ l : Literal, l.text = s ∧ l.InRange ∧
      ∃ t : Literal, decodeOracleNumber bytes = .ok t.text ∧ t.value = l.value

/-- The point and the exponent stay in 32 bits, and a text that is accepted has no white space
around it, a digit, and not too many of them in front of the point. -/
structure Sound (s : List Char) : Prop where
  point : InI32 (partsOf (trim s)).point32
  exponent : ∀ e ∈ (partsOf (trim s)).exponent?, InI32 ((partsOf (trim s)).point32 + e)
  trimmed : ∀ e ∈ (partsOf (trim s)).exponent?, (partsOf (trim s)).Accepted e → trim s = s
  mantissa : ∀ e ∈ (partsOf (trim s)).exponent?, (partsOf (trim s)).Accepted e →
    (partsOf (trim s)).mantissa ≠ []
  short : ∀ e ∈ (partsOf (trim s)).exponent?, (partsOf (trim s)).Accepted e →
    (partsOf (trim s)).intDigits.length < 2147483648

/-! ### A literal comes back -/

lemma digitVal_lt {c : Char} (h : c.isDigit = true) : digitVal c < 10 := by
  have hle : c.toNat ≤ 57 := by
    rw [Char.isDigit, Bool.and_eq_true, decide_eq_true_eq, decide_eq_true_eq] at h
    exact h.2
  have hzero : '0'.toNat = 48 := rfl
  rw [digitVal, hzero]
  omega

/-- The digits of a mantissa neither start nor end with a zero. -/
lemma significant_digits {p : Parts} (hdigits : ∀ c ∈ p.mantissa, c.isDigit = true)
    (hne : p.significant ≠ []) : (∀ d ∈ p.significant, d < 10) ∧
      (∃ d ds, p.significant = d :: ds ∧ d ≠ 0) ∧ ∀ d ∈ p.significant.getLast?, d ≠ 0 := by
  have hleading : p.significant <+: (p.mantissa.map digitVal).dropWhile (· = 0) :=
    List.rdropWhile_prefix _ _
  refine ⟨?_, ?_, ?_⟩
  · intro d hd
    obtain ⟨c, hc, rfl⟩ := List.mem_map.1
      ((List.dropWhile_suffix _).subset (hleading.subset hd))
    exact digitVal_lt (hdigits c hc)
  · obtain ⟨d, ds, hds⟩ := List.exists_cons_of_ne_nil hne
    obtain ⟨t, ht⟩ := hleading
    rw [hds, List.cons_append] at ht
    refine ⟨d, ds, hds, fun hzero => ?_⟩
    have hhead := List.head_dropWhile_not (l := p.mantissa.map digitVal)
      (fun d : ℕ => decide (d = 0)) (by rw [← ht]; exact List.cons_ne_nil _ _)
    simp only [← ht, List.head_cons, hzero] at hhead
    cases hhead
  · intro d hd hzero
    have hlast := List.rdropWhile_last_not (fun d : ℕ => decide (d = 0))
      ((p.mantissa.map digitVal).dropWhile (· = 0)) hne
    have heq : p.significant.getLast hne = d := by
      rw [List.getLast?_eq_getLast_of_ne_nil hne] at hd
      exact Option.some.inj hd
    apply hlast
    show decide (p.significant.getLast hne = 0) = true
    rw [heq, hzero]
    rfl

/-- The digits of a mantissa that fits are those of a number. -/
lemma normal_significant {p : Parts} {point : ℤ} (hdigits : ∀ c ∈ p.mantissa, c.isDigit = true)
    (hne : p.significant ≠ []) (hlen : p.significant.length ≤ 40)
    (hpoint : -129 ≤ point ∧ point ≤ 126) : Normal p.significant point := by
  obtain ⟨hlt, hfirst, hlast⟩ := significant_digits hdigits hne
  exact ⟨hlt, hfirst, hlast, hlen, hpoint⟩

/-- The number zero comes back. -/
def zeroLiteral : Literal :=
  ⟨⟨[], ['0'], none, none, []⟩, .inl rfl, by simp, by simp, by simp, rfl, by simp [Parts.mantissa]⟩

lemma zeroLiteral_value : zeroLiteral.value = 0 := by
  rw [Literal.value_eq]
  show _ * ((ofDigits [] : ℕ) : ℚ) * _ = 0
  simp [ofDigits]

namespace Parts

variable (p : Parts)

/-- The bytes of a text that is accepted. -/
def bytes (e : ℤ) : List UInt8 :=
  if p.significant = [] then [0x80]
  else encodeDigits (decide (p.sign = ['-'])) p.significant (p.point32 + e)

variable {p}

/-- What a text that is accepted is encoded to. -/
lemma encode_of_accepted {e : ℤ} (hpoint : InI32 p.point32) (hexp : p.exponent? = some e)
    (hsum : InI32 (p.point32 + e)) (h : p.Accepted e) : p.encode = .ok (p.bytes e) := by
  unfold encode bytes
  rw [if_neg (not_not.2 hpoint), hexp]
  dsimp only
  rw [if_neg (not_not.2 hsum), if_neg (not_not.2 h.1)]
  split_ifs with hzero hrange
  · rfl
  · obtain ⟨hlen, hmem⟩ := h.2.resolve_left hzero
    exact absurd hrange (by rw [not_or, not_not]; exact ⟨Nat.not_lt.2 hlen, hmem⟩)
  · rfl

/-- A text that is encoded is accepted. -/
lemma accepted_of_encode {bs : List UInt8} (h : p.encode = .ok bs) :
    ∃ e, p.exponent? = some e ∧ p.Accepted e ∧ bs = p.bytes e := by
  unfold encode at h
  by_cases hpoint : InI32 p.point32
  · rw [if_neg (not_not.2 hpoint)] at h
    cases hexp : p.exponent? with
    | none =>
      rw [hexp] at h
      cases h
    | some e =>
      rw [hexp] at h
      dsimp only at h
      split_ifs at h with hsum hrest hzero hrange
      · refine ⟨e, rfl, ⟨not_not.1 hrest, .inl hzero⟩, ?_⟩
        rw [bytes, if_pos hzero]
        exact (Except.ok.inj h).symm
      · rw [not_or, not_not, Nat.not_lt] at hrange
        refine ⟨e, rfl, ⟨not_not.1 hrest, .inr hrange⟩, ?_⟩
        rw [bytes, if_neg hzero]
        exact (Except.ok.inj h).symm
  · rw [if_pos hpoint] at h
    cases h

variable (p) in
/-- When something overflows. -/
lemma encode_eq_overflow_iff : p.encode = .error .overflow ↔
    ¬ InI32 p.point32 ∨ ∃ e ∈ p.exponent?, ¬ InI32 (p.point32 + e) := by
  unfold encode
  cases p.exponent? with
  | none =>
    split_ifs <;> simp_all
  | some e =>
    dsimp only
    split_ifs <;> simp_all

end Parts

lemma frac_digits (l : Literal) : ∀ c ∈ l.frac.getD [], c.isDigit = true := by
  intro c hc
  cases hf : l.frac with
  | none =>
    rw [hf] at hc
    cases hc
  | some f =>
    rw [hf] at hc
    exact l.frac_ok f hf c hc

lemma mantissa_digits (l : Literal) : ∀ c ∈ l.mantissa, c.isDigit = true := by
  intro c hc
  rcases List.mem_append.1 hc with hc | hc
  · exact l.int_ok c hc
  · exact frac_digits l c hc

/-- A literal that is accepted comes back with its number. -/
lemma literal_back {l : Literal} {e : ℤ} (hpoint : l.point32 + e = l.point)
    (h : l.toParts.Accepted e) : ∃ t : Literal,
      decodeOracleNumber (l.toParts.bytes e) = .ok t.text ∧ t.value = l.value := by
  unfold Parts.bytes
  by_cases hzero : l.significant = []
  · refine ⟨zeroLiteral, by rw [if_pos hzero]; rfl, ?_⟩
    rw [zeroLiteral_value, Literal.value_eq, hzero]
    simp [ofDigits]
  · obtain ⟨hlen, hmem⟩ := h.2.resolve_left hzero
    have hnormal := normal_significant (mantissa_digits l) hzero hlen hmem
    obtain ⟨t, htext, hvalue⟩ := renderNumber_literal hnormal (!decide (l.sign = ['-']))
    refine ⟨t, ?_, ?_⟩
    · rw [if_neg hzero, decode_encodeDigits hnormal, htext]
    · have hsign : (if (!decide (l.sign = ['-'])) = true then (1 : ℚ) else -1) =
          if l.sign = ['-'] then -1 else 1 := by
        by_cases hs : l.sign = ['-'] <;> simp [hs]
      rw [hvalue, hsign, hpoint, Literal.value_eq]

/-- The exponent of a literal, where it was read. -/
lemma exponent_eq {l : Literal} {e : ℤ} (h : l.exponent? = some e) : l.exponent = e := by
  unfold Parts.exponent? at h
  unfold Literal.exponent
  cases hexp : l.exp with
  | none =>
    rw [hexp] at h
    exact Option.some.inj h
  | some x =>
    rw [hexp, Option.elim_some] at h
    obtain ⟨n, hn, he⟩ := Option.map_eq_some_iff.1 h
    unfold parseI32 at hn
    split_ifs at hn
    rw [Option.elim_some, ← he, ← Option.some.inj hn]
    split_ifs <;> simp

/-- The point of a literal, from the digits in front of it and the zeros behind it. -/
lemma point_eq (l : Literal) : l.point = l.intDigits.length - l.fracZeros + l.exponent := by
  rw [l.intDigits_sub_fracZeros (frac_digits l), Literal.point]

/-- The point of a literal is in 32 bits what it is, if there are not too many digits. -/
lemma point32_eq {l : Literal} (h : l.intDigits.length < 2147483648) :
    l.point32 + l.exponent = l.point := by
  have hcast : asI32 l.intDigits.length = l.intDigits.length :=
    Int.bmod_eq_of_le (by omega) (by omega)
  rw [Parts.point32, hcast, point_eq]

/-- Digits in front of the point are significant. -/
lemma significant_ne_nil {p : Parts} (h : p.intDigits ≠ []) : p.significant ≠ [] := by
  intro hnil
  have hall := List.rdropWhile_eq_nil_iff.1 hnil
  have hint : ∀ d ∈ p.mantissa.map digitVal, d = 0 := by
    have hempty : (p.mantissa.map digitVal).dropWhile (· = 0) = [] := by
      by_contra hne
      have hhead := List.head_dropWhile_not (l := p.mantissa.map digitVal)
        (fun d : ℕ => decide (d = 0)) hne
      rw [hall _ (List.head_mem hne)] at hhead
      cases hhead
    simpa using List.dropWhile_eq_nil_iff.1 hempty
  refine h (List.dropWhile_eq_nil_iff.2 fun d hd => decide_eq_true (hint d ?_))
  rw [Parts.mantissa, List.map_append]
  exact List.mem_append_left _ hd

/-- A number with too many digits is changed by a multiple of `2 ^ 32`. -/
lemma asI32_of_le {n : ℕ} (h : 2147483648 ≤ n) : asI32 n + 4294967296 ≤ n := by
  obtain ⟨-, hlt⟩ := asI32_mem n
  have hsub := Int.bmod_eq_self_sub_mul_bdiv n 4294967296
  unfold asI32 at hlt ⊢
  omega

/-- A text that is accepted, with a digit, is a literal. -/
lemma exists_literal {u : List Char} {e : ℤ} (hexp : (partsOf u).exponent? = some e)
    (hrest : (partsOf u).rest = []) (hmantissa : (partsOf u).mantissa ≠ []) :
    ∃ l : Literal, l.toParts = partsOf u := by
  have hspan : ∀ s : List Char, ∀ c ∈ s.takeWhile Char.isDigit, c.isDigit = true :=
    fun s c hc => List.mem_takeWhile_imp hc
  refine ⟨⟨partsOf u, isSign_signOf u, hspan _, ?_, ?_, hrest, hmantissa⟩, rfl⟩
  · intro f hf
    have hf : (fracOf ((signOf u).2.dropWhile Char.isDigit)).1 = some f := hf
    unfold fracOf at hf
    split at hf
    · obtain rfl := Option.some.inj hf
      exact hspan _
    · cases hf
  · intro x hx
    have hx : (expOf (fracOf ((signOf u).2.dropWhile Char.isDigit)).2).1 = some x := hx
    have hparse : exponentOf (some x) = some e := by
      rw [← hx]
      exact hexp
    unfold expOf at hx
    split at hx
    · split_ifs at hx with hletter
      obtain rfl := Option.some.inj hx
      refine ⟨hletter, isSign_signOf _, ?_, hspan _⟩
      rintro hnil
      rw [exponentOf, Option.elim_some] at hparse
      dsimp only at hparse hnil
      rw [hnil] at hparse
      cases hparse
    · cases hx

lemma trim_eq_self {s : List Char} (h : ∀ c ∈ s, isSpace c = false) : trim s = s := by
  have hstart : trimStart s = s := List.dropWhile_eq_self_iff.2 fun hlt => by
    rw [h _ (List.getElem_mem hlt)]
    decide
  have hend : trimEnd s = s := List.rdropWhile_eq_self_iff.2 fun hne => by
    rw [h _ (List.getLast_mem hne)]
    decide
  rw [trim, hstart, hend]

/-- The characters of a literal. -/
lemma Literal.mem_text {l : Literal} {c : Char} (hc : c ∈ l.text) :
    c.isDigit = true ∨ c ∈ ['-', '+', '.', 'e', 'E'] := by
  have hsign : ∀ {s : List Char}, IsSign s → ∀ c ∈ s, c ∈ ['-', '+', '.', 'e', 'E'] := by
    intro s hs c hc
    rcases hs with rfl | rfl | rfl
    · cases hc
    · rw [List.mem_singleton.1 hc]
      decide
    · rw [List.mem_singleton.1 hc]
      decide
  rw [l.text_eq] at hc
  rcases List.mem_append.1 hc with hc | hc
  · exact .inr (hsign l.sign_ok c hc)
  rcases List.mem_append.1 hc with hc | hc
  · exact .inl (l.int_ok c hc)
  rcases List.mem_append.1 hc with hc | hc
  · unfold Literal.fracText at hc
    cases hf : l.frac with
    | none =>
      rw [hf] at hc
      cases hc
    | some f =>
      rw [hf] at hc
      rcases List.mem_cons.1 hc with rfl | hc
      · exact .inr (by decide)
      · exact .inl (l.frac_ok f hf c hc)
  · unfold Literal.expText at hc
    cases he : l.exp with
    | none =>
      rw [he] at hc
      cases hc
    | some x =>
      rw [he] at hc
      obtain ⟨hletter, hsigned, -, hdigits⟩ := l.exp_ok x he
      rcases List.mem_cons.1 hc with rfl | hc
      · rcases hletter with hletter | hletter <;> rw [hletter] <;> exact .inr (by decide)
      · rcases List.mem_append.1 hc with hc | hc
        · exact .inr (hsign hsigned c hc)
        · exact .inl (hdigits c hc)

/-- The characters of a literal are no white space. -/
lemma Literal.trim_text (l : Literal) : trim l.text = l.text := by
  refine trim_eq_self fun c hc => ?_
  rcases Literal.mem_text hc with hdigit | hmem
  · exact isSpace_of_isDigit hdigit
  · simp only [List.mem_cons, List.not_mem_nil, or_false] at hmem
    rcases hmem with rfl | rfl | rfl | rfl | rfl <;> rfl

/-! ### The texts that are treated as they should be -/

lemma sound_of_faithful {s : List Char} (hne : trim s ≠ []) (h : Faithful s) : Sound s := by
  obtain ⟨hover, hok⟩ := h
  rw [encode_eq s hne, ne_eq, Parts.encode_eq_overflow_iff, not_or, not_not] at hover
  obtain ⟨hpoint, hexps⟩ := hover
  have hexp : ∀ e ∈ (partsOf (trim s)).exponent?, InI32 ((partsOf (trim s)).point32 + e) :=
    fun e he => not_not.1 fun hnot => hexps ⟨e, he, hnot⟩
  -- a text that is accepted is the text of a literal
  have hlit : ∀ e ∈ (partsOf (trim s)).exponent?, (partsOf (trim s)).Accepted e →
      ∃ l : Literal, trim s = s ∧ partsOf (trim s) = l.toParts ∧ l.InRange := by
    intro e he hacc
    obtain ⟨l, htext, hrange, -⟩ :=
      hok _ ((encode_eq s hne).trans (Parts.encode_of_accepted hpoint he (hexp e he) hacc))
    have htrim : trim s = s := by
      rw [← htext]
      exact l.trim_text
    refine ⟨l, htrim, ?_, hrange⟩
    rw [htrim, ← htext, l.partsOf_text]
  refine ⟨hpoint, hexp, fun e he hacc => (hlit e he hacc).choose_spec.1, ?_, ?_⟩
  · intro e he hacc
    obtain ⟨l, -, hparts, -⟩ := hlit e he hacc
    rw [hparts]
    exact l.mantissa_ok
  · intro e he hacc
    obtain ⟨l, -, hparts, hrange⟩ := hlit e he hacc
    rw [hparts] at he hacc ⊢
    by_contra hlong
    rw [Nat.not_lt] at hlong
    have hint : l.intDigits ≠ [] := by
      intro hnil
      rw [hnil] at hlong
      exact absurd hlong (by decide)
    have hsig := significant_ne_nil hint
    have hzeros : l.fracZeros = 0 := if_neg hint
    -- the exponent of the literal is far beyond that of the bytes
    have hbytes := (hacc.2.resolve_left hsig).2
    have htrue := hrange.2 hsig
    have hwrap := asI32_of_le hlong
    rw [point_eq, hzeros, exponent_eq he] at htrue
    rw [Parts.point32, hzeros] at hbytes
    omega

/-- **A text is treated as it should be exactly if it is sound**, or blank. -/
theorem faithful_iff_sound (s : List Char) : Faithful s ↔ trim s = [] ∨ Sound s := by
  constructor
  · intro h
    by_cases hblank : trim s = []
    · exact .inl hblank
    · exact .inr (sound_of_faithful hblank h)
  · intro h
    by_cases hblank : trim s = []
    · have hempty : encodeOracleNumberDecimal s = .error (.conversion "empty NUMBER value") := by
        unfold encodeOracleNumberDecimal
        exact if_pos hblank
      refine ⟨?_, fun bytes hbytes => ?_⟩
      · rw [hempty]
        decide
      · rw [hempty] at hbytes
        cases hbytes
    · have hsound := h.resolve_left hblank
      refine ⟨?_, fun bytes hbytes => ?_⟩
      · rw [encode_eq s hblank, ne_eq, Parts.encode_eq_overflow_iff, not_or, not_not]
        exact ⟨hsound.point, fun ⟨e, he, hnot⟩ => hnot (hsound.exponent e he)⟩
      · rw [encode_eq s hblank] at hbytes
        obtain ⟨e, he, hacc, rfl⟩ := Parts.accepted_of_encode hbytes
        obtain ⟨l, hl⟩ := exists_literal he hacc.1 (hsound.mantissa e he hacc)
        have hshort := hsound.short e he hacc
        have htext : l.text = s := by
          rw [hl, text_partsOf]
          exact hsound.trimmed e he hacc
        rw [← hl] at he hacc hshort ⊢
        have hpoint := point32_eq hshort
        rw [exponent_eq he] at hpoint
        refine ⟨l, htext, ?_, literal_back hpoint hacc⟩
        rw [Literal.InRange]
        rcases hacc.2 with hzero | ⟨hlen, hmem⟩
        · exact ⟨by rw [hzero]; decide, fun hne => absurd hzero hne⟩
        · rw [hpoint] at hmem
          exact ⟨hlen, fun _ => hmem⟩

/-- A point without a digit is taken for zero. -/
theorem point_not_faithful : ¬ Faithful ['.'] := by
  rintro ⟨-, hok⟩
  obtain ⟨l, htext, -⟩ := hok [0x80] rfl
  refine l.mantissa_ok ?_
  rw [← l.partsOf_text, htext]
  rfl

end DbSaci.Wire
