import DbSaci.Wire.NumberValue
import DbSaci.Wire.SqlTokens

set_option relaxedAutoImplicit false
set_option autoImplicit false

/-!
# Numbers as literals

The bytes of a `NUMBER` are read as the text of a decimal number, which is put into a statement as
it is. The text is that of the number the bytes denote. It is part of the token next to it if there
is no blank between them: a negative number behind a minus starts a comment.

## Main definitions

* `IsDecimal` — a text of digits, with a sign and a point or not, and its number.
* `AcceptedNumber` — the bytes that are read.
* `bindSqlLiteral` — a value as a literal.
* `SafeLiteral` — what is read from bytes is their number, and does not change a statement.

## Main results

* `decode_accepted`, `decode_rejected` — what is read from bytes, and from which nothing is.
* `safeLiteral_iff` — where a number is a safe literal.
-/

namespace DbSaci.Wire

open Decimal

/-! ### The bytes that are read -/

/-- A text of the form `-?digits(.digits)?`, and the number that it denotes. -/
def IsDecimal (negative : Bool) (text : List Char) (v : ℚ) : Prop :=
  ∃ (int : List Char) (frac : Option (List Char)),
    text = (if negative then ['-'] else []) ++ (int ++ frac.elim [] fun f => '.' :: f) ∧
    int ≠ [] ∧ (∀ f ∈ frac, f ≠ []) ∧ (∀ c ∈ int ++ frac.getD [], c.isDigit = true) ∧
    v = (if negative then -1 else 1) * ofDigits ((int ++ frac.getD []).map digitVal) *
      10 ^ (-((frac.getD []).length : ℤ))

/-- The sign of a number is the highest bit of its exponent. -/
def isNegative (raw : List UInt8) : Bool := raw.headD 0 &&& 0x80 = 0

/-- A byte of a mantissa as a pair of digits. -/
def pairOf (negative : Bool) (byte : UInt8) : ℕ :=
  (if !negative then byte - 1 else 101 - byte).toNat

/-- The mantissa, without the byte 102 that a negative number may end with. -/
def mantissaOf (raw : List UInt8) : List UInt8 :=
  if isNegative raw = true ∧ raw.tail.getLast? = some 102 then raw.tail.dropLast else raw.tail

/-- The bytes that are read: zero, or an exponent and pairs of digits that are not just one pair of
zeros. -/
def AcceptedNumber (raw : List UInt8) : Prop :=
  raw = [0x80] ∨ (∀ byte ∈ mantissaOf raw, pairOf (isNegative raw) byte ≤ 99) ∧
    mantissaOf raw ≠ [] ∧ (mantissaOf raw).map (pairOf (isNegative raw)) ≠ [0]

/-! ### Digits -/

lemma foldl_pairs (ps : List ℕ) (n : ℕ) :
    ps.foldl (fun n p => n * 100 + p) n = n * 100 ^ ps.length + ofPairs ps := by
  rw [ofPairs]
  induction ps generalizing n with
  | nil => simp
  | cons p ps ih =>
    rw [List.foldl_cons, List.foldl_cons, ih, ih (0 * 100 + p), List.length_cons]
    ring

/-- The first pair is the highest one. -/
lemma ofPairs_cons (p : ℕ) (ps : List ℕ) :
    ofPairs (p :: ps) = p * 100 ^ ps.length + ofPairs ps := by
  rw [ofPairs, List.foldl_cons, foldl_pairs, Nat.zero_mul, Nat.zero_add]

lemma ofDigits_concat (ds : List ℕ) (d : ℕ) : ofDigits (ds ++ [d]) = ofDigits ds * 10 + d := by
  rw [ofDigits, List.foldl_append, ofDigits, List.foldl_cons, List.foldl_nil]

/-- The higher digit of a pair: a leading zero moves the point. -/
def pushHigh (digits : List ℕ) (decimalPoint : ℤ) (high : ℕ) : List ℕ × ℤ :=
  if high = 0 ∧ digits = [] then (digits, decimalPoint - 1) else (digits ++ [high], decimalPoint)

section Digits

variable {negative : Bool} {byte : UInt8} {mantissa : List UInt8} (digits : List ℕ)
  (decimalPoint : ℤ)

lemma mantissaDigits_cons (h : pairOf negative byte ≤ 99) :
    mantissaDigits (!negative) (byte :: mantissa) digits decimalPoint =
      mantissaDigits (!negative) mantissa
        (if pairOf negative byte % 10 ≠ 0 ∨ mantissa ≠ [] then
          (pushHigh digits decimalPoint (pairOf negative byte / 10)).1 ++
            [pairOf negative byte % 10]
        else (pushHigh digits decimalPoint (pairOf negative byte / 10)).1)
        (pushHigh digits decimalPoint (pairOf negative byte / 10)).2 := by
  have hpair : ¬ 99 < (if !negative then byte - 1 else 101 - byte).toNat := Nat.not_lt.2 h
  rw [mantissaDigits, pushHigh, pairOf]
  dsimp only
  rw [if_neg hpair]

/-- What the higher digit does to the number, and to the place of the next digit. -/
lemma pushHigh_spec {high : ℕ} (hhigh : high < 10) (hdigits : ∀ d ∈ digits, d < 10) :
    (∀ d ∈ (pushHigh digits decimalPoint high).1, d < 10) ∧
      ofDigits (pushHigh digits decimalPoint high).1 = ofDigits digits * 10 + high ∧
      (pushHigh digits decimalPoint high).2 - (pushHigh digits decimalPoint high).1.length =
        decimalPoint - digits.length - 1 ∧
      ((pushHigh digits decimalPoint high).1 = [] ↔ digits = [] ∧ high = 0) := by
  unfold pushHigh
  split_ifs with hzero
  · obtain ⟨rfl, rfl⟩ := hzero
    exact ⟨hdigits, rfl, by dsimp only; omega, by simp⟩
  · refine ⟨?_, ofDigits_concat digits high, ?_, ?_⟩
    · intro d hd
      rcases List.mem_append.1 hd with hd | hd
      · exact hdigits d hd
      · rwa [List.mem_singleton.1 hd]
    · dsimp only
      rw [List.length_append, List.length_singleton]
      push_cast
      omega
    · refine iff_of_false (by simp) fun h => hzero ⟨h.2, h.1⟩

/-- **What is read from the pairs of a mantissa**: digits of the same number at the same place. -/
theorem mantissaDigits_ok (hpairs : ∀ byte ∈ mantissa, pairOf negative byte ≤ 99)
    (hdigits : ∀ d ∈ digits, d < 10) :
    ∃ ds point, mantissaDigits (!negative) mantissa digits decimalPoint = .ok (ds, point) ∧
      (∀ d ∈ ds, d < 10) ∧
      (ofDigits ds : ℚ) * 10 ^ (point - ds.length) =
        ((ofDigits digits * 100 ^ mantissa.length +
          ofPairs (mantissa.map (pairOf negative)) : ℕ) : ℚ) *
          10 ^ (decimalPoint - digits.length - 2 * mantissa.length) ∧
      (ds = [] ↔ digits = [] ∧ (mantissa = [] ∨ mantissa.map (pairOf negative) = [0])) := by
  induction mantissa generalizing digits decimalPoint with
  | nil =>
    refine ⟨digits, decimalPoint, rfl, hdigits, ?_, by simp⟩
    simp [ofPairs]
  | cons byte mantissa ih =>
    obtain ⟨hpair, hrest⟩ := List.forall_mem_cons.1 hpairs
    have hhigh : pairOf negative byte / 10 < 10 := by omega
    obtain ⟨hlt, hvalue, hplace, hnil⟩ := pushHigh_spec digits decimalPoint hhigh hdigits
    rw [mantissaDigits_cons digits decimalPoint hpair]
    generalize (pushHigh digits decimalPoint (pairOf negative byte / 10)).2 = point₁ at hplace ⊢
    generalize (pushHigh digits decimalPoint (pairOf negative byte / 10)).1 = digits₁ at *
    rw [List.map_cons]
    generalize pairOf negative byte = p at *
    by_cases hlow : p % 10 ≠ 0 ∨ mantissa ≠ []
    · have hlt₂ : ∀ d ∈ digits₁ ++ [p % 10], d < 10 := by
        intro d hd
        rcases List.mem_append.1 hd with hd | hd
        · exact hlt d hd
        · rw [List.mem_singleton.1 hd]
          omega
      obtain ⟨ds, point, hok, hds, hnumber, hempty⟩ :=
        ih (digits₁ ++ [p % 10]) point₁ hrest hlt₂
      have hsum : ofDigits (digits₁ ++ [p % 10]) = ofDigits digits * 100 + p := by
        rw [ofDigits_concat, hvalue]
        omega
      have hall : ofDigits (digits₁ ++ [p % 10]) * 100 ^ mantissa.length +
          ofPairs (mantissa.map (pairOf negative)) =
          ofDigits digits * 100 ^ (byte :: mantissa).length +
            ofPairs (p :: mantissa.map (pairOf negative)) := by
        rw [hsum, ofPairs_cons, List.length_map, List.length_cons]
        ring
      have hexponent : point₁ - (digits₁ ++ [p % 10]).length - 2 * mantissa.length =
          decimalPoint - digits.length - 2 * (byte :: mantissa).length := by
        rw [List.length_append, List.length_singleton, List.length_cons]
        push_cast
        omega
      rw [hall, hexponent] at hnumber
      refine ⟨ds, point, by rw [if_pos hlow]; exact hok, hds, hnumber, ?_⟩
      rw [hempty]
      refine iff_of_false (by simp) ?_
      rintro ⟨-, hcons | hzero⟩
      · cases hcons
      · obtain ⟨rfl, hmap⟩ := List.cons.inj hzero
        exact hlow.elim (fun h => h rfl) fun h => h (List.map_eq_nil_iff.1 hmap)
    · -- a zero at the end is left out
      obtain ⟨hten, rfl⟩ : p % 10 = 0 ∧ mantissa = [] := by
        rw [not_or, not_not, not_not] at hlow
        exact hlow
      have hnumber : ofDigits digits * 100 ^ [byte].length + ofPairs [p] =
          ofDigits digits₁ * 10 := by
        have hone : ofPairs [p] = p := by rw [ofPairs, List.foldl_cons, List.foldl_nil]; omega
        rw [hone, hvalue, List.length_singleton]
        omega
      have hpower : (10 : ℚ) ^ (point₁ - digits₁.length) =
          10 * 10 ^ (decimalPoint - digits.length - 2 * ([byte].length : ℕ)) := by
        rw [← zpow_one_add₀ (by norm_num), hplace, List.length_singleton]
        congr 1
        push_cast
        omega
      refine ⟨digits₁, point₁, by rw [if_neg hlow]; rfl, hlt, ?_, ?_⟩
      · rw [List.map_nil, hnumber, hpower]
        push_cast
        ring
      · rw [hnil, List.map_nil]
        refine and_congr_right fun _ => ?_
        rw [List.cons.injEq, and_iff_left rfl, or_iff_right (List.cons_ne_nil _ _)]
        omega

/-- A pair that is none is rejected. -/
lemma mantissaDigits_error (h : ∃ byte ∈ mantissa, 99 < pairOf negative byte) :
    ∃ e, mantissaDigits (!negative) mantissa digits decimalPoint = .error e := by
  induction mantissa generalizing digits decimalPoint with
  | nil =>
    obtain ⟨byte, hbyte, -⟩ := h
    cases hbyte
  | cons byte mantissa ih =>
    by_cases hpair : pairOf negative byte ≤ 99
    · rw [mantissaDigits_cons digits decimalPoint hpair]
      obtain ⟨byte', hmem, hgreat⟩ := h
      refine ih _ _ ⟨byte', ?_, hgreat⟩
      rcases List.mem_cons.1 hmem with rfl | hmem
      · exact absurd hpair (Nat.not_le.2 hgreat)
      · exact hmem
    · refine ⟨"invalid Oracle NUMBER bind", ?_⟩
      rw [mantissaDigits]
      exact if_pos (Nat.lt_of_not_le hpair)

end Digits

/-! ### The text of a number -/

section Decode

variable {raw : List UInt8}

/-- Where the point of a number is at first. -/
def pointOf (raw : List UInt8) : ℤ :=
  (((if isNegative raw then ~~~(raw.headD 0) else raw.headD 0).toNat : ℤ) - 193) * 2 + 2

/-- What is read in the steps of the model: the digits of the mantissa, and their text. -/
lemma decode_eq (hne : raw ≠ []) (hzero : raw ≠ [0x80]) :
    decodeOracleNumber raw =
      (mantissaDigits (!isNegative raw) (mantissaOf raw) [] (pointOf raw)).bind fun r =>
        if r.1 = [] then .error "invalid Oracle NUMBER bind"
        else .ok (renderNumber (!isNegative raw) r.1 r.2) := by
  obtain ⟨exponent, mantissa, rfl⟩ := List.exists_cons_of_ne_nil hne
  have hsign : (decide (exponent &&& 0x80 ≠ 0)) = !isNegative (exponent :: mantissa) :=
    decide_not
  rw [decodeOracleNumber, if_neg hzero]
  dsimp only
  rw [hsign, mantissaOf, pointOf, List.headD_cons, List.tail_cons]
  cases isNegative (exponent :: mantissa) with
  | true =>
    simp only [Bool.not_true, if_true, true_and, Bool.false_eq_true, if_false]
    cases mantissaDigits false _ [] _ with
    | error e => rfl
    | ok r => rfl
  | false =>
    simp only [Bool.not_false, if_true, false_and, Bool.false_eq_true, if_false,
      Bool.true_eq_false]
    cases mantissaDigits true _ [] _ with
    | error e => rfl
    | ok r => rfl

/-- The number of bytes, by their mantissa. -/
lemma numberValue_eq (hne : raw ≠ []) : numberValue raw =
    (if isNegative raw then -1 else 1) *
      ofPairs ((mantissaOf raw).map (pairOf (isNegative raw))) *
      10 ^ (pointOf raw - 2 * (mantissaOf raw).length) := by
  obtain ⟨exponent, mantissa, rfl⟩ := List.exists_cons_of_ne_nil hne
  have hsign : (decide (exponent &&& 0x80 ≠ 0)) = !isNegative (exponent :: mantissa) :=
    decide_not
  rw [numberValue, hsign, hundred_zpow, mantissaOf, pointOf, List.headD_cons, List.tail_cons]
  cases isNegative (exponent :: mantissa) with
  | true =>
    simp only [Bool.not_true, if_true, true_and, Bool.false_eq_true, if_false]
    congr 2
    omega
  | false =>
    simp only [Bool.not_false, if_true, false_and, Bool.false_eq_true, if_false,
      Bool.true_eq_false]
    congr 2
    omega

/-- **The bytes that are accepted are read as a decimal text**, which is that of their number. -/
theorem decode_accepted (h : AcceptedNumber raw) :
    ∃ text, decodeOracleNumber raw = .ok text ∧
      IsDecimal (isNegative raw) text (numberValue raw) := by
  by_cases hraw : raw = [0x80]
  · subst hraw
    refine ⟨['0'], rfl, ['0'], none, rfl, List.cons_ne_nil _ _, nofun, by simp, ?_⟩
    rw [numberValue_eq (List.cons_ne_nil _ _)]
    simp [ofPairs, ofDigits, mantissaOf, digitVal]
  · obtain ⟨hpairs, hmantissa, hzero⟩ := h.resolve_left hraw
    have hne : raw ≠ [] := by
      rintro rfl
      exact hmantissa rfl
    obtain ⟨ds, point, hok, hds, hvalue, hnil⟩ :=
      mantissaDigits_ok [] (pointOf raw) hpairs (by simp)
    have hdsNe : ds ≠ [] := fun hempty => (hnil.1 hempty).2.elim hmantissa hzero
    obtain ⟨int, frac, htext, hint, hfrac, hdigits, hnumber⟩ :=
      @renderNumber_parts ds point hds hdsNe (!isNegative raw)
    refine ⟨renderNumber (!isNegative raw) ds point, ?_, int, frac, ?_, hint, hfrac, hdigits, ?_⟩
    · rw [decode_eq hne hraw, hok]
      exact if_neg hdsNe
    · rw [htext]
      cases isNegative raw with
      | true => rfl
      | false => rfl
    · rw [numberValue_eq hne, mul_assoc _ _ ((10 : ℚ) ^ (-((frac.getD []).length : ℤ))), hnumber,
        hvalue, mul_assoc]
      simp [ofDigits]

/-- No other bytes are read. -/
theorem decode_rejected (h : ¬ AcceptedNumber raw) : ∃ e, decodeOracleNumber raw = .error e := by
  obtain ⟨hraw, hrest⟩ := not_or.1 h
  by_cases hne : raw = []
  · exact ⟨_, by rw [hne, decodeOracleNumber, if_neg (List.cons_ne_nil _ _).symm]⟩
  rw [decode_eq hne hraw]
  by_cases hpairs : ∀ byte ∈ mantissaOf raw, pairOf (isNegative raw) byte ≤ 99
  · obtain ⟨ds, point, hok, -, -, hnil⟩ :=
      mantissaDigits_ok [] (pointOf raw) hpairs (by simp)
    have hds : ds = [] := by
      refine hnil.2 ⟨rfl, ?_⟩
      by_contra hboth
      exact hrest ⟨hpairs, (not_or.1 hboth).1, (not_or.1 hboth).2⟩
    refine ⟨"invalid Oracle NUMBER bind", ?_⟩
    rw [hok]
    exact if_pos hds
  · obtain ⟨byte, hbyte⟩ := not_forall.1 hpairs
    obtain ⟨hmem, hgreat⟩ := Classical.not_imp.1 hbyte
    obtain ⟨e, he⟩ := mantissaDigits_error [] (pointOf raw) ⟨byte, hmem, Nat.lt_of_not_le hgreat⟩
    exact ⟨e, by rw [he]; rfl⟩

end Decode

/-! ### The literal of a number -/

/-- `bind_sql_literal`: the literal, or the text of a conversion error. `display` is how a floating
point number is written, by its bits. -/
def bindSqlLiteral (display : UInt64 → List Char) : BindValue → Except String (List Char)
  | .null => .ok "NULL".toList
  | .string s => .ok ('\'' :: s.flatMap (fun c => if c = '\'' then ['\'', '\''] else [c]) ++ ['\''])
  | .number s => .ok s
  | .bytes b => .ok ("decode('".toList ++
      b.flatMap (fun x => [Nat.digitChar (x.toNat / 16), Nat.digitChar (x.toNat % 16)]) ++
      "', 'hex')".toList)
  | .temporal s => .ok s
  | .boolean b => .ok (if b then "TRUE".toList else "FALSE".toList)
  | .binaryDouble bits =>
    if bits.toNat / 2 ^ 52 % 2 ^ 11 ≠ 2047 then .ok (display bits)
    else .error "non-finite floating bind is unsupported"

/-- What is read from bytes is the decimal text of their number, and its literal does not change the
statement it is put into. -/
def SafeLiteral (display : UInt64 → List Char) (raw : List UInt8) (pre post : List Char) : Prop :=
  ∀ text, decodeOracleNumber raw = .ok text → IsDecimal (isNegative raw) text (numberValue raw) ∧
    ∃ literal, bindSqlLiteral display (.number text) = .ok literal ∧ Unchanged pre literal post

/-- The text of a decimal number starts with a digit behind the sign, and is a word behind it. -/
lemma IsDecimal.word {negative : Bool} {text : List Char} {v : ℚ} (h : IsDecimal negative text v) :
    ∃ d t, text = (if negative then ['-'] else []) ++ d :: t ∧ d.isDigit = true ∧
      ∀ a ∈ t, isLexemeChar a = true := by
  obtain ⟨int, frac, htext, hint, -, hdigits, -⟩ := h
  obtain ⟨d, ds, rfl⟩ := List.exists_cons_of_ne_nil hint
  refine ⟨d, ds ++ frac.elim [] fun f => '.' :: f, htext, hdigits d List.mem_cons_self, ?_⟩
  intro a ha
  rcases List.mem_append.1 ha with ha | ha
  · exact isLexemeChar_of_isDigit
      (hdigits a (List.mem_append_left _ (List.mem_cons_of_mem d ha)))
  · cases frac with
    | none => cases ha
    | some f =>
      rcases List.mem_cons.1 ha with rfl | ha
      · rfl
      · exact isLexemeChar_of_isDigit (hdigits a (List.mem_append_right _ ha))

/-- **Where a number is a safe literal**: where it is a token of its own. -/
theorem safeLiteral_iff (display : UInt64 → List Char) (raw : List UInt8)
    {pre name post : List Char} (h : IsPlaceholder pre name post) :
    SafeLiteral display raw pre post ↔
      ¬ AcceptedNumber raw ∨ Detached (isNegative raw) pre post := by
  by_cases haccepted : AcceptedNumber raw
  · obtain ⟨text, hok, hdecimal⟩ := decode_accepted haccepted
    obtain ⟨d, t, rfl, hd, ht⟩ := hdecimal.word
    rw [or_iff_right (not_not.2 haccepted), ← unchanged_iff h _ hd ht]
    constructor
    · intro hsafe
      obtain ⟨-, literal, hliteral, hunchanged⟩ := hsafe _ hok
      obtain rfl := Except.ok.inj hliteral
      exact hunchanged
    · intro hunchanged text htext
      obtain rfl := Except.ok.inj (hok.symm.trans htext)
      exact ⟨hdecimal, _, rfl, hunchanged⟩
  · refine iff_of_true (fun text htext => ?_) (Or.inl haccepted)
    obtain ⟨e, he⟩ := decode_rejected haccepted
    rw [he] at htext
    cases htext

/-- The literal of 1 between two blanks is safe. -/
theorem safeLiteral_iff_one :
    IsPlaceholder "SELECT ".toList "1".toList " FROM dual".toList ∧
      (SafeLiteral (fun _ => []) [0xC1, 2] "SELECT ".toList " FROM dual".toList ↔
        ¬ AcceptedNumber [0xC1, 2] ∨
          Detached (isNegative [0xC1, 2]) "SELECT ".toList " FROM dual".toList) :=
  have h : IsPlaceholder "SELECT ".toList "1".toList " FROM dual".toList := by decide
  ⟨h, safeLiteral_iff (fun _ => []) [0xC1, 2] h⟩

/-- **A negative number behind a minus makes the rest of the line a comment.** -/
theorem negative_behind_minus_not_safe :
    IsPlaceholder "SELECT 5-".toList "1".toList " FROM dual".toList ∧
      decodeOracleNumber [0x3E, 100, 102] = .ok "-1".toList ∧
      (SqlKind.comment, "--1 FROM dual".toList) ∈ sqlTokens "SELECT 5--1 FROM dual".toList ∧
      ¬ SafeLiteral (fun _ => []) [0x3E, 100, 102] "SELECT 5-".toList " FROM dual".toList := by
  refine ⟨by decide, by decide, by decide, fun hsafe => ?_⟩
  obtain ⟨-, literal, hliteral, hunchanged⟩ := hsafe "-1".toList (by decide)
  obtain rfl := Except.ok.inj hliteral
  exact absurd hunchanged (by decide)

end DbSaci.Wire
