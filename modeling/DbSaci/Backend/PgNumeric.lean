import DbSaci.Library.BigEndian
import DbSaci.Wire.NumberValue
import Mathlib.Data.List.TakeDrop

set_option relaxedAutoImplicit false
set_option autoImplicit false

/-!
# `NUMERIC` values of PostgreSQL

A `NUMERIC` comes as groups of four decimal digits with a weight, a sign and a display scale. Its
text is built first, and the bytes of a `NUMBER` are made of the text. What cannot be encoded is
delivered as no value.

## Main definitions

* `pgNumericFromSql` — the text of a value in binary form.
* `pgNumericToOracleBytes` — the bytes that are delivered.
* `PgNumeric` — a value, with its binary form and its number.

## Main results

* `PgNumeric.fromSql_encode` — the text of a value.
* `PgNumeric.delivered_iff` — which values are delivered.
-/

namespace DbSaci.Backend

open Wire Decimal

/-! ### The binary form is read -/

/-- `read`: two bytes as a number with a sign. -/
def readI16 (raw : List UInt8) (at_ : ℕ) : Except Failure Int16 :=
  if raw.length < at_ + 2 then .error (.conversion "numeric payload truncated")
  else .ok (UInt16.ofNat (ofBeBytes ((raw.drop at_).take 2))).toInt16

/-- So many groups. -/
def readGroups (raw : List UInt8) : ℕ → ℕ → Except Failure (List ℕ)
  | 0, _ => .ok []
  | n + 1, at_ => do
    let group ← readI16 raw at_
    let groups ← readGroups raw n (at_ + 2)
    return group.toUInt16.toNat :: groups

/-- `as usize`. -/
def asUsize (n : Int16) : ℕ := (n.toInt % 2 ^ 64).toNat

/-! ### The text -/

/-- The digits of the group at a place, or zeros. -/
def paddedGroup (groups : List ℕ) (index : ℕ) : List Char :=
  match groups[index]? with
  | none => "0000".toList
  | some g => padded 4 g

/-- The digits in front of the point. -/
def integerDigits (point : ℤ) (groups : List ℕ) : List Char :=
  if point ≤ 0 then ['0']
  else
    let trimmed := ((List.range point.toNat).flatMap (paddedGroup groups)).dropWhile (· = '0')
    if trimmed = [] then ['0'] else trimmed

/-- The digits behind the point. -/
def fractionDigits (point : ℤ) (groups : List ℕ) : List Char :=
  if point ≤ 0 then
    List.replicate ((-point).toNat * 4) '0' ++
      (List.range groups.length).flatMap (paddedGroup groups)
  else (List.range' point.toNat (groups.length - point.toNat)).flatMap (paddedGroup groups)

/-- A text without a scale loses its fraction, and another one the zeros at the end of it. -/
def cutFraction (scale : ℕ) (text : List Char) : List Char :=
  if scale = 0 then text.takeWhile (· ≠ '.')
  else
    match text.dropWhile (· ≠ '.') with
    | [] => text
    | _ :: fraction =>
      let whole := text.takeWhile (· ≠ '.')
      let fraction := fraction.rdropWhile (· = '0')
      if fraction = [] then whole else whole ++ '.' :: fraction

/-- The text of the groups. -/
def numericText (negative : Bool) (point : ℤ) (scale : ℕ) (groups : List ℕ) : List Char :=
  let integer := integerDigits point groups
  let fraction := fractionDigits point groups
  let text := cutFraction scale (if fraction = [] then integer else integer ++ '.' :: fraction)
  if negative then '-' :: text else text

/-- `PgNumericText::from_sql`. -/
def pgNumericFromSql (raw : List UInt8) : Except Failure (List Char) :=
  if raw.length < 8 then .error (.conversion "numeric payload too short")
  else do
    let n ← readI16 raw 0
    let weight ← readI16 raw 2
    let sign ← readI16 raw 4
    let scale ← readI16 raw 6
    if sign.toUInt16 = 0xC000 then .ok ['0']
    else if 2 ^ 64 ≤ 8 + asUsize n * 2 then .error .overflow
    else if raw.length < 8 + asUsize n * 2 then .error (.conversion "numeric digits truncated")
    else do
      let groups ← readGroups raw (asUsize n) 8
      return numericText (sign.toUInt16 = 0x4000) (weight.toInt + 1) (max scale.toInt 0).toNat groups

/-- `pg_value_to_oracle_bytes` of a column with the type `NUMERIC`: an error is no value. -/
def pgNumericToOracleBytes (value : Option (List UInt8)) : Option (List UInt8) := do
  let raw ← value
  let text ← (pgNumericFromSql raw).toOption
  (encodeOracleNumberDecimal text).toOption

/-! ### Values -/

/-- The sign of a value, or what it is instead of a number. -/
inductive PgSign
  | positive
  | negative
  | nan
  | posInfinity
  | negInfinity
  deriving DecidableEq

/-- The sign in binary form. -/
def PgSign.code : PgSign → UInt16
  | positive => 0x0000
  | negative => 0x4000
  | nan => 0xC000
  | posInfinity => 0xD000
  | negInfinity => 0xF000

/-- The number that some groups are, the highest first. -/
def ofGroups (groups : List ℕ) : ℕ := groups.foldl (fun n g => n * 10000 + g) 0

/-- A value: groups of four digits, the first one with a weight, a sign and a display scale. -/
structure PgNumeric where
  groups : List ℕ
  weight : Int16
  sign : PgSign
  scale : Int16
  lt : ∀ g ∈ groups, g < 10000
  length_lt : groups.length < 65536

namespace PgNumeric

variable (p : PgNumeric)

/-- The binary form. -/
def encode : List UInt8 :=
  toBeBytes 2 p.groups.length ++ (toBeBytes 2 p.weight.toUInt16.toNat ++
    (toBeBytes 2 p.sign.code.toNat ++ (toBeBytes 2 p.scale.toUInt16.toNat ++
      p.groups.flatMap (toBeBytes 2))))

/-- The number of groups in front of the point. -/
def point : ℤ := p.weight.toInt + 1

/-- The number without its sign. -/
def magnitude : ℚ := ofGroups p.groups * 10000 ^ (p.point - p.groups.length)

/-- The number, if it is one. -/
def value : Option ℚ :=
  match p.sign with
  | .positive => some p.magnitude
  | .negative => some (-p.magnitude)
  | _ => none

/-- The bytes that are delivered denote the number. -/
def Delivered : Prop :=
  ∃ v ∈ p.value, ∃ bytes, pgNumericToOracleBytes (some p.encode) = some bytes ∧
    numberValue bytes = v

/-- There are not too many groups, a value without a scale is whole, and the number fits. -/
structure Exact : Prop where
  length_le : p.groups.length < 32768
  whole : p.scale.toInt ≤ 0 → ∀ g ∈ p.groups.drop p.point.toNat, g = 0
  fits : ∃ v ∈ p.value, FitsNumber v

/-! ### The value is read -/

section Read

lemma readI16_append {x y : List UInt8} {at_ n : ℕ} (hx : x.length = at_) (hn : n < 65536) :
    readI16 (x ++ (toBeBytes 2 n ++ y)) at_ = .ok (UInt16.ofNat n).toInt16 := by
  have hlen : ¬ (x ++ (toBeBytes 2 n ++ y)).length < at_ + 2 := by
    rw [List.length_append, List.length_append, length_toBeBytes, hx]
    omega
  rw [readI16, if_neg hlen, ← hx, List.drop_left, List.take_left' (length_toBeBytes 2 n),
    ofBeBytes_of_lt hn]

lemma readGroups_flatMap {x : List UInt8} {groups : List ℕ} {at_ : ℕ} (hx : x.length = at_)
    (h : ∀ g ∈ groups, g < 10000) :
    readGroups (x ++ groups.flatMap (toBeBytes 2)) groups.length at_ = .ok groups := by
  induction groups generalizing x at_ with
  | nil => rfl
  | cons g groups ih =>
    obtain ⟨hg, hgroups⟩ := List.forall_mem_cons.1 h
    have hback : (UInt16.ofNat g).toInt16.toUInt16.toNat = g := by
      rw [UInt16.toUInt16_toInt16, UInt16.toNat_ofNat']
      omega
    have hlen : (x ++ toBeBytes 2 g).length = at_ + 2 := by simp [hx]
    have hrest := ih hlen hgroups
    rw [List.append_assoc] at hrest
    rw [List.flatMap_cons, List.length_cons, readGroups, readI16_append hx (by omega)]
    change (do
      let groups ← readGroups _ groups.length (at_ + 2)
      return _ :: groups : Except Failure (List ℕ)) = _
    rw [hrest, hback]
    rfl

/-- The number of groups is read, unless it takes the place of the sign. -/
lemma asUsize_length {n : ℕ} (h : n < 65536) :
    asUsize (UInt16.ofNat n).toInt16 = if n < 32768 then n else n + (2 ^ 64 - 65536) := by
  have hint : (UInt16.ofNat n).toInt16.toInt = (n : ℤ).bmod 65536 := Int16.toInt_ofNat'
  rw [asUsize, hint]
  split_ifs with hn
  · rw [Int.bmod_eq_of_le (by omega) (by omega)]
    omega
  · have hneg : (n : ℤ).bmod 65536 = n - 65536 :=
      (Int.bmod_eq_iff (by decide)).2 ⟨by omega, by omega, -1, by omega⟩
    rw [hneg]
    omega

lemma sign_code (sign : PgSign) : (sign.code.toInt16.toUInt16 = 0xC000 ↔ sign = .nan) ∧
    (sign.code.toInt16.toUInt16 = 0x4000 ↔ sign = .negative) := by
  cases sign <;> decide

variable (p : PgNumeric)

lemma length_encode : p.encode.length = 8 + p.groups.length * 2 := by
  have hgroups : (p.groups.flatMap (toBeBytes 2)).length = p.groups.length * 2 := by
    simp [List.length_flatMap]
  rw [encode, List.length_append, List.length_append, List.length_append, List.length_append,
    hgroups]
  simp only [length_toBeBytes]
  omega

/-- **The text of a value.** -/
theorem fromSql_encode (hnan : p.sign ≠ .nan) : pgNumericFromSql p.encode =
    if p.groups.length < 32768 then
      .ok (numericText (p.sign = .negative) p.point (max p.scale.toInt 0).toNat p.groups)
    else .error .overflow := by
  obtain ⟨hisnan, hneg⟩ := sign_code p.sign
  have hlen := p.length_encode
  have hn := p.length_lt
  have hsign : UInt16.ofNat p.sign.code.toNat = p.sign.code := UInt16.ofNat_toNat
  have hcode : p.sign.code.toNat < 65536 := p.sign.code.toNat_lt
  have hweight : (UInt16.ofNat p.weight.toUInt16.toNat).toInt16 = p.weight := by
    rw [UInt16.ofNat_toNat, Int16.toInt16_toUInt16]
  have hscale : (UInt16.ofNat p.scale.toUInt16.toNat).toInt16 = p.scale := by
    rw [UInt16.ofNat_toNat, Int16.toInt16_toUInt16]
  have hgroups : readGroups p.encode p.groups.length 8 = .ok p.groups := by
    have hlen : (toBeBytes 2 p.groups.length ++ (toBeBytes 2 p.weight.toUInt16.toNat ++
        (toBeBytes 2 p.sign.code.toNat ++ toBeBytes 2 p.scale.toUInt16.toNat))).length = 8 := by
      simp
    have hread := readGroups_flatMap hlen p.lt
    simpa only [encode, List.append_assoc] using hread
  have hcount : readI16 p.encode 0 = .ok (UInt16.ofNat p.groups.length).toInt16 :=
    readI16_append (x := []) rfl hn
  have hsecond : readI16 p.encode 2 = .ok p.weight := by
    rw [encode, readI16_append (length_toBeBytes _ _) p.weight.toUInt16.toNat_lt, hweight]
  have hthird : readI16 p.encode 4 = .ok p.sign.code.toInt16 := by
    rw [encode, ← List.append_assoc, readI16_append (by simp) hcode, hsign]
  have hfourth : readI16 p.encode 6 = .ok p.scale := by
    rw [encode, ← List.append_assoc, ← List.append_assoc,
      readI16_append (by simp) p.scale.toUInt16.toNat_lt, hscale]
  rw [pgNumericFromSql, if_neg (by omega), hcount, hsecond, hthird, hfourth]
  simp only [ok_bind]
  rw [if_neg (mt hisnan.1 hnan), asUsize_length hn]
  by_cases hfew : p.groups.length < 32768
  · rw [if_pos hfew, if_pos hfew, if_neg (by omega), if_neg (by omega), hgroups]
    simp only [ok_bind, hneg]
    rfl
  · rw [if_neg hfew, if_neg hfew, if_pos (by omega)]

end Read

/-! ### The text -/

section Text

variable {groups : List ℕ} {point : ℤ}

/-- The digits of some groups. -/
def groupText (groups : List ℕ) : List Char := groups.flatMap (padded 4)

lemma groupText_append (a b : List ℕ) : groupText (a ++ b) = groupText a ++ groupText b :=
  List.flatMap_append

lemma isDigit_groupText {c : Char} (hc : c ∈ groupText groups) : c.isDigit = true := by
  obtain ⟨g, -, hg⟩ := List.mem_flatMap.1 hc
  exact isDigit_padded hg

lemma length_groupText (h : ∀ g ∈ groups, g < 10000) :
    (groupText groups).length = 4 * groups.length := by
  induction groups with
  | nil => rfl
  | cons g groups ih =>
    obtain ⟨hg, hgroups⟩ := List.forall_mem_cons.1 h
    have hlen : (padded 4 g).length = 4 := length_padded (by decide) hg
    rw [groupText, List.flatMap_cons, List.length_append, hlen, ← groupText, ih hgroups,
      List.length_cons]
    omega

/-- The digits of some groups are the same number as the groups. -/
lemma ofDigits_groupText (h : ∀ g ∈ groups, g < 10000) :
    ofDigits ((groupText groups).map digitVal) = ofGroups groups := by
  induction groups using List.reverseRecOn with
  | nil => rfl
  | append_singleton groups g ih =>
    have hg : g < 10000 := h g (List.mem_append_right _ (List.mem_singleton_self g))
    have ih := ih fun c hc => h c (List.mem_append_left _ hc)
    have hlen : (padded 4 g).length = 4 := length_padded (by decide) hg
    have hvalue : ofDigits ((padded 4 g).map digitVal) = g := by
      rw [← ofDigitChars_eq, ofDigitChars_padded]
    have hone : groupText [g] = padded 4 g := List.append_nil _
    rw [groupText_append, hone, List.map_append, ofDigits_append, ih, hvalue, List.length_map, hlen,
      ofGroups, ofGroups, List.foldl_append]
    rfl

lemma range_paddedGroup (k : ℕ) (groups : List ℕ) :
    (List.range k).flatMap (paddedGroup groups) = groupText (groups.takeD k 0) := by
  induction k generalizing groups with
  | zero => rfl
  | succ k ih =>
    have htail : (fun i => paddedGroup groups (i + 1)) = paddedGroup groups.tail := by
      funext i
      rw [paddedGroup, paddedGroup, List.getElem?_tail]
    have hhead : paddedGroup groups 0 = padded 4 (groups.head?.getD 0) := by
      cases groups <;> rfl
    rw [List.range_succ_eq_map, List.flatMap_cons, List.flatMap_map, List.takeD_succ, hhead]
    change _ ++ (List.range k).flatMap (fun i => paddedGroup groups (i + 1)) = _
    rw [htail, ih]
    rfl

/-- The groups in front of the point. -/
def intGroups (point : ℤ) (groups : List ℕ) : List ℕ := groups.takeD point.toNat 0

/-- The groups behind the point. -/
def fracGroups (point : ℤ) (groups : List ℕ) : List ℕ :=
  List.replicate (-point).toNat 0 ++ groups.drop point.toNat

lemma fractionDigits_eq (point : ℤ) (groups : List ℕ) :
    fractionDigits point groups = groupText (fracGroups point groups) := by
  have hfull : ∀ groups : List ℕ, (List.range groups.length).flatMap (paddedGroup groups) =
      groupText groups := fun groups => by
    rw [range_paddedGroup, List.takeD_eq_take _ le_rfl, List.take_length]
  rw [fractionDigits, fracGroups, groupText_append]
  split_ifs with hpoint
  · have hzeros : ∀ k : ℕ, List.replicate (k * 4) '0' = groupText (List.replicate k 0) := by
      intro k
      induction k with
      | zero => rfl
      | succ k ih =>
        rw [List.replicate_succ, groupText, List.flatMap_cons, ← groupText, ← ih, Nat.succ_mul,
          Nat.add_comm, List.replicate_add]
        rfl
    rw [hzeros, hfull, Int.toNat_of_nonpos hpoint, List.drop_zero]
  · have hshift : (fun i => paddedGroup groups (point.toNat + i)) =
        paddedGroup (groups.drop point.toNat) := by
      funext i
      rw [paddedGroup, paddedGroup, List.getElem?_drop]
    rw [Int.toNat_of_nonpos (by omega : -point ≤ 0), List.range'_eq_map_range, List.flatMap_map,
      ← List.length_drop]
    change (List.range _).flatMap (fun i => paddedGroup groups (point.toNat + i)) = _
    rw [hshift, hfull]
    rfl

lemma digitVal_zero {c : Char} (hc : decide (c = '0') = true) : digitVal c = 0 := by
  rw [of_decide_eq_true hc]
  rfl

lemma intGroups_eq (point : ℤ) (groups : List ℕ) : intGroups point groups =
    groups.take point.toNat ++ List.replicate (point.toNat - groups.length) 0 := by
  have htakeD : ∀ (k : ℕ) (l : List ℕ),
      l.takeD k 0 = l.take k ++ List.replicate (k - l.length) 0 := by
    intro k
    induction k with
    | zero => simp
    | succ k ih =>
      intro l
      cases l with
      | nil => simp [List.replicate_succ]
      | cons g l => simp [ih]
  exact htakeD _ _

lemma intGroups_lt (h : ∀ g ∈ groups, g < 10000) : ∀ g ∈ intGroups point groups, g < 10000 := by
  intro g hg
  rw [intGroups_eq] at hg
  rcases List.mem_append.1 hg with hg | hg
  · exact h g (List.mem_of_mem_take hg)
  · rw [List.eq_of_mem_replicate hg]
    decide

lemma fracGroups_lt (h : ∀ g ∈ groups, g < 10000) : ∀ g ∈ fracGroups point groups, g < 10000 := by
  intro g hg
  rcases List.mem_append.1 hg with hg | hg
  · rw [List.eq_of_mem_replicate hg]
    decide
  · exact h g (List.mem_of_mem_drop hg)

/-- The digits in front of the point. -/
lemma integerDigits_spec (point : ℤ) (h : ∀ g ∈ groups, g < 10000) :
    integerDigits point groups ≠ [] ∧ (∀ c ∈ integerDigits point groups, c.isDigit = true) ∧
      (integerDigits point groups).length ≤ 4 * point.toNat + 1 ∧
      ofDigits ((integerDigits point groups).map digitVal) = ofGroups (intGroups point groups) := by
  have hlt : ∀ g ∈ intGroups point groups, g < 10000 := intGroups_lt h
  have hvalue := ofDigits_groupText hlt
  have hlen := length_groupText hlt
  have hzero : ['0'] ≠ [] ∧ (∀ c ∈ ['0'], c.isDigit = true) ∧ ['0'].length ≤ 4 * point.toNat + 1 :=
    ⟨by simp, by simp, by simp⟩
  rw [integerDigits, range_paddedGroup, ← intGroups]
  dsimp only
  obtain ⟨t, ht⟩ : ∃ t, t = groupText (intGroups point groups) := ⟨_, rfl⟩
  rw [← ht] at hvalue hlen ⊢
  have hdrop := ofDigits_map_dropWhile (p := fun c => decide (c = '0')) (f := digitVal)
    (fun _ => digitVal_zero) t
  rw [hvalue] at hdrop
  split_ifs with hpoint htrim
  · refine ⟨hzero.1, hzero.2.1, hzero.2.2, ?_⟩
    rw [intGroups, Int.toNat_of_nonpos hpoint]
    rfl
  · rw [htrim] at hdrop
    exact ⟨hzero.1, hzero.2.1, hzero.2.2, hdrop⟩
  · refine ⟨htrim, fun c hc => ?_, ?_, hdrop⟩
    · have hmem := (List.dropWhile_suffix _).subset hc
      rw [ht] at hmem
      exact isDigit_groupText hmem
    · have hle := (List.dropWhile_suffix (l := t) fun c => decide (c = '0')).length_le
      rw [hlen, intGroups, List.takeD_length] at hle
      omega

/-- The digits behind the point that are kept. -/
def keptDigits (scale : ℕ) (fraction : List Char) : List Char :=
  if scale = 0 then [] else fraction.rdropWhile (· = '0')

/-- A text is cut behind the digits that are kept. -/
lemma cutFraction_eq (scale : ℕ) {integer : List Char} (h : ∀ c ∈ integer, c.isDigit = true)
    (fraction : List Char) :
    cutFraction scale (if fraction = [] then integer else integer ++ '.' :: fraction) =
      integer ++ if keptDigits scale fraction = [] then [] else '.' :: keptDigits scale fraction := by
  have hpass : ∀ c ∈ integer, decide (c ≠ '.') = true := by
    intro c hc
    refine decide_eq_true fun heq => ?_
    have hdigit := h c hc
    rw [heq] at hdigit
    exact absurd hdigit (by decide)
  by_cases hnone : fraction = []
  · have hkept : keptDigits scale fraction = [] := by
      rw [keptDigits, hnone]
      split_ifs <;> rfl
    rw [if_pos hnone, if_pos hkept, List.append_nil, cutFraction,
      List.takeWhile_eq_self_iff.2 hpass, List.dropWhile_eq_nil_iff.2 hpass]
    exact ite_self _
  · have hdrop : (integer ++ '.' :: fraction).dropWhile (· ≠ '.') = '.' :: fraction := by
      rw [List.dropWhile_append_of_pos hpass, List.dropWhile_cons_of_neg (by simp)]
    have htake : (integer ++ '.' :: fraction).takeWhile (· ≠ '.') = integer := by
      rw [List.takeWhile_append_of_pos hpass, List.takeWhile_cons_of_neg (by simp),
        List.append_nil]
    rw [if_neg hnone, cutFraction, hdrop, htake, keptDigits]
    by_cases hscale : scale = 0
    · rw [if_pos hscale, if_pos hscale, if_pos rfl, List.append_nil]
    · rw [if_neg hscale, if_neg hscale]
      dsimp only
      split_ifs
      · rw [List.append_nil]
      · rfl

end Text

/-! ### The number -/

section Number

variable {groups : List ℕ}

lemma foldl_groups (groups : List ℕ) (n : ℕ) : groups.foldl (fun n g => n * 10000 + g) n =
    n * 10000 ^ groups.length + ofGroups groups := by
  induction groups generalizing n with
  | nil => simp [ofGroups]
  | cons g groups ih =>
    rw [ofGroups, List.foldl_cons, List.foldl_cons, ih, ih (0 * 10000 + g), List.length_cons]
    ring

lemma ofGroups_append (a b : List ℕ) :
    ofGroups (a ++ b) = ofGroups a * 10000 ^ b.length + ofGroups b := by
  rw [ofGroups, List.foldl_append]
  exact foldl_groups b _

lemma ofGroups_eq_zero : ofGroups groups = 0 ↔ ∀ g ∈ groups, g = 0 := by
  induction groups using List.reverseRecOn with
  | nil => exact iff_of_true rfl nofun
  | append_singleton groups g ih =>
    have hone : ofGroups [g] = g := Nat.zero_add g
    rw [ofGroups_append, hone, List.length_singleton, Nat.add_eq_zero_iff, Nat.mul_eq_zero,
      List.forall_mem_append, ih, List.forall_mem_singleton]
    exact and_congr_left fun _ => or_iff_left (by decide)

lemma ofGroups_replicate (k : ℕ) : ofGroups (List.replicate k 0) = 0 :=
  ofGroups_eq_zero.2 fun _ => List.eq_of_mem_replicate

/-- The part of the number behind the point. -/
def fracValue (p : PgNumeric) : ℚ := ofGroups (fracGroups p.point p.groups) *
  10000 ^ (-((fracGroups p.point p.groups).length : ℤ))

/-- The number is the part in front of the point and the part behind it. -/
lemma magnitude_eq (p : PgNumeric) :
    p.magnitude = ofGroups (intGroups p.point p.groups) + p.fracValue := by
  have hne : (10000 : ℚ) ≠ 0 := by norm_num
  rw [magnitude, fracValue, fracGroups, intGroups_eq]
  rcases le_or_gt p.point 0 with hpoint | hpoint
  · have hlen : p.point - p.groups.length =
        -((List.replicate (-p.point).toNat 0 ++ p.groups).length : ℤ) := by
      rw [List.length_append, List.length_replicate]
      omega
    rw [Int.toNat_of_nonpos hpoint, List.drop_zero, List.take_zero, Nat.zero_sub,
      List.replicate_zero, List.append_nil, ofGroups_append, ofGroups_replicate, ← hlen]
    simp [ofGroups]
  · obtain ⟨k, hk⟩ : ∃ k, k = p.point.toNat := ⟨_, rfl⟩
    have hcast : p.point = k := by omega
    have hgroups : ofGroups p.groups = ofGroups (p.groups.take k) *
        10000 ^ (p.groups.length - k) + ofGroups (p.groups.drop k) := by
      conv_lhs => rw [← List.take_append_drop k p.groups]
      rw [ofGroups_append, List.length_drop]
    rw [Int.toNat_of_nonpos (by omega : -p.point ≤ 0), List.replicate_zero, List.nil_append, ← hk,
      ofGroups_append, ofGroups_replicate, List.length_replicate, List.length_drop, hgroups, hcast]
    rcases le_or_gt k p.groups.length with hle | hlt
    · have hsub : (k : ℤ) - p.groups.length = -((p.groups.length - k : ℕ) : ℤ) := by omega
      rw [Nat.sub_eq_zero_of_le hle, hsub, zpow_neg, zpow_natCast]
      push_cast
      field_simp
      ring
    · have hsub : (k : ℤ) - p.groups.length = ((k - p.groups.length : ℕ) : ℤ) := by omega
      have hnone : p.groups.length - k = 0 := by omega
      rw [List.drop_eq_nil_of_le hlt.le, hnone, hsub, zpow_natCast]
      simp [ofGroups]

/-- Nothing is behind the point exactly if the groups there are zero. -/
lemma fracValue_eq_zero {p : PgNumeric} :
    p.fracValue = 0 ↔ ∀ g ∈ p.groups.drop p.point.toNat, g = 0 := by
  have hpow : (10000 : ℚ) ^ (-((fracGroups p.point p.groups).length : ℤ)) ≠ 0 :=
    zpow_ne_zero _ (by norm_num)
  rw [fracValue, mul_eq_zero, or_iff_left hpow, Nat.cast_eq_zero, ofGroups_eq_zero, fracGroups,
    List.forall_mem_append]
  exact and_iff_right fun _ => List.eq_of_mem_replicate

end Number

variable (p : PgNumeric)

/-- The digits behind the point that are kept. -/
def kept : List Char :=
  keptDigits (max p.scale.toInt 0).toNat (fractionDigits p.point p.groups)

lemma isDigit_kept : ∀ c ∈ p.kept, c.isDigit = true := by
  intro c hc
  rw [kept, keptDigits] at hc
  split_ifs at hc
  · cases hc
  · have hmem := (List.rdropWhile_prefix _ _).subset hc
    rw [fractionDigits_eq] at hmem
    exact isDigit_groupText hmem

/-- The text of a value, as a literal. -/
def literal : Literal where
  sign := if p.sign = .negative then ['-'] else []
  int := integerDigits p.point p.groups
  frac := if p.kept = [] then none else some p.kept
  exp := none
  rest := []
  sign_ok := by
    split_ifs
    · exact .inr (.inl rfl)
    · exact .inl rfl
  int_ok := (integerDigits_spec p.point p.lt).2.1
  frac_ok := by
    intro f hf
    split_ifs at hf
    · cases hf
    · exact Option.some.inj hf ▸ p.isDigit_kept
  exp_ok := exp_ok_none
  rest_ok := rest_ok_nil
  mantissa_ok := fun h => (integerDigits_spec p.point p.lt).1 (List.append_eq_nil_iff.1 h).1

lemma literal_frac : p.literal.frac.getD [] = p.kept := by
  rw [literal]
  dsimp only
  split_ifs with h
  · rw [h]
    rfl
  · rfl

lemma text_literal : numericText (p.sign = .negative) p.point (max p.scale.toInt 0).toNat p.groups =
    p.literal.text := by
  have hcut := cutFraction_eq (max p.scale.toInt 0).toNat (integerDigits_spec p.point p.lt).2.1
    (fractionDigits p.point p.groups)
  rw [numericText, hcut, ← kept, literal, Parts.text]
  dsimp only
  rw [Option.elim_none, List.append_nil, List.append_nil]
  by_cases hsign : p.sign = .negative <;> by_cases hkept : p.kept = [] <;> simp [hsign, hkept]

/-- The digits that are kept are the part of the number behind the point. -/
lemma ofDigits_kept : (ofDigits (p.kept.map digitVal) : ℚ) * 10 ^ (-(p.kept.length : ℤ)) =
    if p.scale.toInt ≤ 0 then 0 else p.fracValue := by
  rw [kept, keptDigits]
  by_cases hscale : p.scale.toInt ≤ 0
  · rw [if_pos (by omega), if_pos hscale]
    simp [ofDigits]
  · have hlt : ∀ g ∈ fracGroups p.point p.groups, g < 10000 := fracGroups_lt p.lt
    have hlen := length_groupText hlt
    have hpow : (10 : ℚ) ^ (-((4 * (fracGroups p.point p.groups).length : ℕ) : ℤ)) =
        10000 ^ (-((fracGroups p.point p.groups).length : ℤ)) := by
      rw [zpow_neg, zpow_neg, zpow_natCast, zpow_natCast, pow_mul]
      norm_num
    rw [if_neg (by omega), if_neg hscale,
      ← ofDigits_map_rdropWhile (fun _ => digitVal_zero) (fractionDigits p.point p.groups),
      fractionDigits_eq, ofDigits_groupText (fracGroups_lt p.lt), hlen, hpow, fracValue]

/-- The number of the text: without a scale the part behind the point is missing. -/
lemma value_literal : p.literal.value = (if p.sign = .negative then -1 else 1) *
    (ofGroups (intGroups p.point p.groups) +
      if p.scale.toInt ≤ 0 then 0 else p.fracValue) := by
  have hten : (10 : ℚ) ≠ 0 := by norm_num
  have hsign : p.literal.sign = ['-'] ↔ p.sign = .negative := by
    by_cases h : p.sign = .negative <;> simp [literal, h]
  have hint := (integerDigits_spec p.point p.lt).2.2.2
  have hmantissa : p.literal.mantissa = integerDigits p.point p.groups ++ p.kept := by
    rw [Parts.mantissa, literal_frac]
    rfl
  have hexp : p.literal.exponent = 0 := rfl
  rw [Literal.value, literal_frac, hexp, zero_sub, ofDigitChars_eq, hmantissa, List.map_append,
    ofDigits_append, List.length_map, hint, ← ofDigits_kept, if_congr hsign rfl rfl, mul_assoc,
    Nat.cast_add, Nat.cast_mul, add_mul, Nat.cast_pow, Nat.cast_ofNat, mul_assoc, ← zpow_natCast,
    ← zpow_add₀ hten, add_neg_cancel, zpow_zero, mul_one]

/-- What is delivered of a number. -/
lemma toOracleBytes_encode (hnan : p.sign ≠ .nan) :
    pgNumericToOracleBytes (some p.encode) = if p.groups.length < 32768 then
      (encodeOracleNumberDecimal p.literal.text).toOption else none := by
  have htext := p.fromSql_encode hnan
  rw [text_literal] at htext
  change (pgNumericFromSql p.encode).toOption.bind
    (fun text => (encodeOracleNumberDecimal text).toOption) = _
  rw [htext]
  split_ifs <;> rfl

/-- The number is that of the text exactly if nothing is left out. -/
lemma value_literal_eq_iff {v : ℚ} (hv : v ∈ p.value) : p.literal.value = v ↔
    (p.scale.toInt ≤ 0 → ∀ g ∈ p.groups.drop p.point.toNat, g = 0) := by
  have hsigned : v = (if p.sign = .negative then -1 else 1) * p.magnitude := by
    rw [value] at hv
    cases hsign : p.sign <;> rw [hsign] at hv <;> simp_all
  have hunit : (if p.sign = .negative then (-1 : ℚ) else 1) ≠ 0 := by
    split_ifs <;> decide
  rw [hsigned, value_literal, magnitude_eq, mul_right_inj' hunit, add_right_inj]
  split_ifs with hscale
  · rw [eq_comm, fracValue_eq_zero]
    exact ⟨fun h _ => h, fun h => h hscale⟩
  · exact iff_of_true rfl fun h => absurd h hscale

/-- There are not too many digits. -/
lemma length_literal (hfew : p.groups.length < 32768) :
    p.literal.int.length < 2 ^ 30 ∧ (p.literal.frac.getD []).length < 2 ^ 30 := by
  have hint := (integerDigits_spec p.point p.lt).2.2.1
  have hlow := p.weight.le_toInt
  have hhigh := p.weight.toInt_lt
  have hpoint : p.point = p.weight.toInt + 1 := rfl
  constructor
  · change (integerDigits p.point p.groups).length < _
    omega
  · have hfrac : (fractionDigits p.point p.groups).length ≤ 4 * (32768 + p.groups.length) := by
      rw [fractionDigits_eq, length_groupText (fracGroups_lt p.lt), fracGroups, List.length_append,
        List.length_replicate, List.length_drop]
      omega
    have hkept : p.kept.length ≤ (fractionDigits p.point p.groups).length := by
      rw [kept, keptDigits]
      split_ifs
      · exact Nat.zero_le _
      · exact (List.rdropWhile_prefix _ _).length_le
    rw [literal_frac]
    omega

/-- **A value is delivered exactly if it is a number that fits, with not too many groups, and a
value without a scale is whole.** -/
theorem delivered_iff : p.Delivered ↔ p.Exact := by
  have hsign : ∀ v ∈ p.value, p.sign ≠ .nan := by
    intro v hv hnan
    rw [value, hnan] at hv
    cases hv
  have hbytes : ∀ v ∈ p.value, p.groups.length < 32768 →
      ((∃ bytes, pgNumericToOracleBytes (some p.encode) = some bytes ∧ numberValue bytes = v) ↔
        FitsNumber p.literal.value ∧ p.literal.value = v) := by
    intro v hv hfew
    obtain ⟨hint, hfrac⟩ := p.length_literal hfew
    rw [← encode_literal_iff (.of_plain rfl hint hfrac), p.toOracleBytes_encode (hsign v hv), if_pos hfew]
    cases encodeOracleNumberDecimal p.literal.text <;> simp [Except.toOption]
  constructor
  · rintro ⟨v, hv, bytes, hsome, hvalue⟩
    have hfew : p.groups.length < 32768 := by
      by_contra hmany
      rw [p.toOracleBytes_encode (hsign v hv), if_neg hmany] at hsome
      cases hsome
    obtain ⟨hfits, heq⟩ := (hbytes v hv hfew).1 ⟨bytes, hsome, hvalue⟩
    exact ⟨hfew, (p.value_literal_eq_iff hv).1 heq, v, hv, heq ▸ hfits⟩
  · rintro ⟨hfew, hwhole, v, hv, hfits⟩
    have heq := (p.value_literal_eq_iff hv).2 hwhole
    exact ⟨v, hv, (hbytes v hv hfew).2 ⟨heq.symm ▸ hfits, heq⟩⟩

/-- Infinity. -/
def infinity : PgNumeric where
  groups := []
  weight := 0
  sign := .posInfinity
  scale := 0
  lt := nofun
  length_lt := by decide

/-- A one with 127 zeros. -/
def tooGreat : PgNumeric where
  groups := [1000]
  weight := 31
  sign := .positive
  scale := 0
  lt := by decide
  length_lt := by decide

/-- Infinity is delivered as zero, and a number that is too great as no value. -/
theorem infinity_not_delivered : pgNumericToOracleBytes (some infinity.encode) = some [0x80] ∧
    pgNumericToOracleBytes (some tooGreat.encode) = none ∧
    ¬ infinity.Delivered ∧ ¬ tooGreat.Delivered := by
  have hinfinity : pgNumericToOracleBytes (some infinity.encode) = some [0x80] := by
    decide +kernel
  have hgreat : pgNumericToOracleBytes (some tooGreat.encode) = none := by decide +kernel
  refine ⟨hinfinity, hgreat, ?_, ?_⟩
  · rintro ⟨v, hv, -⟩
    cases hv
  · rintro ⟨v, -, bytes, hsome, -⟩
    rw [hgreat] at hsome
    cases hsome

end PgNumeric

end DbSaci.Backend
