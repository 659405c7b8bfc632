import DbSaci.Wire.Number
import DbSaci.Wire.Temporal

set_option relaxedAutoImplicit false
set_option autoImplicit false

/-!
# Bind values

## Main definitions

* `BindValue`, `decodeBindValue` — a value of a bind, and how it is read.
* `SameInstant` — a value that comes back is the same point in time.

## Main results

* `sameInstant_iff` — only for the offset zero, and for no OCI client.
-/

namespace DbSaci.Wire

/-- A value of a bind. A temporal one is a literal, and a floating point number is its bits. -/
inductive BindValue
  | null
  | string (s : List Char)
  | number (s : List Char)
  | bytes (b : List UInt8)
  | temporal (s : List Char)
  | boolean (b : Bool)
  | binaryDouble (bits : UInt64)
  deriving DecidableEq, Repr

/-- Numbers that sort as their bytes do: the sign bit is set for positive ones, and negative ones
are complemented. -/
def sortable (raw : List UInt8) : List UInt8 :=
  match raw with
  | [] => []
  | b :: rest => if b &&& 0x80 ≠ 0 then (b &&& 0x7f) :: rest else raw.map fun b => ~~~b

/-- `f32 as f64`, on the bits. -/
def widen (n : ℕ) : ℕ :=
  let sign := n / 2 ^ 31
  let exponent := n / 2 ^ 23 % 2 ^ 8
  let mantissa := n % 2 ^ 23
  sign * 2 ^ 63 +
    if exponent = 255 then
      2047 * 2 ^ 52 + (if mantissa = 0 then 0 else (mantissa ||| 2 ^ 22) * 2 ^ 29)
    else if exponent ≠ 0 then (exponent + 896) * 2 ^ 52 + mantissa * 2 ^ 29
    else if mantissa = 0 then 0
    else (mantissa.log2 + 874) * 2 ^ 52 + (mantissa - 2 ^ mantissa.log2) * 2 ^ (52 - mantissa.log2)

/-- `decode_bind_value`: the value, or the text of a conversion error, up to what it says about the
place of an error in UTF-8. -/
def decodeBindValue (oracleType : UInt8) (raw : Option (List UInt8)) : Except String BindValue :=
  match raw with
  | none => .ok .null
  | some raw =>
    if oracleType = 1 ∨ oracleType = 8 ∨ oracleType = 9 ∨ oracleType = 96 then
      match String.fromUTF8? ⟨raw.toArray⟩ with
      | some s => .ok (.string s.toList)
      | none => .error "bind string is not UTF-8: "
    else if oracleType = 2 then (decodeOracleNumber raw).map .number
    else if oracleType = 23 then .ok (.bytes raw)
    else if oracleType = 12 ∨ oracleType = 180 ∨ oracleType = 181 ∨ oracleType = 231 then
      (decodeOracleTemporal raw oracleType).map .temporal
    else if oracleType = 101 then
      if raw.length = 8 then .ok (.binaryDouble (UInt64.ofNat (ofBeBytes (sortable raw))))
      else .error "BINARY_DOUBLE bind must be 8 bytes"
    else if oracleType = 100 then
      if raw.length = 4 then .ok (.binaryDouble (UInt64.ofNat (widen (ofBeBytes (sortable raw)))))
      else .error "BINARY_FLOAT bind must be 4 bytes"
    else if oracleType = 252 then .ok (.boolean (raw.getLast?.getD 0 ≠ 0))
    else .error ("unsupported Oracle bind type " ++ toString oracleType.toNat)

/-- The values of a row, each by its type. -/
def decodeRow : List UInt8 → List (Option (List UInt8)) → Except String (List BindValue)
  | oracleType :: types, raw :: raws => do
    let value ← decodeBindValue oracleType raw
    let values ← decodeRow types raws
    return value :: values
  | _, _ => .ok []

lemma decodeRow_cons {types : List UInt8} {oracleType : UInt8} {raw : Option (List UInt8)}
    {raws : List (Option (List UInt8))} {value : BindValue} {values : List BindValue}
    (hvalue : decodeBindValue oracleType raw = .ok value)
    (hvalues : decodeRow types raws = .ok values) :
    decodeRow (oracleType :: types) (raw :: raws) = .ok (value :: values) := by
  rw [decodeRow, hvalue]
  change (do let values ← decodeRow types raws; return value :: values) = _
  rw [hvalues]
  rfl

/-! ### A `TIMESTAMP WITH TIME ZONE` that is fetched and sent back -/

/-- A value that comes back is the same point in time. -/
def SameInstant (t : DateTime) (off : Offset) (oci : Bool) : Prop :=
  ∃ literal,
    decodeBindValue 181 (some (encodeOracleTimestampTz t (off.hours, off.minutes) oci)) =
      .ok (.temporal literal) ∧
    instantOf literal = some t.instant

lemma decodeBindValue_temporal (raw : List UInt8) : decodeBindValue 181 (some raw) =
    (decodeOracleTemporal raw 181).map .temporal := rfl

/-- What a value that comes back stands for. -/
lemma instantOf_back (t : DateTime) (off : Offset) (oci : Bool) : ∃ literal,
    decodeBindValue 181 (some (encodeOracleTimestampTz t (off.hours, off.minutes) oci)) =
      .ok (.temporal literal) ∧
    instantOf literal =
      if (hoursBack off.hours oci).natAbs < 16 then
        some (t.instant - (if hoursBack off.hours oci < 0 then -1 else 1 : ℤ) *
          ((hoursBack off.hours oci).natAbs * 60 + off.minutes.natAbs) * 60000000)
      else none := by
  obtain ⟨hminutes, hbounded⟩ := And.intro off.minutes_lt off.bounded
  have hmicros : t.nanosecond / 1000 < 1000000 := by
    have := t.nanosecond_lt
    omega
  have hhours : (hoursBack off.hours oci).natAbs < 100 := by
    unfold hoursBack
    split_ifs <;> omega
  refine ⟨_, by rw [decodeBindValue_temporal, decode_encode]; rfl, ?_⟩
  have hyear := t.year_mem
  have hmonth := t.month_mem
  have hday := t.day_le
  exact instantOf_text (by omega) (by omega) (by omega) (t.hour_lt.trans (by decide))
    (t.minute_lt.trans (by decide)) (t.second_lt.trans (by decide)) hmicros hhours (by omega)

/-- **A value that comes back is the same point in time exactly if the offset of the session is
zero and the client is no OCI client.** -/
theorem sameInstant_iff (t : DateTime) (off : Offset) (oci : Bool) :
    SameInstant t off oci ↔ oci = false ∧ off.hours = 0 ∧ off.minutes = 0 := by
  obtain ⟨literal, hdecode, hinstant⟩ := instantOf_back t off oci
  have hsign := off.sign
  have hbounded := off.bounded
  have hminutes := off.minutes_lt
  have hsame : SameInstant t off oci ↔ instantOf literal = some t.instant := by
    constructor
    · rintro ⟨literal', hdecode', hsame⟩
      rw [hdecode] at hdecode'
      cases hdecode'
      exact hsame
    · exact fun h => ⟨literal, hdecode, h⟩
  rw [hsame, hinstant]
  unfold hoursBack
  cases oci with
  | true =>
    -- the bit for the client is read as 64 hours
    rw [if_neg (by simp only [if_true]; omega)]
    simp
  | false =>
    simp only [Bool.false_eq_true, if_false, true_and]
    rw [if_pos (by omega), Option.some_inj]
    split_ifs <;> omega

/-- The midnight a year starts with, in UTC. -/
def newYear : DateTime where
  year := 2026
  month := 1
  day := 1
  hour := 0
  minute := 0
  second := 0
  nanosecond := 0
  year_mem := by decide
  month_mem := by decide
  day_mem := by decide
  hour_lt := by decide
  minute_lt := by decide
  second_lt := by decide
  nanosecond_lt := by decide
  micros := by decide

/-- Two hours to the east. -/
def eastern : Offset := Offset.ofSecs 7200 (by decide)

/-- In a session two hours to the east it is two hours earlier. -/
theorem newYear_not_sameInstant : ¬ SameInstant newYear eastern false := by
  rintro ⟨literal, hdecode, hsame⟩
  obtain ⟨literal', hdecode', hinstant⟩ := instantOf_back newYear eastern false
  rw [hdecode] at hdecode'
  cases hdecode'
  rw [hinstant] at hsame
  exact absurd hsame (by decide)

end DbSaci.Wire
