import DbSaci.Backend.Intervals
import DbSaci.Backend.MariaDbColumns
import DbSaci.Backend.PgNumeric
import DbSaci.Wire.CalendarDates
import DbSaci.Wire.NumberEncoders

set_option relaxedAutoImplicit false
set_option autoImplicit false

/-!
# The columns of PostgreSQL

A column is described by its type, by what the client has negotiated, and for a floating-point
number by the domain the column was declared with. A value is encoded by the type that was
described, and what the driver does not give as the type that is asked for is sent as no value.

## Main definitions

* `pgColumnToOracleMeta`, `refineOracleDomain`, `describePg` — the description of a column.
* `PgDatum`, `pgValueToOracleBytes` — a value of a column, and what is sent for it.
* `PgDenotes` — some bytes are an encoding of a value in the format of a type.
* `PgCell.Delivered`, `PgCell.Deliverable` — what is sent is such an encoding, and when it is.

## Main results

* `numberValue_encodeI64` — the bytes of an integer are that number.
* `PgCell.pgDelivered_iff` — the condition is exact.
-/

namespace DbSaci.Backend

open Wire Decimal Text

/-! ### Columns -/

/-- The types that are told apart. -/
inductive PgType
  | bool | bytea | int2 | int4 | int8 | oid | float4 | float8 | numeric | text | varchar | bpchar
  | name | unknown | date | timestamp | timestamptz | interval
  | other (typname : List Char)
  deriving DecidableEq

/-- The types that the driver gives as a text. -/
def PgType.readsText : PgType → Bool
  | text | varchar | bpchar | name | unknown => true
  | other typname =>
    ["citext".toList, "ltree".toList, "lquery".toList, "ltxtquery".toList].contains typname
  | _ => false

/-- What the driver knows of a column, and the namespace and the name of the type of the column of a
table that it is, if the catalog has one. -/
structure PgColumn where
  name : List Char
  type : PgType
  typeModifier : Int32
  declared : Option (List Char × List Char)

/-- What the client has negotiated. -/
structure PgCaps extends DescribeCaps where
  nativeBinaryFloats : Bool
  nativeIntervals : Bool
  oci : Bool

/-- `interval_is_year_to_month`. -/
def intervalIsYearToMonth (typeModifier : Int32) : Bool :=
  if typeModifier < 0 then false
  else
    let fields := (typeModifier >>> 16) &&& 0x7FFF
    fields &&& 0x1C08 = 0 ∧ fields &&& 0x6 ≠ 0

/-- `pg_column_to_oracle_meta`. -/
def pgColumnToOracleMeta (col : PgColumn) (caps : PgCaps) : ColumnMeta :=
  match col.type with
  | .numeric =>
    if caps.reportNumberScale = true ∧ 4 ≤ col.typeModifier then
      let packed := (col.typeModifier - 4).toUInt32
      .number col.name ((packed >>> 16) &&& 0xFFFF).toUInt8.toInt8
        (packed &&& 0xFFFF).toUInt8.toInt8
    else .number col.name 38 0
  | .int2 | .int4 | .int8 | .float4 | .float8 | .oid => .number col.name 38 0
  | .bytea => .raw col.name 4000
  | .varchar | .text | .bpchar | .name | .unknown => .varchar col.name 4000
  | .bool => .number col.name 1 0
  | .date => .date col.name
  | .timestamp =>
    if caps.nativeTimestamps = false ∨ caps.datetimeAsDate = true then .date col.name
    else .timestamp col.name (if caps.timestampScaleZero = true then 0 else 6)
  | .timestamptz =>
    if caps.nativeTimestamps = false ∨ caps.datetimeAsDate = true then .date col.name
    else
      let scale := if caps.timestampScaleZero = true then 0 else 6
      if caps.oci = true then { ColumnMeta.plain col.name 181 0 scale 1 with maxSize := 0 }
      else .plain col.name 181 0 scale 13
  | .interval =>
    match caps.nativeIntervals, intervalIsYearToMonth col.typeModifier with
    | true, true => .plain col.name 182 0 0 5
    | true, false => .plain col.name 183 0 0 11
    | false, _ => .varchar col.name 30
  | .other _ => .varchar col.name 4000

/-- `refine_oracle_domain_columns`, of one column. -/
def refineOracleDomain (col : PgColumn) (caps : PgCaps) (m : ColumnMeta) : ColumnMeta :=
  if col.type ≠ .float4 ∧ col.type ≠ .float8 then m
  else
    match col.declared with
    | none => m
    | some (nsp, typname) =>
      if nsp ≠ "dbsaci".toList then m
      else if typname = "binary_double".toList ∧ caps.nativeBinaryFloats = true ∧
          m.oracleType = 2 then
        { m with oracleType := 101, precision := 0, scale := 0, bufferSize := 8, maxSize := 8 }
      else if typname = "binary_float".toList ∧ caps.nativeBinaryFloats = true ∧
          m.oracleType = 2 then
        { m with oracleType := 100, precision := 0, scale := 0, bufferSize := 4, maxSize := 4 }
      else m

/-- The description of a column in `open_cursor`. -/
def describePg (col : PgColumn) (caps : PgCaps) : ColumnMeta :=
  refineOracleDomain col caps (pgColumnToOracleMeta col caps)

/-! ### Values -/

/-- A date of the calendar with its time. -/
structure PgMoment extends NaiveDateTime where
  isDate : IsDate year month day
  hour_lt : hour < 24
  minute_lt : minute < 60
  second_lt : second < 60
  nanosecond_lt : nanosecond < 1000000000

/-- A day of the calendar. -/
structure PgDay where
  year : ℤ
  month : ℕ
  day : ℕ
  isDate : IsDate year month day

lemma midnight_nanosecond : 0 < 1000000000 := by omega

/-- The start of a day. -/
def PgDay.midnight (d : PgDay) : PgMoment where
  year := d.year
  month := d.month
  day := d.day
  hour := 0
  minute := 0
  second := 0
  nanosecond := 0
  isDate := d.isDate
  hour_lt := midnight_hour
  minute_lt := midnight_minute
  second_lt := midnight_minute
  nanosecond_lt := midnight_nanosecond

/-- The zone of a session: for each instant what a clock shows, and the offset in seconds. -/
structure Zone where
  wallClock : PgMoment → PgMoment
  offset : PgMoment → ℤ
  offset_mem (t : PgMoment) : -86400 < offset t ∧ offset t < 86400

/-- The zone of UTC. -/
def Zone.utc : Zone := ⟨id, fun _ => 0, fun _ => by omega⟩

/-- The texts of floating-point numbers: that of a finite one is a literal. -/
inductive Spells : List Char → Option Literal → Prop
  | finite (l : Literal) (short : l.Short) : Spells l.text (some l)
  | nan : Spells "NaN".toList none
  | infinity : Spells "inf".toList none
  | negInfinity : Spells "-inf".toList none

/-- A floating-point number, with the literal that is its text if it is finite. -/
structure PgFloat {α : Type} (text : α → List Char) where
  value : α
  literal : Option Literal
  spells : Spells (text value) literal

/-- A value as the driver gives it. A day or a moment that is infinite or not in the calendar of the
library for dates is none, and so is a value of a type that is not read. -/
inductive PgDatum (F : Floats)
  | null
  | bool (b : Bool)
  | int2 (v : Int16)
  | int4 (v : Int32)
  | int8 (v : Int64)
  | float4 (x : PgFloat F.singleText)
  | float8 (x : PgFloat F.doubleText)
  | numeric (p : PgNumeric)
  | bytea (b : List UInt8)
  | text (s : List Char)
  | date (d : Option PgDay)
  | timestamp (t : Option PgMoment)
  | timestamptz (t : Option PgMoment)
  | interval (v : PgInterval)
  | unread

variable {F : Floats}

/-- The types of the columns that have such a value. -/
def PgDatum.Fits (type : PgType) : PgDatum F → Prop
  | null => True
  | bool _ => type = .bool
  | int2 _ => type = .int2
  | int4 _ => type = .int4
  | int8 _ => type = .int8
  | float4 _ => type = .float4
  | float8 _ => type = .float8
  | numeric _ => type = .numeric
  | bytea _ => type = .bytea
  | text _ => type.readsText = true
  | date _ => type = .date
  | timestamp _ => type = .timestamp
  | timestamptz _ => type = .timestamptz
  | interval _ => type = .interval
  | unread => type = .oid ∨ ∃ typname, type = .other typname ∧ type.readsText = false

/-- `encode_year_to_month`. -/
def PgInterval.encodeYearToMonth (v : PgInterval) : List UInt8 :=
  let years := v.months.toInt.tdiv 12
  let remMonths := v.months.toInt.tmod 12
  toBeBytes 4 (UInt32.ofInt (years + 0x80000000)).toNat ++ [UInt8.ofInt (remMonths + 60)]

instance (v : PgInterval) (yearToMonth : Bool) : Decidable (v.InMonths yearToMonth) :=
  inferInstanceAs (Decidable (_ ∨ _))

/-- `encode_oracle_timestamp_tz`. -/
def encodeOracleTimestampTz (value : NaiveDateTime) (tz : ℤ × ℤ) (oci : Bool) : List UInt8 :=
  let hourByte := UInt8.ofInt (tz.1 + 20)
  encodeOracleTimestamp value ++
    [if oci = true then hourByte ||| 0x40 else hourByte, UInt8.ofInt (tz.2 + 60)]

/-- `pg_value_to_oracle_bytes`. What the driver does not give as the type that is asked for is no
value, and so is what cannot be encoded. -/
def pgValueToOracleBytes (zone : Zone) (col : PgColumn) (d : PgDatum F) (oracleType : UInt8)
    (oci : Bool) : Option (List UInt8) :=
  if oracleType = 2 then
    match col.type, d with
    | .int2, .int2 v => some (encodeOracleNumberI64 v.toInt64)
    | .int4, .int4 v => some (encodeOracleNumberI64 v.toInt64)
    | .int8, .int8 v => some (encodeOracleNumberI64 v)
    | .bool, .bool b => some (encodeOracleNumberI64 (if b = true then 1 else 0))
    | .float4, .float4 x => (encodeOracleNumberDecimal (F.singleText x.value)).toOption
    | .float8, .float8 x => (encodeOracleNumberDecimal (F.doubleText x.value)).toOption
    | .numeric, .numeric p => pgNumericToOracleBytes (some p.encode)
    | _, .text s => some (utf8Encode s)
    | _, _ => none
  else if oracleType = 23 then
    match d with
    | .bytea b => some b
    | _ => none
  else if oracleType = 100 then
    match d with
    | .float4 x => some (encodeBinary (toBeBytes 4 (F.singleBits x.value).toNat))
    | _ => none
  else if oracleType = 101 then
    match d with
    | .float8 x => some (encodeBinary (toBeBytes 8 (F.doubleBits x.value).toNat))
    | _ => none
  else if oracleType = 12 then
    match d with
    | .timestamp (some t) => some (encodeOracleDate t.toNaiveDateTime)
    | .timestamptz (some t) => some (encodeOracleDate (zone.wallClock t).toNaiveDateTime)
    | .date (some day) => some (encodeOracleDate day.midnight.toNaiveDateTime)
    | _ => none
  else if oracleType = 180 then
    match d with
    | .timestamp (some t) => some (encodeOracleTimestamp t.toNaiveDateTime)
    | _ => none
  else if oracleType = 181 then
    match d with
    | .timestamptz (some t) =>
      some (encodeOracleTimestampTz t.toNaiveDateTime (offsetHm (zone.offset t)) oci)
    | _ => none
  else if oracleType = 182 then
    match d with
    | .interval v => some v.encodeYearToMonth
    | _ => none
  else if oracleType = 183 then
    match d with
    | .interval v => some v.encodeDayToSecond
    | _ => none
  else
    match d with
    | .interval v => some (utf8Encode (v.oracleText (intervalIsYearToMonth col.typeModifier)))
    | .text s => some (utf8Encode s)
    | _ => none

/-! ### What the bytes are -/

/-- The number that a value is. -/
def PgDatum.number : PgDatum F → Option ℚ
  | bool b => some (if b = true then 1 else 0)
  | int2 v => some v.toInt
  | int4 v => some v.toInt
  | int8 v => some v.toInt
  | float4 x => x.literal.map Literal.value
  | float8 x => x.literal.map Literal.value
  | numeric p => p.value
  | _ => none

/-- What a clock in the zone shows. -/
def PgDatum.clock (zone : Zone) : PgDatum F → Option PgMoment
  | date d => d.map PgDay.midnight
  | timestamp t => t
  | timestamptz t => t.map zone.wallClock
  | _ => none

/-- The bytes are those of a date and a time to the second. -/
def IsDateBytes (t : PgMoment) (bytes : List UInt8) : Prop :=
  ∃ y y' month day hour minute second : UInt8, bytes = [y, y', month, day, hour, minute, second] ∧
    yearOf y y' = t.year ∧ month.toNat = t.month ∧ day.toNat = t.day ∧ hour.toNat = t.hour + 1 ∧
      minute.toNat = t.minute + 1 ∧ second.toNat = t.second + 1

/-- The bytes are those of a date and a time to the nanosecond. -/
def IsTimestampBytes (t : PgMoment) (bytes : List UInt8) : Prop :=
  ∃ dateBytes nanos, bytes = dateBytes ++ nanos ∧ IsDateBytes t dateBytes ∧ nanos.length = 4 ∧
    ofBeBytes nanos = t.nanosecond

/-- The bytes are those of an offset, to the minute, where OCI marks the hours. -/
def IsOffsetBytes (secs : ℤ) (oci : Bool) (bytes : List UInt8) : Prop :=
  ∃ hours minutes : UInt8, bytes = [hours, minutes] ∧
    ((hours.toNat : ℤ) - (if oci = true then 64 else 0) - 20) * 60 + (minutes.toNat - 60) =
      secs.tdiv 60

/-- The months of an `INTERVAL YEAR TO MONTH`. -/
def monthsOf : List UInt8 → Option ℤ
  | [y₁, y₂, y₃, y₄, months] => some ((ofBeBytes [y₁, y₂, y₃, y₄] - 0x80000000) * 12 +
      (months.toNat - 60))
  | _ => none

/-- The formats of the types that are described. -/
inductive PgFormat
  | varchar | number | date | raw | binaryFloat | binaryDouble | timestamp | timestamptz
  | yearToMonth | dayToSecond

/-- The format of a type. -/
def pgFormatOf (oracleType : UInt8) : Option PgFormat :=
  if oracleType = 1 then some .varchar
  else if oracleType = 2 then some .number
  else if oracleType = 12 then some .date
  else if oracleType = 23 then some .raw
  else if oracleType = 100 then some .binaryFloat
  else if oracleType = 101 then some .binaryDouble
  else if oracleType = 180 then some .timestamp
  else if oracleType = 181 then some .timestamptz
  else if oracleType = 182 then some .yearToMonth
  else if oracleType = 183 then some .dayToSecond
  else none

/-- Some bytes are an encoding of a value in a format. -/
inductive PgDenotes (zone : Zone) (oci : Bool) : PgDatum F → PgFormat → List UInt8 → Prop
  | number {d : PgDatum F} {v : ℚ} {bytes : List UInt8} (hv : v ∈ d.number)
    (hbytes : numberValue bytes = v) : PgDenotes zone oci d .number bytes
  | binaryFloat {x : PgFloat F.singleText} {bytes : List UInt8}
    (hbits : decodeBinary bytes = toBeBytes 4 (F.singleBits x.value).toNat) :
    PgDenotes zone oci (.float4 x) .binaryFloat bytes
  | binaryDouble {x : PgFloat F.doubleText} {bytes : List UInt8}
    (hbits : decodeBinary bytes = toBeBytes 8 (F.doubleBits x.value).toNat) :
    PgDenotes zone oci (.float8 x) .binaryDouble bytes
  | raw (b : List UInt8) : PgDenotes zone oci (.bytea b) .raw b
  | text (s : List Char) : PgDenotes zone oci (.text s) .varchar (utf8Encode s)
  | date {d : PgDatum F} {t : PgMoment} {bytes : List UInt8} (ht : t ∈ d.clock zone)
    (hbytes : IsDateBytes t bytes) : PgDenotes zone oci d .date bytes
  | timestamp {t : PgMoment} {bytes : List UInt8} (hbytes : IsTimestampBytes t bytes) :
    PgDenotes zone oci (.timestamp (some t)) .timestamp bytes
  | timestamptz {t : PgMoment} {bytes offset : List UInt8} (hbytes : IsTimestampBytes t bytes)
    (hoffset : IsOffsetBytes (zone.offset t) oci offset) :
    PgDenotes zone oci (.timestamptz (some t)) .timestamptz (bytes ++ offset)
  | yearToMonth {v : PgInterval} {bytes : List UInt8} {n : ℤ} (hbytes : monthsOf bytes = some n)
    (hv : n * 30 * dayMicros = v.total) : PgDenotes zone oci (.interval v) .yearToMonth bytes
  | dayToSecond {v : PgInterval} {bytes : List UInt8}
    (hbytes : nanosOf bytes = some (v.total * 1000)) :
    PgDenotes zone oci (.interval v) .dayToSecond bytes
  | intervalText {v : PgInterval} {s : List Char} (hs : durationOf s = some v.total) :
    PgDenotes zone oci (.interval v) .varchar (utf8Encode s)

/-- The column was declared with one of the domains of floating-point numbers, and the client takes
them. -/
def PgColumn.TakesDomain (col : PgColumn) (caps : PgCaps) (name : List Char) : Prop :=
  caps.nativeBinaryFloats = true ∧ col.declared = some ("dbsaci".toList, name)

instance (col : PgColumn) (caps : PgCaps) (name : List Char) :
    Decidable (col.TakesDomain caps name) :=
  inferInstanceAs (Decidable (_ ∧ _))

/-- A value of a column. -/
structure PgCell (F : Floats) where
  col : PgColumn
  datum : PgDatum F
  fits : datum.Fits col.type

namespace PgCell

variable (zone : Zone) (caps : PgCaps) (cell : PgCell F)

/-- What is sent: each value is encoded by the type that was described. -/
def sent : Option (List UInt8) :=
  pgValueToOracleBytes zone cell.col cell.datum (describePg cell.col caps).oracleType caps.oci

/-- Nothing is sent for no value, and for a value an encoding of it in the format that was
described. -/
def Delivered : Prop :=
  match cell.datum with
  | .null => cell.sent zone caps = none
  | d => ∃ bytes, cell.sent zone caps = some bytes ∧
      ∃ format ∈ pgFormatOf (describePg cell.col caps).oracleType,
        PgDenotes zone caps.oci d format bytes

/-- Two bytes are enough for the year. -/
def YearFits (t : PgMoment) : Prop := -10100 < t.year ∧ t.year < 15600

/-- The client takes dates with their time to the second only. -/
def ToSecond : Prop := caps.nativeTimestamps = false ∨ caps.datetimeAsDate = true

instance : Decidable (ToSecond caps) := inferInstanceAs (Decidable (_ ∨ _))

/-- A finite number in range, where a number is described. -/
def FiniteFits {α : Type} {text : α → List Char} (x : PgFloat text) : Prop :=
  ∃ l ∈ x.literal, FitsNumber l.value

/-- When what is sent is an encoding of the value. -/
def Deliverable : Prop :=
  match cell.datum with
  | .null | .bool _ | .int2 _ | .int4 _ | .int8 _ | .bytea _ | .text _ => True
  | .unread => False
  | .float4 x => ¬ cell.col.TakesDomain caps "binary_double".toList ∧
      (cell.col.TakesDomain caps "binary_float".toList ∨ FiniteFits x)
  | .float8 x => ¬ cell.col.TakesDomain caps "binary_float".toList ∧
      (cell.col.TakesDomain caps "binary_double".toList ∨ FiniteFits x)
  | .numeric p => p.Exact
  | .date d => ∃ day ∈ d, YearFits day.midnight
  | .timestamp moment => ∃ t ∈ moment, YearFits t
  | .timestamptz moment => ∃ t ∈ moment, if ToSecond caps then YearFits (zone.wallClock t)
      else YearFits t ∧ -75600 < zone.offset t
  | .interval v =>
    if caps.nativeIntervals = true then
      if intervalIsYearToMonth cell.col.typeModifier = true then v.OnlyMonths else v.DaysFit
    else if v.InMonths (intervalIsYearToMonth cell.col.typeModifier) then
      v.OnlyMonths ∧ v.months ≠ Int32.minValue
    else v.OneSign

end PgCell

/-! ### Numbers -/

/-- **The bytes of an integer are that number.** -/
theorem numberValue_encodeI64 (v : Int64) : numberValue (encodeOracleNumberI64 v) = v.toInt := by
  by_cases hv : v = 0
  · subst hv
    norm_num [encodeOracleNumberI64, numberValue, ofPairs]
    rfl
  · have hzero : v.toInt ≠ 0 := fun h => hv (Int64.toInt_inj.1 (h.trans Int64.toInt_zero.symm))
    obtain ⟨d, ds, -, hlt, hdigits⟩ := exists_digits (Int.natAbs_ne_zero.2 hzero)
    have hlen := length_digits_le hdigits
    have hvalue : ofDigits (d :: ds) = v.toInt.natAbs := by
      rw [← map_digitChar hlt, ← hdigits, ← ofDigitChars_eq, Nat.ofDigitChars_ten_toDigits]
    rw [encodeOracleNumberI64_eq hv hlt hdigits,
      numberValue_numberBytes (by omega) (leadingPairs_lt hlt), length_leadingPairs,
      ofPairs_leadingPairs, hvalue, sub_self, zpow_zero, mul_one]
    by_cases hneg : v.toInt < 0
    · rw [decide_eq_true hneg, if_pos rfl, Nat.cast_natAbs, abs_of_neg hneg]
      push_cast
      ring
    · rw [decide_eq_false hneg, if_neg Bool.false_ne_true, Nat.cast_natAbs,
        abs_of_nonneg (not_lt.1 hneg), one_mul]

/-- The text of a floating-point number is encoded to its number, if that is finite and fits. -/
lemma encode_spells_iff {s : List Char} {l : Option Literal} (h : Spells s l) :
    (∃ v ∈ l.map Literal.value, ∃ bytes, (encodeOracleNumberDecimal s).toOption = some bytes ∧
      numberValue bytes = v) ↔ ∃ l' ∈ l, FitsNumber l'.value := by
  cases h with
  | finite l short =>
    have hencode := encode_literal_iff short l.value
    rw [and_iff_left rfl] at hencode
    simp only [Option.map_some, Option.mem_some_iff, exists_eq_left', ← hencode]
    cases encodeOracleNumberDecimal l.text <;> simp [Except.toOption]
  | nan => simp
  | infinity => simp
  | negInfinity => simp

/-! ### Dates -/

lemma toNat_ofInt_mod (n : ℤ) : ((UInt8.ofInt n).toNat : ℤ) = n % 256 := by
  rw [UInt8.ofInt, UInt8.toNat_ofNat']
  omega

/-- A year is that of its two bytes if it is not too far off. -/
lemma yearOf_bytes_iff (year : ℤ) :
    yearOf (UInt8.ofInt (year.tdiv 100 + 100)) (UInt8.ofInt (year.tmod 100 + 100)) = year ↔
      -10100 < year ∧ year < 15600 := by
  rw [yearOf, toNat_ofInt_mod, toNat_ofInt_mod]
  obtain ⟨n, rfl | rfl⟩ := year.eq_nat_or_neg
  · rw [Int.tdiv_eq_ediv_of_nonneg (by omega), Int.tmod_eq_emod_of_nonneg (by omega)]
    omega
  · rw [Int.neg_tdiv, Int.neg_tmod, Int.tdiv_eq_ediv_of_nonneg (by omega),
      Int.tmod_eq_emod_of_nonneg (by omega)]
    omega

section Dates

variable (t : PgMoment)

/-- The bytes of a date are those of its fields if its year fits. -/
lemma isDateBytes_iff : IsDateBytes t (encodeOracleDate t.toNaiveDateTime) ↔ PgCell.YearFits t := by
  obtain ⟨hmonth, hday, hlast⟩ := t.isDate
  have hdays := monthDays_le t.year t.month
  have hhour := t.hour_lt
  have hminute := t.minute_lt
  have hsecond := t.second_lt
  rw [PgCell.YearFits, ← yearOf_bytes_iff]
  constructor
  · rintro ⟨y, y', month, day, hour, minute, second, hbytes, hyear, -⟩
    obtain ⟨rfl, rfl, -⟩ := List.cons.inj hbytes |>.imp id List.cons.inj
    exact hyear
  · intro hyear
    exact ⟨_, _, _, _, _, _, _, rfl, hyear, toNat_ofNat (by omega), toNat_ofNat (by omega),
      toNat_ofNat (by omega), toNat_ofNat (by omega), toNat_ofNat (by omega)⟩

lemma IsDateBytes.length {t : PgMoment} {bytes : List UInt8} (h : IsDateBytes t bytes) :
    bytes.length = 7 := by
  obtain ⟨_, _, _, _, _, _, _, rfl, -⟩ := h
  rfl

lemma isTimestampBytes_iff :
    IsTimestampBytes t (encodeOracleTimestamp t.toNaiveDateTime) ↔ PgCell.YearFits t := by
  have hnanos := t.nanosecond_lt
  rw [← isDateBytes_iff]
  constructor
  · rintro ⟨dateBytes, nanos, hbytes, hdate, -⟩
    rw [encodeOracleTimestamp] at hbytes
    obtain ⟨rfl, -⟩ := List.append_inj hbytes hdate.length.symm
    exact hdate
  · intro hdate
    refine ⟨_, _, rfl, hdate, length_toBeBytes 4 _, ?_⟩
    rw [Nat.min_eq_left (by omega), ofBeBytes_of_lt (by omega)]

lemma IsTimestampBytes.length {t : PgMoment} {bytes : List UInt8} (h : IsTimestampBytes t bytes) :
    bytes.length = 11 := by
  obtain ⟨dateBytes, nanos, rfl, hdate, hlen, -⟩ := h
  rw [List.length_append, hdate.length, hlen]

/-- The byte of the hours, without the mark of OCI. -/
lemma hourByte_iff {hours : ℤ} (h : -24 < hours ∧ hours < 24) (oci : Bool) :
    ((if oci = true then UInt8.ofInt (hours + 20) ||| 0x40
      else UInt8.ofInt (hours + 20)).toNat : ℤ) - (if oci = true then 64 else 0) - 20 = hours ↔
        -21 < hours := by
  by_cases hwest : -21 < hours
  · refine iff_of_true ?_ hwest
    cases oci with
    | true => rw [if_pos rfl, if_pos rfl, toNat_or_bit (by omega)]; omega
    | false =>
      rw [if_neg Bool.false_ne_true, if_neg Bool.false_ne_true, toNat_ofInt (by omega)]
      omega
  · -- hours too far to the west are taken for hours in the east
    refine iff_of_false ?_ hwest
    obtain rfl | rfl | rfl : hours = -23 ∨ hours = -22 ∨ hours = -21 := by omega
    all_goals cases oci <;> decide

/-- The bytes of an offset are those of its minutes if it is not too far to the west. -/
lemma isOffsetBytes_iff {secs : ℤ} (h : -86400 < secs ∧ secs < 86400) (oci : Bool) :
    IsOffsetBytes secs oci [if oci = true then UInt8.ofInt ((offsetHm secs).1 + 20) ||| 0x40
      else UInt8.ofInt ((offsetHm secs).1 + 20), UInt8.ofInt ((offsetHm secs).2 + 60)] ↔
        -75600 < secs := by
  obtain ⟨hminutes, hhours, hwest, hsplit⟩ : (-60 < (offsetHm secs).2 ∧ (offsetHm secs).2 < 60) ∧
      (-24 < (offsetHm secs).1 ∧ (offsetHm secs).1 < 24) ∧
      (-21 < (offsetHm secs).1 ↔ -75600 < secs) ∧
      secs.tdiv 60 = (offsetHm secs).1 * 60 + (offsetHm secs).2 := by
    obtain ⟨n, ⟨rfl, hn⟩ | ⟨rfl, hn⟩⟩ := offsetHm_cases secs
    · rw [hn, Int.tdiv_eq_ediv_of_nonneg (by omega)]
      omega
    · rw [hn, Int.neg_tdiv, Int.tdiv_eq_ediv_of_nonneg (by omega)]
      omega
  have hbyte := toNat_ofInt (n := (offsetHm secs).2 + 60) (by omega)
  rw [← hwest, ← hourByte_iff hhours oci, IsOffsetBytes, hsplit]
  constructor
  · rintro ⟨hours, minutes, hbytes, heq⟩
    obtain ⟨rfl, hrest⟩ := List.cons.inj hbytes
    obtain ⟨rfl, -⟩ := List.cons.inj hrest
    omega
  · intro heq
    exact ⟨_, _, rfl, by omega⟩

end Dates

/-! ### Intervals -/

namespace PgInterval

variable (v : PgInterval)

/-- The bytes of years and months are those of the months. -/
lemma monthsOf_encode : monthsOf v.encodeYearToMonth = some v.months.toInt := by
  have hlow := v.months.le_toInt
  have hhigh := v.months.toInt_lt
  obtain ⟨b₁, b₂, b₃, b₄, hbytes, hyears⟩ := exists_ofBeBytes (v.months.toInt.tdiv 12 + 0x80000000)
  obtain ⟨hsplit, hmonths, hrange⟩ : v.months.toInt.tdiv 12 * 12 + v.months.toInt.tmod 12 =
      v.months.toInt ∧ (-12 < v.months.toInt.tmod 12 ∧ v.months.toInt.tmod 12 < 12) ∧
        -0x80000000 ≤ v.months.toInt.tdiv 12 ∧ v.months.toInt.tdiv 12 < 0x80000000 := by
    obtain ⟨n, hn | hn⟩ := v.months.toInt.eq_nat_or_neg
    · rw [hn, Int.tdiv_eq_ediv_of_nonneg (by omega), Int.tmod_eq_emod_of_nonneg (by omega)]
      omega
    · rw [hn, Int.neg_tdiv, Int.neg_tmod, Int.tdiv_eq_ediv_of_nonneg (by omega),
        Int.tmod_eq_emod_of_nonneg (by omega)]
      omega
  have hmonth := toNat_ofInt (n := v.months.toInt.tmod 12 + 60) (by omega)
  rw [encodeYearToMonth, hbytes]
  simp only [List.cons_append, List.nil_append, monthsOf, hyears, hmonth, Option.some.injEq]
  omega

/-- The length in months is the length if nothing is beside the months. -/
lemma monthsTotal_iff : v.months.toInt * 30 * dayMicros = v.total ↔ v.OnlyMonths := by
  rw [total, OnlyMonths, dayMicros]
  omega

/-- The text of an interval is its length if nothing is beside the months, or if one sign is
enough. -/
lemma durationOf_text_iff (yearToMonth : Bool) :
    durationOf (v.oracleText yearToMonth) = some v.total ↔
      if v.InMonths yearToMonth then v.OnlyMonths ∧ v.months ≠ Int32.minValue else v.OneSign := by
  split_ifs with hin
  · by_cases hmin : v.months = Int32.minValue
    · -- the text has two signs
      have hin' := hin
      unfold InMonths at hin'
      have htext : v.oracleText yearToMonth = "--178956970--8".toList := by
        rw [oracleText, if_pos hin', hmin]
        decide
      have hnone : durationOf "--178956970--8".toList = none := by decide
      rw [htext, hnone]
      exact iff_of_false (Option.some_ne_none _).symm fun h => h.2 hmin
    · rw [durationOf_months_iff_of_ne hin fun h => hmin (Int32.toInt_inj.1 h), and_iff_left hmin]
  · exact durationOf_days_iff hin

end PgInterval

/-! ### Cells -/

/-- A number with the groups that fit is encoded to itself if it is whole or has a scale. -/
lemma PgNumeric.encode_value_iff (p : PgNumeric) {v : ℚ} (hv : v ∈ p.value) :
    (∃ bytes, pgNumericToOracleBytes (some p.encode) = some bytes ∧ numberValue bytes = v) ↔
      p.Exact := by
  have hsign : p.sign ≠ .nan := by
    intro hnan
    rw [value, hnan] at hv
    cases hv
  have hvalue : ∀ w, w ∈ p.value ↔ w = v := fun w => by
    rw [Option.mem_def.1 hv, Option.mem_some_iff, eq_comm]
  rw [p.toOracleBytes_encode hsign]
  by_cases hfew : p.groups.length < 32768
  · obtain ⟨hint, hfrac⟩ := p.length_literal hfew
    have hencode := encode_literal_iff (.of_plain rfl hint hfrac : p.literal.Short) v
    have hexact : p.Exact ↔ p.literal.value = v ∧ FitsNumber v := by
      rw [p.value_literal_eq_iff hv]
      constructor
      · rintro ⟨-, hwhole, w, hw, hfits⟩
        exact ⟨hwhole, (hvalue w).1 hw ▸ hfits⟩
      · rintro ⟨hwhole, hfits⟩
        exact ⟨hfew, hwhole, v, hv, hfits⟩
    have hswap : FitsNumber p.literal.value ∧ p.literal.value = v ↔
        p.literal.value = v ∧ FitsNumber v := by
      constructor
      · rintro ⟨hfits, heq⟩
        exact ⟨heq, heq ▸ hfits⟩
      · rintro ⟨heq, hfits⟩
        exact ⟨heq.symm ▸ hfits, heq⟩
    rw [if_pos hfew, hexact]
    refine Iff.trans ?_ (hencode.trans hswap)
    cases encodeOracleNumberDecimal p.literal.text <;> simp [Except.toOption]
  · rw [if_neg hfew]
    refine iff_of_false ?_ fun hexact => hfew hexact.length_le
    rintro ⟨_, hnone, -⟩
    cases hnone

/-- Only a column with floating-point numbers is described by its domain. -/
lemma describePg_of_ne {col : PgColumn} (caps : PgCaps)
    (h : col.type ≠ .float4 ∧ col.type ≠ .float8) :
    describePg col caps = pgColumnToOracleMeta col caps := by
  rw [describePg, refineOracleDomain, if_pos h]

namespace PgCell

variable (zone : Zone) (caps : PgCaps) {col : PgColumn}

/-- A value that is sent in some format. -/
lemma delivered_iff_sent (d : PgDatum F) (hd : d.Fits col.type) (hnull : d ≠ .null) {ty : UInt8}
    (htype : (describePg col caps).oracleType = ty) (format : PgFormat)
    (hformat : pgFormatOf ty = some format) :
    Delivered zone caps ⟨col, d, hd⟩ ↔ ∃ bytes,
      pgValueToOracleBytes zone col d ty caps.oci = some bytes ∧
        PgDenotes zone caps.oci d format bytes := by
  subst htype
  rw [Delivered]
  split
  next hdatum => exact absurd hdatum hnull
  next => simp only [sent, hformat, Option.mem_some_iff, exists_eq_left']

/-- No value is sent as none. -/
lemma delivered_null : Delivered zone caps ⟨col, (.null : PgDatum F), trivial⟩ := by
  have hnone : ∀ ty, pgValueToOracleBytes zone col (.null : PgDatum F) ty caps.oci = none := by
    intro ty
    unfold pgValueToOracleBytes
    split_ifs
    · cases col.type <;> rfl
    all_goals rfl
  exact hnone _

/-- A number is sent as itself. -/
lemma delivered_number (d : PgDatum F) (hd : d.Fits col.type) (hnull : d ≠ .null)
    (htype : (describePg col caps).oracleType = 2) :
    Delivered zone caps ⟨col, d, hd⟩ ↔ ∃ v ∈ d.number, ∃ bytes,
      pgValueToOracleBytes zone col d 2 caps.oci = some bytes ∧ numberValue bytes = v := by
  rw [delivered_iff_sent zone caps d hd hnull htype .number rfl]
  constructor
  · rintro ⟨bytes, hsome, hdenotes⟩
    cases hdenotes with
    | number hv hbytes => exact ⟨_, hv, bytes, hsome, hbytes⟩
  · rintro ⟨v, hv, bytes, hsome, hbytes⟩
    exact ⟨bytes, hsome, .number hv hbytes⟩

/-- An integer is described as a number. -/
lemma oracleType_integer (h : col.type ∈ [PgType.bool, .int2, .int4, .int8]) :
    (describePg col caps).oracleType = 2 := by
  have hne : ∀ ty ∈ [PgType.bool, .int2, .int4, .int8], ty ≠ .float4 ∧ ty ≠ .float8 := by decide
  rw [describePg_of_ne caps (hne _ h), pgColumnToOracleMeta]
  simp only [List.mem_cons, List.not_mem_nil, or_false] at h
  rcases h with h | h | h | h <;> rw [h] <;> rfl

/-- An integer is sent as itself. -/
lemma delivered_integer (d : PgDatum F) (hd : d.Fits col.type) (hnull : d ≠ .null)
    (htype : (describePg col caps).oracleType = 2) {v : Int64} {q : ℚ}
    (hsent : pgValueToOracleBytes zone col d 2 caps.oci = some (encodeOracleNumberI64 v))
    (hnumber : d.number = some q) (hq : (v.toInt : ℚ) = q) :
    Delivered zone caps ⟨col, d, hd⟩ :=
  (delivered_number zone caps d hd hnull htype).2
    ⟨q, hnumber, _, hsent, (numberValue_encodeI64 v).trans hq⟩

/-- How a floating-point number is described. -/
lemma oracleType_float (h : col.type = .float4 ∨ col.type = .float8) :
    (describePg col caps).oracleType =
      if col.TakesDomain caps "binary_double".toList then 101
      else if col.TakesDomain caps "binary_float".toList then 100 else 2 := by
  have hmeta : pgColumnToOracleMeta col caps = .number col.name 38 0 := by
    rcases h with h | h <;> rw [pgColumnToOracleMeta, h]
  have htype : ¬ (col.type ≠ .float4 ∧ col.type ≠ .float8) := fun hne => h.elim hne.1 hne.2
  have htwo : (ColumnMeta.number col.name 38 0).oracleType = 2 := rfl
  rw [describePg, refineOracleDomain, if_neg htype, hmeta]
  cases hdeclared : col.declared with
  | none =>
    have hne : ∀ name, ¬ col.TakesDomain caps name := fun name hd => by
      rw [PgColumn.TakesDomain, hdeclared] at hd
      cases hd.2
    rw [if_neg (hne _), if_neg (hne _)]
    exact htwo
  | some declared =>
    obtain ⟨nsp, typname⟩ := declared
    have htakes : ∀ name, col.TakesDomain caps name ↔
        caps.nativeBinaryFloats = true ∧ nsp = "dbsaci".toList ∧ typname = name := by
      intro name
      rw [PgColumn.TakesDomain, hdeclared, Option.some.injEq, Prod.mk.injEq]
    simp only [htakes, htwo]
    by_cases hnsp : nsp = "dbsaci".toList
    · rw [if_neg (not_not.2 hnsp)]
      simp only [hnsp, true_and, and_comm]
      split_ifs <;> rfl
    · rw [if_pos hnsp, if_neg fun h => hnsp h.2.1, if_neg fun h => hnsp h.2.1]
      exact htwo

section Floats

variable (zone : Zone) (caps : PgCaps)

/-- A single number is sent as one, or as a number if it is finite and fits. -/
lemma delivered_float4 {x : PgFloat F.singleText} (h : col.type = .float4) :
    Delivered zone caps ⟨col, .float4 x, h⟩ ↔ ¬ col.TakesDomain caps "binary_double".toList ∧
      (col.TakesDomain caps "binary_float".toList ∨ FiniteFits x) := by
  have htype := oracleType_float caps (.inl h)
  by_cases hdouble : col.TakesDomain caps "binary_double".toList
  · rw [if_pos hdouble] at htype
    rw [delivered_iff_sent zone caps (.float4 x) h nofun htype .binaryDouble rfl]
    exact iff_of_false (fun ⟨_, hnone, _⟩ => nomatch hnone) fun hd => hd.1 hdouble
  rw [if_neg hdouble] at htype
  by_cases hsingle : col.TakesDomain caps "binary_float".toList
  · rw [if_pos hsingle] at htype
    rw [delivered_iff_sent zone caps (.float4 x) h nofun htype .binaryFloat rfl]
    exact iff_of_true ⟨_, rfl, .binaryFloat (decodeBinary_encodeBinary _)⟩ ⟨hdouble, .inl hsingle⟩
  · rw [if_neg hsingle] at htype
    have hsent : pgValueToOracleBytes zone col (.float4 x) 2 caps.oci =
        (encodeOracleNumberDecimal (F.singleText x.value)).toOption := by
      unfold pgValueToOracleBytes
      rw [if_pos rfl, h]
    rw [delivered_number zone caps (.float4 x) h nofun htype, hsent, and_iff_right hdouble,
      or_iff_right hsingle]
    exact encode_spells_iff x.spells

/-- A double number is sent as one, or as a number if it is finite and fits. -/
lemma delivered_float8 {x : PgFloat F.doubleText} (h : col.type = .float8) :
    Delivered zone caps ⟨col, .float8 x, h⟩ ↔ ¬ (col.TakesDomain caps "binary_float".toList) ∧
      (col.TakesDomain caps "binary_double".toList ∨ FiniteFits x) := by
  have htype := oracleType_float caps (.inr h)
  by_cases hdouble : col.TakesDomain caps "binary_double".toList
  · have hsingle : ¬ col.TakesDomain caps "binary_float".toList := by
      intro hsingle
      exact absurd (hdouble.2.symm.trans hsingle.2) (by decide)
    rw [if_pos hdouble] at htype
    rw [delivered_iff_sent zone caps (.float8 x) h nofun htype .binaryDouble rfl]
    exact iff_of_true ⟨_, rfl, .binaryDouble (decodeBinary_encodeBinary _)⟩ ⟨hsingle, .inl hdouble⟩
  rw [if_neg hdouble] at htype
  by_cases hsingle : col.TakesDomain caps "binary_float".toList
  · rw [if_pos hsingle] at htype
    rw [delivered_iff_sent zone caps (.float8 x) h nofun htype .binaryFloat rfl]
    exact iff_of_false (fun ⟨_, hnone, _⟩ => nomatch hnone) fun hd => hd.1 hsingle
  · rw [if_neg hsingle] at htype
    have hsent : pgValueToOracleBytes zone col (.float8 x) 2 caps.oci =
        (encodeOracleNumberDecimal (F.doubleText x.value)).toOption := by
      unfold pgValueToOracleBytes
      rw [if_pos rfl, h]
    rw [delivered_number zone caps (.float8 x) h nofun htype, hsent, and_iff_right hsingle,
      or_iff_right hdouble]
    exact encode_spells_iff x.spells

end Floats

section Moments

/-- A column whose values are dates with their time is described as one of dates, if the client
takes them to the second only. -/
lemma oracleType_moment (h : col.type = .timestamp ∨ col.type = .timestamptz) :
    (describePg col caps).oracleType =
      if ToSecond caps then 12 else if col.type = .timestamp then 180 else 181 := by
  have hne : col.type ≠ .float4 ∧ col.type ≠ .float8 := by
    rcases h with h | h <;> rw [h] <;> decide
  rw [describePg_of_ne caps hne, pgColumnToOracleMeta]
  by_cases hsecond : ToSecond caps
  · have hdate : caps.nativeTimestamps = false ∨ caps.datetimeAsDate = true := hsecond
    rw [if_pos hsecond]
    rcases h with h | h
    · rw [h]
      exact congrArg ColumnMeta.oracleType (if_pos hdate)
    · rw [h]
      exact congrArg ColumnMeta.oracleType (if_pos hdate)
  · have hdate : ¬ (caps.nativeTimestamps = false ∨ caps.datetimeAsDate = true) := hsecond
    rw [if_neg hsecond]
    rcases h with h | h
    · rw [h]
      exact congrArg ColumnMeta.oracleType (if_neg hdate)
    · rw [h]
      have hzoned : ¬ PgType.timestamptz = .timestamp := by decide
      rw [if_neg hzoned]
      dsimp only
      rw [if_neg hdate]
      by_cases hoci : caps.oci = true
      · rw [if_pos hoci]
        rfl
      · rw [if_neg hoci]
        rfl

/-- A date is sent if its year fits. -/
lemma delivered_clock (d : PgDatum F) (hd : d.Fits col.type) (hnull : d ≠ .null)
    (htype : (describePg col caps).oracleType = 12)
    (hsent : pgValueToOracleBytes zone col d 12 caps.oci =
      (d.clock zone).map fun t => encodeOracleDate t.toNaiveDateTime) :
    Delivered zone caps ⟨col, d, hd⟩ ↔ ∃ t ∈ d.clock zone, YearFits t := by
  rw [delivered_iff_sent zone caps d hd hnull htype .date rfl, hsent]
  constructor
  · rintro ⟨bytes, hsome, hdenotes⟩
    cases hdenotes with
    | date ht hbytes =>
      rw [Option.mem_def.1 ht, Option.map_some, Option.some.injEq] at hsome
      exact ⟨_, ht, (isDateBytes_iff _).1 (hsome ▸ hbytes)⟩
  · rintro ⟨t, ht, hfits⟩
    exact ⟨_, by rw [Option.mem_def.1 ht]; rfl, .date ht ((isDateBytes_iff t).2 hfits)⟩

/-- A moment is sent if its year fits, with its offset if that is not too far to the west. -/
lemma delivered_timestamptz {moment : Option PgMoment} (h : col.type = .timestamptz) :
    Delivered zone caps ⟨col, (.timestamptz moment : PgDatum F), h⟩ ↔
      ∃ t ∈ moment, if ToSecond caps then YearFits (zone.wallClock t)
        else YearFits t ∧ -75600 < zone.offset t := by
  have htype := oracleType_moment caps (.inr h)
  have hzoned : ¬ col.type = .timestamp := by rw [h]; decide
  by_cases hsecond : ToSecond caps
  · rw [if_pos hsecond] at htype
    simp only [if_pos hsecond]
    rw [delivered_clock zone caps (.timestamptz moment) h nofun htype (by cases moment <;> rfl)]
    simp [PgDatum.clock]
  · rw [if_neg hsecond, if_neg hzoned] at htype
    simp only [if_neg hsecond]
    rw [delivered_iff_sent zone caps (.timestamptz moment) h nofun htype .timestamptz rfl]
    cases moment with
    | none =>
      exact iff_of_false (fun ⟨_, hnone, _⟩ => nomatch hnone) fun ⟨_, hnone, _⟩ => nomatch hnone
    | some t =>
      simp only [Option.mem_some_iff, exists_eq_left', ← isTimestampBytes_iff,
        ← isOffsetBytes_iff (zone.offset_mem t) caps.oci]
      constructor
      · rintro ⟨bytes, hsome, hdenotes⟩
        have hbytes := Option.some.inj hsome
        rw [encodeOracleTimestampTz] at hbytes
        cases hdenotes with
        | timestamptz htime hoffset =>
          have hlen : (encodeOracleTimestamp t.toNaiveDateTime).length = 11 := rfl
          obtain ⟨rfl, rfl⟩ := List.append_inj hbytes (hlen.trans htime.length.symm)
          exact ⟨htime, hoffset⟩
      · rintro ⟨hbytes, hoffset⟩
        exact ⟨_, rfl, .timestamptz hbytes hoffset⟩

/-- A moment without a zone is sent if its year fits. -/
lemma delivered_timestamp {moment : Option PgMoment} (h : col.type = .timestamp) :
    Delivered zone caps ⟨col, (.timestamp moment : PgDatum F), h⟩ ↔ ∃ t ∈ moment, YearFits t := by
  have htype := oracleType_moment caps (.inl h)
  by_cases hsecond : ToSecond caps
  · rw [if_pos hsecond] at htype
    exact delivered_clock zone caps (.timestamp moment) h nofun htype (by cases moment <;> rfl)
  · rw [if_neg hsecond, if_pos h] at htype
    rw [delivered_iff_sent zone caps (.timestamp moment) h nofun htype .timestamp rfl]
    cases moment with
    | none =>
      exact iff_of_false (fun ⟨_, hnone, _⟩ => nomatch hnone) fun ⟨_, hnone, _⟩ => nomatch hnone
    | some t =>
      simp only [Option.mem_some_iff, exists_eq_left', ← isTimestampBytes_iff]
      constructor
      · rintro ⟨bytes, hsome, hdenotes⟩
        obtain rfl := Option.some.inj hsome
        cases hdenotes with
        | timestamp hbytes => exact hbytes
      · intro hbytes
        exact ⟨_, rfl, .timestamp hbytes⟩

end Moments

/-- An interval is sent if its fields, or its text, have room for it. -/
lemma delivered_interval {v : PgInterval} (h : col.type = .interval) :
    Delivered zone caps ⟨col, (.interval v : PgDatum F), h⟩ ↔
      if caps.nativeIntervals = true then
        if intervalIsYearToMonth col.typeModifier = true then v.OnlyMonths else v.DaysFit
      else if v.InMonths (intervalIsYearToMonth col.typeModifier) then
        v.OnlyMonths ∧ v.months ≠ Int32.minValue
      else v.OneSign := by
  have hne : col.type ≠ .float4 ∧ col.type ≠ .float8 := by rw [h]; decide
  have htype : (describePg col caps).oracleType = if caps.nativeIntervals = true then
      if intervalIsYearToMonth col.typeModifier = true then 182 else 183 else 1 := by
    rw [describePg_of_ne caps hne, pgColumnToOracleMeta, h]
    dsimp only
    cases caps.nativeIntervals <;> cases intervalIsYearToMonth col.typeModifier <;> rfl
  by_cases hnative : caps.nativeIntervals = true
  · rw [if_pos hnative] at htype ⊢
    by_cases hmonths : intervalIsYearToMonth col.typeModifier = true
    · rw [if_pos hmonths] at htype ⊢
      rw [delivered_iff_sent zone caps (.interval v) h nofun htype .yearToMonth rfl,
        ← v.monthsTotal_iff]
      constructor
      · rintro ⟨bytes, hsome, hdenotes⟩
        obtain rfl := Option.some.inj hsome
        cases hdenotes with
        | yearToMonth hbytes hv =>
          obtain rfl := Option.some.inj (v.monthsOf_encode.symm.trans hbytes)
          exact hv
      · intro hv
        exact ⟨_, rfl, .yearToMonth v.monthsOf_encode hv⟩
    · rw [if_neg hmonths] at htype ⊢
      rw [delivered_iff_sent zone caps (.interval v) h nofun htype .dayToSecond rfl,
        ← v.nanosOf_encode_iff]
      constructor
      · rintro ⟨bytes, hsome, hdenotes⟩
        obtain rfl := Option.some.inj hsome
        cases hdenotes with
        | dayToSecond hbytes => exact hbytes
      · intro hbytes
        exact ⟨_, rfl, .dayToSecond hbytes⟩
  · rw [if_neg hnative] at htype ⊢
    rw [delivered_iff_sent zone caps (.interval v) h nofun htype .varchar rfl,
      ← v.durationOf_text_iff]
    constructor
    · rintro ⟨bytes, hsome, hdenotes⟩
      have hbytes := Option.some.inj hsome
      cases hdenotes with
      | intervalText hs =>
        have htext := congrArg utf8Decode hbytes
        rw [utf8Decode_encode, utf8Decode_encode] at htext
        rw [Option.some.inj htext]
        exact hs
    · intro hs
      exact ⟨_, rfl, .intervalText hs⟩

/-- A text is sent as it is. -/
lemma delivered_text {s : List Char} (h : col.type.readsText = true) :
    Delivered zone caps ⟨col, (.text s : PgDatum F), h⟩ := by
  have hne : col.type ≠ .float4 ∧ col.type ≠ .float8 := by
    constructor <;> rintro htype <;> rw [htype] at h <;> cases h
  have htype : (describePg col caps).oracleType = 1 := by
    rw [describePg_of_ne caps hne, pgColumnToOracleMeta]
    cases htype : col.type <;> rw [htype] at h <;> first | rfl | cases h
  exact (delivered_iff_sent zone caps (.text s) h nofun htype .varchar rfl).2
    ⟨_, rfl, .text s⟩

/-- Bytes are sent as they are. -/
lemma delivered_bytea {b : List UInt8} (h : col.type = .bytea) :
    Delivered zone caps ⟨col, (.bytea b : PgDatum F), h⟩ := by
  have htype : (describePg col caps).oracleType = 23 := by
    rw [describePg_of_ne caps (by rw [h]; decide), pgColumnToOracleMeta, h]
    rfl
  exact (delivered_iff_sent zone caps (.bytea b) h nofun htype .raw rfl).2
    ⟨_, rfl, .raw b⟩

/-- A day is sent if its year fits. -/
lemma delivered_date {day : Option PgDay} (h : col.type = .date) :
    Delivered zone caps ⟨col, (.date day : PgDatum F), h⟩ ↔ ∃ d ∈ day, YearFits d.midnight := by
  have htype : (describePg col caps).oracleType = 12 := by
    rw [describePg_of_ne caps (by rw [h]; decide), pgColumnToOracleMeta, h]
    rfl
  rw [delivered_clock zone caps (.date day) h nofun htype (by cases day <;> rfl)]
  simp [PgDatum.clock]

/-- A `NUMERIC` is sent if its number fits, with what is behind the point. -/
lemma delivered_numeric {p : PgNumeric} (h : col.type = .numeric) :
    Delivered zone caps ⟨col, (.numeric p : PgDatum F), h⟩ ↔ p.Exact := by
  have htype : (describePg col caps).oracleType = 2 := by
    rw [describePg_of_ne caps (by rw [h]; decide), pgColumnToOracleMeta, h]
    dsimp only
    split_ifs <;> rfl
  have hsent : pgValueToOracleBytes zone col (.numeric p : PgDatum F) 2 caps.oci =
      pgNumericToOracleBytes (some p.encode) := by
    unfold pgValueToOracleBytes
    rw [if_pos rfl, h]
  rw [delivered_number zone caps (.numeric p) h nofun htype, hsent]
  constructor
  · rintro ⟨v, hv, hbytes⟩
    exact (p.encode_value_iff hv).1 hbytes
  · intro hexact
    obtain ⟨v, hv, -⟩ := hexact.fits
    exact ⟨v, hv, (p.encode_value_iff hv).2 hexact⟩

/-- A value of a type that is not read is sent as no value. -/
lemma not_delivered_unread (h : (.unread : PgDatum F).Fits col.type) :
    ¬ Delivered zone caps ⟨col, (.unread : PgDatum F), h⟩ := by
  have hnone : ∀ ty, pgValueToOracleBytes zone col (.unread : PgDatum F) ty caps.oci = none := by
    intro ty
    unfold pgValueToOracleBytes
    split_ifs
    · cases col.type <;> rfl
    all_goals rfl
  rintro ⟨bytes, hsome, -⟩
  rw [sent, hnone] at hsome
  cases hsome

/-- **What is sent for a value of a column of PostgreSQL is an encoding of it in the format that was
described, exactly if the value is deliverable.** -/
theorem pgDelivered_iff (cell : PgCell F) :
    cell.Delivered zone caps ↔ cell.Deliverable zone caps := by
  obtain ⟨col, d, hd⟩ := cell
  cases d with
  | null => exact iff_of_true (delivered_null zone caps) trivial
  | bool b =>
    have htype : (describePg col caps).oracleType = 2 :=
      oracleType_integer caps (by simp [show col.type = .bool from hd])
    refine iff_of_true (delivered_integer zone caps (.bool b) hd nofun htype
      (v := if b = true then 1 else 0) ?_ rfl ?_) trivial
    · unfold pgValueToOracleBytes
      rw [if_pos rfl, hd]
    · cases b <;> simp
  | int2 v =>
    have htype : (describePg col caps).oracleType = 2 :=
      oracleType_integer caps (by simp [show col.type = .int2 from hd])
    refine iff_of_true (delivered_integer zone caps (.int2 v) hd nofun htype (v := v.toInt64) ?_ rfl
      (by rw [Int16.toInt_toInt64])) trivial
    unfold pgValueToOracleBytes
    rw [if_pos rfl, hd]
  | int4 v =>
    have htype : (describePg col caps).oracleType = 2 :=
      oracleType_integer caps (by simp [show col.type = .int4 from hd])
    refine iff_of_true (delivered_integer zone caps (.int4 v) hd nofun htype (v := v.toInt64) ?_ rfl
      (by rw [Int32.toInt_toInt64])) trivial
    unfold pgValueToOracleBytes
    rw [if_pos rfl, hd]
  | int8 v =>
    have htype : (describePg col caps).oracleType = 2 :=
      oracleType_integer caps (by simp [show col.type = .int8 from hd])
    refine iff_of_true (delivered_integer zone caps (.int8 v) hd nofun htype (v := v) ?_ rfl rfl)
      trivial
    unfold pgValueToOracleBytes
    rw [if_pos rfl, hd]
  | float4 x => exact delivered_float4 zone caps hd
  | float8 x => exact delivered_float8 zone caps hd
  | numeric p => exact delivered_numeric zone caps hd
  | bytea b => exact iff_of_true (delivered_bytea zone caps hd) trivial
  | text s => exact iff_of_true (delivered_text zone caps hd) trivial
  | date d => exact delivered_date zone caps hd
  | timestamp moment => exact delivered_timestamp zone caps hd
  | timestamptz moment => exact delivered_timestamptz zone caps hd
  | interval v => exact delivered_interval zone caps hd
  | unread => exact iff_of_false (not_delivered_unread zone caps hd) id

end PgCell

end DbSaci.Backend
