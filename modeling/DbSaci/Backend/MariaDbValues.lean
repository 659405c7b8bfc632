import DbSaci.Library.Utf8
import DbSaci.Wire.Number
import DbSaci.Wire.OciResponse
import DbSaci.Wire.Temporal

set_option relaxedAutoImplicit false
set_option autoImplicit false

/-!
# Values of MariaDB

How a column is described depends on its type, its character set and what the client has
negotiated. How a value is encoded depends on the type of the column too, and on the constructor
the driver gives it, which is another one with binds than without.

## Main definitions

* `Floats`, `Chrono` — what is used of the floating-point numbers and of the library for dates.
* `Value` — a value as the driver gives it.
* `describe` — the description of a column.
* `encodeValueForColumn` — the bytes of a value.
-/

namespace DbSaci.Backend

open Wire Text

/-! ### Floating-point numbers -/

/-- What is used of the floating-point numbers: their text, conversions to the nearest number, and
their bits. -/
structure Floats where
  Single : Type
  Double : Type
  singleText : Single → List Char
  doubleText : Double → List Char
  parse : List Char → Option Double
  widen : Single → Double
  narrow : Double → Single
  ofInt : ℤ → Double
  singleBits : Single → UInt32
  doubleBits : Double → UInt64

/-- Numbers that are all zero. -/
def zeroFloats : Floats where
  Single := Unit
  Double := Unit
  singleText _ := ['0']
  doubleText _ := ['0']
  parse _ := some ()
  widen := id
  narrow := id
  ofInt _ := ()
  singleBits _ := 0
  doubleBits _ := 0

variable (F : Floats)

/-- `encode_binary_double` and `encode_binary_float`, of the bytes of a number. -/
def encodeBinary (b : List UInt8) : List UInt8 :=
  match b with
  | [] => []
  | first :: rest =>
    if first &&& 0x80 = 0 then (first ||| 0x80) :: rest else b.map fun byte => ~~~byte

/-! ### Dates -/

/-- A date with its time. -/
structure NaiveDateTime where
  year : ℤ
  month : ℕ
  day : ℕ
  hour : ℕ
  minute : ℕ
  second : ℕ
  nanosecond : ℕ
  deriving DecidableEq

/-- What is used of the library for dates: texts are parsed by their format. -/
structure Chrono where
  parseDateTime : List Char → List Char → Option NaiveDateTime
  parseDate : List Char → List Char → Option (ℤ × ℕ × ℕ)

/-- `encode_oracle_date`. -/
def encodeOracleDate (value : NaiveDateTime) : List UInt8 :=
  [UInt8.ofInt (value.year.tdiv 100 + 100), UInt8.ofInt (value.year.tmod 100 + 100),
    UInt8.ofNat value.month, UInt8.ofNat value.day, UInt8.ofNat (value.hour + 1),
    UInt8.ofNat (value.minute + 1), UInt8.ofNat (value.second + 1)]

/-- `encode_oracle_timestamp`, without a time zone. -/
def encodeOracleTimestamp (value : NaiveDateTime) : List UInt8 :=
  encodeOracleDate value ++ toBeBytes 4 (min value.nanosecond 999999999)

/-- `parse_mariadb_datetime`. -/
def parseMariadbDatetime (c : Chrono) (text : List Char) : Option NaiveDateTime :=
  let text := trim text
  (c.parseDateTime "%Y-%m-%d %H:%M:%S%.f".toList text).or
    ((c.parseDateTime "%Y-%m-%d %H:%M:%S".toList text).or
      ((c.parseDate "%Y-%m-%d".toList text).map fun date =>
        ⟨date.1, date.2.1, date.2.2, 0, 0, 0, 0⟩))

/-! ### Columns -/

/-- The type of a column, as the protocol has it. -/
inductive ColumnType
  | decimal | tiny | short | long | float | double | null | timestamp | longlong | int24 | date
  | time | datetime | year | newdate | varchar | bit | timestamp2 | datetime2 | time2 | json
  | newdecimal | enum | set | tinyBlob | mediumBlob | longBlob | blob | varString | string
  | geometry
  deriving DecidableEq, Repr

/-- `is_numeric_column`. -/
def isNumericColumn (kind : ColumnType) : Bool :=
  [.float, .double, .decimal, .newdecimal, .longlong, .long, .short, .tiny, .int24, .year].contains
    kind

/-- `is_temporal_column`. -/
def isTemporalColumn (kind : ColumnType) : Bool :=
  [.date, .newdate, .datetime, .datetime2, .timestamp, .timestamp2, .time, .time2].contains kind

/-- `is_binary_string_column`. -/
def isBinaryStringColumn (kind : ColumnType) : Bool :=
  [.tinyBlob, .mediumBlob, .longBlob, .blob, .string, .varString, .varchar, .geometry].contains kind

/-- What the driver knows of a column. -/
structure Column where
  name : List Char
  kind : ColumnType
  characterSet : UInt16
  decimals : UInt8
  columnLength : UInt32

/-- What the client has negotiated, as far as it matters here. -/
structure DescribeCaps where
  reportNumberScale : Bool
  nativeTimestamps : Bool
  timestampScaleZero : Bool
  datetimeAsDate : Bool

/-- How a date is delivered. -/
inductive TemporalWire
  | none
  | date
  | timestamp (scale : Int8)
  deriving DecidableEq

/-- How a floating-point number is delivered. -/
inductive FloatWire
  | number
  | binaryFloat
  | binaryDouble
  deriving DecidableEq

/-- `temporal_wire`. -/
def temporalWire (col : Column) (caps : DescribeCaps) : TemporalWire :=
  if isTemporalColumn col.kind = false then .none
  else if col.kind = .time ∨ col.kind = .time2 then .none
  else if 0 < col.decimals ∧ caps.nativeTimestamps = true ∧ caps.datetimeAsDate = false then
    .timestamp (if caps.timestampScaleZero = true then 0
      else (UInt8.ofNat (min col.decimals.toNat 9)).toInt8)
  else .date

/-- The description of a column in `open_cursor`. -/
def describe (col : Column) (caps : DescribeCaps) (float : FloatWire) : ColumnMeta :=
  match temporalWire col caps with
  | .timestamp scale => .timestamp col.name scale
  | .date => .date col.name
  | .none =>
    match float with
    | .binaryDouble => .plain col.name 101 0 0 8
    | .binaryFloat => .plain col.name 100 0 0 4
    | .number =>
      if col.characterSet = 63 ∧ isBinaryStringColumn col.kind = true ∧
          isNumericColumn col.kind = false then .raw col.name 4000
      else if [ColumnType.float, .double, .decimal, .newdecimal, .longlong, .long, .short,
          .tiny].contains col.kind = true then
        if caps.reportNumberScale = true ∧ (col.kind = .decimal ∨ col.kind = .newdecimal) then
          .number col.name (Int8.ofNat (max 1 (min (col.columnLength.toNat - 2) 38)))
            col.decimals.toInt8
        else .number col.name 38 0
      else .varchar col.name 4000

/-! ### Values -/

/-- A value as the driver gives it. -/
inductive Value
  | null
  | bytes (b : List UInt8)
  | int (v : Int64)
  | uint (v : UInt64)
  | float (v : F.Single)
  | double (v : F.Double)
  | date (y : UInt16) (m d h min s : UInt8) (micros : UInt32)
  | time (negative : Bool) (days : UInt32) (h min s : UInt8) (micros : UInt32)

variable {F}

/-- One more, unless there is none. -/
def succSaturating (b : UInt8) : UInt8 := if b = 255 then 255 else b + 1

/-- `encode_value`. -/
def encodeValue (value : Value F) : Except Failure (List UInt8) :=
  match value with
  | .null => .ok []
  | .bytes b => .ok b
  | .int v => encodeOracleNumberDecimal (toString v.toInt).toList
  | .uint v => encodeOracleNumberDecimal (toString v.toNat).toList
  | .float v => encodeOracleNumberDecimal (F.singleText v)
  | .double v => encodeOracleNumberDecimal (F.doubleText v)
  | .date y m d h min s _ =>
    .ok [(y / 100 + 100).toUInt8, (y % 100 + 100).toUInt8, m, d, succSaturating h,
      succSaturating min, succSaturating s]
  | .time _ _ h min s _ =>
    .ok [100, 100, 1, 1, succSaturating h, succSaturating min, succSaturating s]

/-- `value_as_f64`. -/
def valueAsF64 (value : Value F) : Option F.Double :=
  match value with
  | .float v => some (F.widen v)
  | .double v => some v
  | .int v => some (F.ofInt v.toInt)
  | .uint v => some (F.ofInt v.toNat)
  | .bytes b => (utf8Decode b).bind F.parse
  | _ => none

/-- The branch of a number: a text is encoded as the number it is. The text of the error for bytes
that are no text is left out. -/
def encodeNumber (value : Value F) : Except Failure (List UInt8) :=
  match value with
  | .bytes b =>
    match utf8Decode b with
    | some text => encodeOracleNumberDecimal text
    | none => .error (.conversion "")
  | value => encodeValue value

/-- The branch of a date: a text is encoded as the date it is, if it is one. -/
def encodeTemporal (c : Chrono) (value : Value F) (temporal : TemporalWire) :
    Except Failure (List UInt8) :=
  match value with
  | .bytes b =>
    match temporal, (utf8Decode b).bind (parseMariadbDatetime c) with
    | .timestamp _, some dt => .ok (encodeOracleTimestamp dt)
    | .date, some dt => .ok (encodeOracleDate dt)
    | _, _ => encodeValue value
  | value => encodeValue value

/-- `encode_value_for_column`. -/
def encodeValueForColumn (c : Chrono) (value : Value F) (number : Bool) (temporal : TemporalWire)
    (float : FloatWire) : Except Failure (List UInt8) :=
  match float with
  | .binaryDouble =>
    match valueAsF64 value with
    | some v => .ok (encodeBinary (toBeBytes 8 (F.doubleBits v).toNat))
    | none => .error (.conversion "BINARY_DOUBLE value is not numeric")
  | .binaryFloat =>
    match valueAsF64 value with
    | some v => .ok (encodeBinary (toBeBytes 4 (F.singleBits (F.narrow v)).toNat))
    | none => .error (.conversion "BINARY_FLOAT value is not numeric")
  | .number => if number = true then encodeNumber value else encodeTemporal c value temporal

/-- The bytes of a value in a row of `open_cursor`. -/
def encodeCell (c : Chrono) (col : Column) (caps : DescribeCaps) (float : FloatWire)
    (value : Value F) : Except Failure (List UInt8) :=
  encodeValueForColumn c value (isNumericColumn col.kind) (temporalWire col caps) float

end DbSaci.Backend
