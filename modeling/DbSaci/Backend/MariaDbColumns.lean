import DbSaci.Backend.MariaDbTemporal
import DbSaci.Wire.IntegerNumber

set_option relaxedAutoImplicit false
set_option autoImplicit false

/-!
# The columns of MariaDB

A column is described by its type, and its values are encoded by its type and by what the driver
gives. What is sent for a value should be an encoding of it in the format that was described, and
nothing for no value.

## Main definitions

* `Datum`, `Datum.deliver` — a value of a column, and what the driver gives for it in each protocol.
* `Denotes` — some bytes are an encoding of a value in a format.
* `Cell.Delivered` — what is sent is an encoding in the described format.
* `Cell.Deliverable` — a condition on the column, the value and the protocol.

## Main results

* `Cell.delivered_iff_deliverable` — the condition is exact.
-/

namespace DbSaci.Backend

open Wire Decimal Text

/-! ### Values of a column -/

/-- Without binds all values come as text, and with binds each has the form of its type. -/
inductive Protocol
  | text
  | binary
  deriving DecidableEq

/-- A time with its sign, of 838 hours at most. -/
structure TimeValue where
  negative : Bool
  days : ℕ
  hour : ℕ
  minute : ℕ
  second : ℕ
  micros : ℕ
  hours_le : days * 24 + hour ≤ 838
  hour_lt : hour < 24
  minute_lt : minute < 60
  second_lt : second < 60
  micros_lt : micros < 1000000

/-- The text of a time, with so many digits of the fraction. -/
def TimeValue.text (t : TimeValue) (n : ℕ) : List Char :=
  (if t.negative = true then ['-'] else []) ++ (padded 2 (t.days * 24 + t.hour) ++
    (':' :: (padded 2 t.minute ++ (':' :: (padded 2 t.second ++
      if n = 0 then [] else '.' :: (padded 6 t.micros).take n)))))

/-- A finite floating-point number, with the text of the driver and the one of the server. -/
structure FiniteFloat {α : Type} (text : α → List Char) where
  value : α
  driver : Literal
  server : Literal
  text_eq : text value = driver.text
  driver_short : driver.Short
  server_short : server.Short

/-- The floating-point numbers, with the single number nearest to a text and to an integer. All
texts of numbers are read. -/
structure LawfulFloats extends Floats where
  parseSingle : List Char → Option Single
  singleOfInt : ℤ → Single
  parse_literal (l : Literal) : ∃ x, parse l.text = some x
  parse_int (zeros : ℕ) (n : ℤ) : parse (intLiteral zeros n).text = some (ofInt n)

/-- All of them are zero. -/
def zeroNearest : LawfulFloats where
  toFloats := zeroFloats
  parseSingle _ := some ()
  singleOfInt _ := ()
  parse_literal _ := ⟨(), rfl⟩
  parse_int _ _ := rfl

/-- A number of a column. An integer may have leading zeros. -/
inductive Quantity (F : Floats)
  | int (zeros : UInt8) (v : Int64)
  | uint (zeros : UInt8) (v : UInt64)
  | decimal (l : Literal) (short : l.Short)
  | single (x : FiniteFloat F.singleText)
  | double (x : FiniteFloat F.doubleText)

namespace Quantity

variable {F : Floats} (protocol : Protocol)

/-- The types of the columns that have such a number. -/
def kinds : Quantity F → List ColumnType
  | .int _ _ | .uint _ _ => [.tiny, .short, .long, .longlong, .int24, .year]
  | .decimal _ _ => [.decimal, .newdecimal]
  | .single _ => [.float]
  | .double _ => [.double]

/-- What the driver gives. -/
def deliver : Quantity F → Value F
  | .int zeros v =>
    match protocol with
    | .text => .bytes (utf8Encode (intLiteral zeros.toNat v.toInt).text)
    | .binary => .int v
  | .uint zeros v =>
    match protocol with
    | .text => .bytes (utf8Encode (intLiteral zeros.toNat v.toNat).text)
    | .binary => .uint v
  | .decimal l _ => .bytes (utf8Encode l.text)
  | .single x =>
    match protocol with
    | .text => .bytes (utf8Encode x.server.text)
    | .binary => .float x.value
  | .double x =>
    match protocol with
    | .text => .bytes (utf8Encode x.server.text)
    | .binary => .double x.value

/-- The text of a number: the one that the driver gives, or that is made of what it gives. -/
def literal : Quantity F → Literal
  | .int zeros v => intLiteral (match protocol with | .text => zeros.toNat | .binary => 0) v.toInt
  | .uint zeros v => intLiteral (match protocol with | .text => zeros.toNat | .binary => 0) v.toNat
  | .decimal l _ => l
  | .single x => match protocol with | .text => x.server | .binary => x.driver
  | .double x => match protocol with | .text => x.server | .binary => x.driver

end Quantity

namespace LawfulFloats

variable (F : LawfulFloats) (protocol : Protocol)

/-- The double number nearest to a number. -/
def double? : Quantity F.toFloats → Option F.Double
  | .int _ v => some (F.ofInt v.toInt)
  | .uint _ v => some (F.ofInt v.toNat)
  | .decimal l _ => F.parse l.text
  | .single x =>
    match protocol with
    | .text => F.parse x.server.text
    | .binary => some (F.widen x.value)
  | .double x =>
    match protocol with
    | .text => F.parse x.server.text
    | .binary => some x.value

/-- The single number nearest to a number. -/
def single? : Quantity F.toFloats → Option F.Single
  | .int _ v => some (F.singleOfInt v.toInt)
  | .uint _ v => some (F.singleOfInt v.toNat)
  | .decimal l _ => F.parseSingle l.text
  | .single x =>
    match protocol with
    | .text => F.parseSingle x.server.text
    | .binary => some x.value
  | .double x =>
    match protocol with
    | .text => F.parseSingle x.server.text
    | .binary => some (F.narrow x.value)

end LawfulFloats

/-- A value of a column. -/
inductive Datum (F : Floats)
  | null
  | number (x : Quantity F)
  | moment (t : Moment)
  | time (t : TimeValue)
  | bytes (b : List UInt8)

namespace Datum

variable {F : Floats} (protocol : Protocol) (col : Column)

/-- The column has such values. -/
def Fits : Datum F → Prop
  | .null => True
  | .number x => col.kind ∈ x.kinds
  | .moment t => col.kind ∈ [ColumnType.date, .newdate, .datetime, .datetime2, .timestamp,
      .timestamp2] ∧ t.FitsColumn col
  | .time _ => col.kind ∈ [ColumnType.time, .time2]
  | .bytes _ => col.kind ∈ [ColumnType.varchar, .bit, .json, .enum, .set, .tinyBlob, .mediumBlob,
      .longBlob, .blob, .varString, .string, .geometry]

/-- What the driver gives. -/
def deliver : Datum F → Value F
  | .null => .null
  | .number x => x.deliver protocol
  | .moment t =>
    match protocol with
    | .text => .bytes (utf8Encode (t.text col))
    | .binary => t.binary
  | .time t =>
    match protocol with
    | .text => .bytes (utf8Encode (t.text col.decimals.toNat))
    | .binary => .time t.negative (UInt32.ofNat t.days) (UInt8.ofNat t.hour) (UInt8.ofNat t.minute)
        (UInt8.ofNat t.second) (UInt32.ofNat t.micros)
  | .bytes b => .bytes b

end Datum

/-! ### Formats -/

/-- The formats of the types that are described. -/
inductive Format
  | varchar
  | number
  | date
  | raw
  | binaryFloat
  | binaryDouble
  | timestamp
  deriving DecidableEq

/-- The format of a type. -/
def formatOf (oracleType : UInt8) : Option Format :=
  if oracleType = 1 then some .varchar
  else if oracleType = 2 then some .number
  else if oracleType = 12 then some .date
  else if oracleType = 23 then some .raw
  else if oracleType = 100 then some .binaryFloat
  else if oracleType = 101 then some .binaryDouble
  else if oracleType = 180 then some .timestamp
  else none

/-- The bits of a floating-point number, from the bytes it is sent in. -/
def decodeBinary (b : List UInt8) : List UInt8 :=
  match b with
  | [] => []
  | first :: rest =>
    if first &&& 0x80 = 0 then b.map fun byte => ~~~byte else (first &&& 0x7f) :: rest

/-- A date that Oracle has. -/
def Moment.IsOracleDate (t : Moment) : Prop := 1 ≤ t.year ∧ t.IsCalendar

section Denotes

variable (F : LawfulFloats) (protocol : Protocol) (col : Column)

/-- Some bytes are an encoding of a value in a format. A `DATE` has no fraction of a second, and a
`TIMESTAMP` may be sent without one that is zero. -/
inductive Denotes : Datum F.toFloats → Format → List UInt8 → Prop
  | null (format : Format) : Denotes .null format []
  | number {x : Quantity F.toFloats} {bytes : List UInt8} (hne : bytes ≠ [])
    (hvalue : numberValue bytes = (x.literal protocol).value) : Denotes (.number x) .number bytes
  | numberText {x : Quantity F.toFloats} (l : Literal)
    (hvalue : l.value = (x.literal protocol).value) :
    Denotes (.number x) .varchar (utf8Encode l.text)
  | timeText (t : TimeValue) : Denotes (.time t) .varchar (utf8Encode (t.text col.decimals.toNat))
  | text {b : List UInt8} (h : (utf8Decode b).isSome = true) : Denotes (.bytes b) .varchar b
  | raw (b : List UInt8) : Denotes (.bytes b) .raw b
  | date {t : Moment} (h : t.IsOracleDate) : Denotes (.moment t) .date t.dateBytes
  | timestamp {t : Moment} (h : t.IsOracleDate) :
    Denotes (.moment t) .timestamp (t.dateBytes ++ toBeBytes 4 (t.micros * 1000))
  | wholeSecond {t : Moment} (h : t.IsOracleDate) (hmicros : t.micros = 0) :
    Denotes (.moment t) .timestamp t.dateBytes
  | binaryFloat {x : Quantity F.toFloats} {bytes : List UInt8} (v : F.Single)
    (hv : F.single? protocol x = some v)
    (hbits : decodeBinary bytes = toBeBytes 4 (F.singleBits v).toNat) :
    Denotes (.number x) .binaryFloat bytes
  | binaryDouble {x : Quantity F.toFloats} {bytes : List UInt8} (v : F.Double)
    (hv : F.double? protocol x = some v)
    (hbits : decodeBinary bytes = toBeBytes 8 (F.doubleBits v).toNat) :
    Denotes (.number x) .binaryDouble bytes

end Denotes

/-! ### Cells -/

/-- A value of a column, as it comes in one of the protocols. -/
structure Cell (F : Floats) where
  col : Column
  protocol : Protocol
  datum : Datum F
  fits : datum.Fits col

namespace Cell

variable (F : LawfulFloats) (c : Chrono) (cell : Cell F.toFloats) (caps : DescribeCaps)
  (float : FloatWire)

/-- What is sent is an encoding of the value in the format that the column was described with. -/
def Delivered : Prop :=
  ∃ format, formatOf (describe cell.col caps float).oracleType = some format ∧ ∃ bytes,
    encodeCell c cell.col caps float (cell.datum.deliver cell.protocol cell.col) = .ok bytes ∧
      Denotes F cell.protocol cell.col cell.datum format bytes

/-- A number that goes through a double number is the nearest single one. -/
def RoundsOnce (x : Quantity F.toFloats) : Prop :=
  (F.double? cell.protocol x).map (fun v => F.singleBits (F.narrow v)) =
    (F.single? cell.protocol x).map F.singleBits

/-- When what is sent is an encoding of the value. -/
def Deliverable : Prop :=
  match float, cell.datum with
  | .number, .null => True
  | .number, .number x => cell.col.kind ≠ .int24 ∧ cell.col.kind ≠ .year ∧
      FitsNumber (x.literal cell.protocol).value
  | .number, .moment t => t.IsOracleDate ∧
      (cell.protocol = .binary → TakesFraction cell.col caps → t.micros = 0)
  | .number, .time _ => cell.protocol = .text
  | .number, .bytes b => (cell.col.characterSet = 63 ∧
      isBinaryStringColumn cell.col.kind = true) ∨ (utf8Decode b).isSome = true
  | .binaryDouble, .number _ => True
  | .binaryFloat, .number x => cell.RoundsOnce F x
  | _, _ => False

end Cell

/-! ### Numbers -/

namespace Quantity

variable {F : LawfulFloats} (protocol : Protocol) (x : Quantity F.toFloats)

/-- The text of a number is not too long. -/
lemma literal_short : (x.literal protocol).Short := by
  cases x with
  | int zeros v =>
    have hzeros := zeros.toNat_lt
    have hv : v.toInt.natAbs < 2 ^ 64 := by
      have hlower := v.le_toInt
      have hupper := v.toInt_lt
      omega
    cases protocol with
    | text => exact intLiteral_short hzeros hv
    | binary => exact intLiteral_short (Nat.zero_lt_succ 255) hv
  | uint zeros v =>
    have hzeros := zeros.toNat_lt
    have hv : ((v.toNat : ℤ)).natAbs < 2 ^ 64 := v.toNat_lt
    cases protocol with
    | text => exact intLiteral_short hzeros hv
    | binary => exact intLiteral_short (Nat.zero_lt_succ 255) hv
  | decimal l short => exact short
  | single x =>
    cases protocol with
    | text => exact x.server_short
    | binary => exact x.driver_short
  | double x =>
    cases protocol with
    | text => exact x.server_short
    | binary => exact x.driver_short

/-- What the driver gives for a number is encoded as its text. -/
lemma encodeNumber_deliver :
    encodeNumber (x.deliver protocol) = encodeOracleNumberDecimal (x.literal protocol).text := by
  have htext (s : List Char) :
      encodeNumber (.bytes (utf8Encode s) : Value F.toFloats) = encodeOracleNumberDecimal s := by
    rw [encodeNumber, utf8Decode_encode]
  cases x with
  | int zeros v =>
    cases protocol with
    | text => exact htext _
    | binary => exact congrArg encodeOracleNumberDecimal (intLiteral_text _).symm
  | uint zeros v =>
    cases protocol with
    | text => exact htext _
    | binary => exact congrArg encodeOracleNumberDecimal (natLiteral_text _).symm
  | decimal l short => exact htext _
  | single x =>
    cases protocol with
    | text => exact htext _
    | binary => exact congrArg encodeOracleNumberDecimal x.text_eq
  | double x =>
    cases protocol with
    | text => exact htext _
    | binary => exact congrArg encodeOracleNumberDecimal x.text_eq

/-- The driver gives the double number nearest to a number. -/
lemma valueAsF64_deliver : valueAsF64 (x.deliver protocol) = F.double? protocol x := by
  have htext (s : List Char) :
      valueAsF64 (.bytes (utf8Encode s) : Value F.toFloats) = F.parse s := by
    rw [valueAsF64, utf8Decode_encode, Option.bind_some]
  cases x with
  | int zeros v =>
    cases protocol with
    | text => exact (htext _).trans (F.parse_int _ _)
    | binary => rfl
  | uint zeros v =>
    cases protocol with
    | text => exact (htext _).trans (F.parse_int _ _)
    | binary => rfl
  | decimal l short => exact htext _
  | single x =>
    cases protocol with
    | text => exact htext _
    | binary => rfl
  | double x =>
    cases protocol with
    | text => exact htext _
    | binary => rfl

/-- There is one. -/
lemma exists_double : ∃ v, F.double? protocol x = some v := by
  cases x with
  | int zeros v => exact ⟨_, rfl⟩
  | uint zeros v => exact ⟨_, rfl⟩
  | decimal l short => exact F.parse_literal l
  | single x =>
    cases protocol with
    | text => exact F.parse_literal x.server
    | binary => exact ⟨_, rfl⟩
  | double x =>
    cases protocol with
    | text => exact F.parse_literal x.server
    | binary => exact ⟨_, rfl⟩

/-- The types of the columns with numbers. -/
lemma mem_kinds {kind : ColumnType} (h : kind ∈ x.kinds) :
    kind ∈ [ColumnType.tiny, .short, .long, .longlong, .int24, .year, .decimal, .newdecimal,
      .float, .double] := by
  have hsub : x.kinds ⊆ [ColumnType.tiny, .short, .long, .longlong, .int24, .year, .decimal,
      .newdecimal, .float, .double] := by
    cases x <;> simp [kinds]
  exact hsub h

/-- A number of a column of integers has few digits. -/
lemma length_significant {kind : ColumnType} (h : kind ∈ x.kinds)
    (hkind : kind = .int24 ∨ kind = .year) : (x.literal protocol).significant.length ≤ 30 := by
  cases x with
  | int zeros v =>
    have hv : v.toInt.natAbs < 2 ^ 64 := by
      have hlower := v.le_toInt
      have hupper := v.toInt_lt
      omega
    exact (length_significant_intLiteral hv).trans (by decide)
  | uint zeros v =>
    exact (length_significant_intLiteral (n := (v.toNat : ℤ)) v.toNat_lt).trans (by decide)
  | decimal l short => rcases hkind with rfl | rfl <;> simp [kinds] at h
  | single x => rcases hkind with rfl | rfl <;> simp [kinds] at h
  | double x => rcases hkind with rfl | rfl <;> simp [kinds] at h

end Quantity

/-! ### Formats of columns -/

section Described

variable {col : Column} (caps : DescribeCaps) (float : FloatWire)

lemma temporalWire_of_not_temporal
    (h : isTemporalColumn col.kind = false ∨ col.kind = .time ∨ col.kind = .time2) :
    temporalWire col caps = .none := by
  unfold temporalWire
  rcases h with h | h
  · rw [if_pos h]
  · rw [if_pos h, ite_self]

/-- The format of a column that has no dates, by how it is tagged. -/
lemma formatOf_describe (hwire : temporalWire col caps = .none) :
    formatOf (describe col caps float).oracleType =
      match float with
      | .binaryDouble => some .binaryDouble
      | .binaryFloat => some .binaryFloat
      | .number =>
        if col.characterSet = 63 ∧ isBinaryStringColumn col.kind = true ∧
            isNumericColumn col.kind = false then some .raw
        else if [ColumnType.float, .double, .decimal, .newdecimal, .longlong, .long, .short,
            .tiny].contains col.kind = true then some .number
        else some .varchar := by
  unfold describe
  rw [hwire]
  cases float with
  | binaryDouble => rfl
  | binaryFloat => rfl
  | number =>
    dsimp only
    split_ifs <;> rfl

/-- The format of a column with numbers. Two types of integers are missing. -/
lemma formatOf_describe_number (h : col.kind ∈ [ColumnType.tiny, .short, .long, .longlong, .int24,
    .year, .decimal, .newdecimal, .float, .double]) :
    formatOf (describe col caps .number).oracleType =
      some (if col.kind = .int24 ∨ col.kind = .year then .varchar else .number) := by
  have hkinds : ∀ kind ∈ [ColumnType.tiny, .short, .long, .longlong, .int24, .year, .decimal,
      .newdecimal, .float, .double], isTemporalColumn kind = false ∧
        isBinaryStringColumn kind ≠ true ∧
          ([ColumnType.float, .double, .decimal, .newdecimal, .longlong, .long, .short,
            .tiny].contains kind = true ↔ ¬ (kind = .int24 ∨ kind = .year)) := by decide
  obtain ⟨htemporal, hbinary, hcontains⟩ := hkinds _ h
  rw [formatOf_describe caps .number (temporalWire_of_not_temporal caps (.inl htemporal))]
  dsimp only
  rw [if_neg fun h => hbinary h.2.1]
  by_cases hkind : col.kind = .int24 ∨ col.kind = .year
  · rw [if_pos hkind, if_neg fun h => hcontains.1 h hkind]
  · rw [if_neg hkind, if_pos (hcontains.2 hkind)]

/-- The format of a column with dates. -/
lemma formatOf_describe_date (hwire : temporalWire col caps = .date) :
    formatOf (describe col caps float).oracleType = some .date := by
  unfold describe
  rw [hwire]
  rfl

lemma formatOf_describe_timestamp {scale : Int8} (hwire : temporalWire col caps = .timestamp scale) :
    formatOf (describe col caps float).oracleType = some .timestamp := by
  unfold describe
  rw [hwire]
  rfl

/-- Each column has a format. -/
lemma exists_format : ∃ format, formatOf (describe col caps float).oracleType = some format := by
  cases hwire : temporalWire col caps with
  | none =>
    rw [formatOf_describe caps float hwire]
    cases float with
    | binaryDouble => exact ⟨_, rfl⟩
    | binaryFloat => exact ⟨_, rfl⟩
    | number =>
      dsimp only
      split_ifs <;> exact ⟨_, rfl⟩
  | date => exact ⟨_, formatOf_describe_date caps float hwire⟩
  | timestamp scale => exact ⟨_, formatOf_describe_timestamp caps float hwire⟩

end Described

/-! ### The bits of a floating-point number -/

lemma binary_byte (b : UInt8) : (b &&& 0x80 = 0 →
    (b ||| 0x80) &&& 0x80 ≠ 0 ∧ (b ||| 0x80) &&& 0x7f = b) ∧
      (b &&& 0x80 ≠ 0 → ~~~b &&& 0x80 = 0) := by
  have hall : ∀ k : Fin 256, (UInt8.ofNat k &&& 0x80 = 0 →
      (UInt8.ofNat k ||| 0x80) &&& 0x80 ≠ 0 ∧ (UInt8.ofNat k ||| 0x80) &&& 0x7f = UInt8.ofNat k) ∧
        (UInt8.ofNat k &&& 0x80 ≠ 0 → ~~~UInt8.ofNat k &&& 0x80 = 0) := by decide +kernel
  have hb := hall ⟨b.toNat, b.toNat_lt⟩
  rwa [UInt8.ofNat_toNat] at hb

/-- **The bits come back.** -/
lemma decodeBinary_encodeBinary (b : List UInt8) : decodeBinary (encodeBinary b) = b := by
  cases b with
  | nil => rfl
  | cons first rest =>
    obtain ⟨hpositive, hnegative⟩ := binary_byte first
    rw [encodeBinary]
    split_ifs with hsign
    · obtain ⟨hset, hback⟩ := hpositive hsign
      rw [decodeBinary, if_neg hset, hback]
    · rw [List.map_cons, decodeBinary, if_pos (hnegative hsign), ← List.map_cons, List.map_map]
      refine (List.map_congr_left fun byte _ => ?_).trans (List.map_id _)
      exact UInt8.not_not

lemma length_encodeBinary (b : List UInt8) : (encodeBinary b).length = b.length := by
  cases b with
  | nil => rfl
  | cons first rest =>
    rw [encodeBinary]
    split_ifs
    · rfl
    · exact List.length_map _

/-! ### What is delivered -/

namespace Cell

variable (F : LawfulFloats) (c : LawfulChrono) {col : Column} (protocol : Protocol)
  (caps : DescribeCaps)

/-- What is sent, once the format and the bytes are known. -/
lemma delivered_of_format {d : Datum F.toFloats} (hd : d.Fits col) {float : FloatWire}
    {format : Format} {bytes : List UInt8}
    (hformat : formatOf (describe col caps float).oracleType = some format)
    (hencode : encodeCell c.toChrono col caps float (d.deliver protocol col) = .ok bytes) :
    Delivered F c.toChrono ⟨col, protocol, d, hd⟩ caps float ↔
      Denotes F protocol col d format bytes := by
  constructor
  · rintro ⟨format', hsome, bytes', hbytes, hdenotes⟩
    obtain rfl := Option.some.inj (hformat.symm.trans hsome)
    obtain rfl := Except.ok.inj (hencode.symm.trans hbytes)
    exact hdenotes
  · exact fun hdenotes => ⟨format, hformat, bytes, hencode, hdenotes⟩

/-- NULL is delivered, unless the column is tagged. -/
lemma delivered_null (float : FloatWire) :
    Delivered F c.toChrono ⟨col, protocol, .null, trivial⟩ caps float ↔ float = .number := by
  obtain ⟨format, hformat⟩ := @exists_format col caps float
  cases float with
  | number =>
    refine iff_of_true ⟨format, hformat, [], ?_, .null format⟩ rfl
    unfold encodeCell encodeValueForColumn
    cases isNumericColumn col.kind <;> rfl
  | binaryFloat => exact iff_of_false (fun ⟨_, _, _, hbytes, _⟩ => nomatch hbytes) nofun
  | binaryDouble => exact iff_of_false (fun ⟨_, _, _, hbytes, _⟩ => nomatch hbytes) nofun

section Number

variable (x : Quantity F.toFloats) (h : col.kind ∈ x.kinds)

include h in
lemma encodeCell_number : encodeCell c.toChrono col caps .number (x.deliver protocol) =
    encodeOracleNumberDecimal (x.literal protocol).text := by
  have hkinds : ∀ kind ∈ [ColumnType.tiny, .short, .long, .longlong, .int24, .year, .decimal,
      .newdecimal, .float, .double], isNumericColumn kind = true := by decide
  rw [← x.encodeNumber_deliver, encodeCell, hkinds _ (x.mem_kinds h)]
  rfl

/-- A number is delivered if it fits, and its column is described as one. -/
lemma delivered_number : Delivered F c.toChrono ⟨col, protocol, .number x, h⟩ caps .number ↔
    col.kind ≠ .int24 ∧ col.kind ≠ .year ∧ FitsNumber (x.literal protocol).value := by
  have hshort := x.literal_short protocol
  have hpoint := (point32_short hshort).1
  have hformat := formatOf_describe_number caps (x.mem_kinds h)
  have hencode := encodeCell_number F c protocol caps x h
  by_cases hkind : col.kind = .int24 ∨ col.kind = .year
  · refine iff_of_false ?_ fun hne => hkind.elim hne.1 hne.2.1
    rintro ⟨format, hsome, bytes, hbytes, hdenotes⟩
    rw [hformat, if_pos hkind] at hsome
    obtain rfl := Option.some.inj hsome
    obtain ⟨hrange, rfl⟩ := (encode_short hshort bytes).1 (hencode.symm.trans hbytes)
    generalize hb : (x.literal protocol).toParts.bytes _ = b at hdenotes
    cases hdenotes with
    | numberText l hvalue =>
      exact bytes_ne_text hrange (x.length_significant protocol h hkind) hpoint l hb
  · rw [not_or] at hkind
    rw [if_neg (not_or.2 hkind)] at hformat
    have hnumber : Delivered F c.toChrono ⟨col, protocol, .number x, h⟩ caps .number ↔
        ∃ bytes, encodeOracleNumberDecimal (x.literal protocol).text = .ok bytes ∧
          numberValue bytes = (x.literal protocol).value := by
      constructor
      · rintro ⟨format, hsome, bytes, hbytes, hdenotes⟩
        obtain rfl := Option.some.inj (hformat.symm.trans hsome)
        cases hdenotes with
        | number hne hvalue => exact ⟨bytes, hencode.symm.trans hbytes, hvalue⟩
      · rintro ⟨bytes, hbytes, hvalue⟩
        refine ⟨_, hformat, bytes, hencode.trans hbytes, .number ?_ hvalue⟩
        obtain ⟨-, rfl⟩ := (encode_short hshort bytes).1 hbytes
        exact bytes_ne_nil _ _
    rw [hnumber, encode_literal_iff hshort]
    exact ⟨fun hfits => ⟨hkind.1, hkind.2, hfits.1⟩, fun hfits => ⟨hfits.2.2, rfl⟩⟩

include h in
lemma temporalWire_number : temporalWire col caps = .none := by
  have hkinds : ∀ kind ∈ [ColumnType.tiny, .short, .long, .longlong, .int24, .year, .decimal,
      .newdecimal, .float, .double], isTemporalColumn kind = false := by decide
  exact temporalWire_of_not_temporal caps (.inl (hkinds _ (x.mem_kinds h)))

/-- A number is delivered as a double number. -/
lemma delivered_double :
    Delivered F c.toChrono ⟨col, protocol, .number x, h⟩ caps .binaryDouble := by
  obtain ⟨v, hv⟩ := x.exists_double protocol
  have hvalue := (x.valueAsF64_deliver protocol).trans hv
  refine ⟨.binaryDouble, formatOf_describe caps .binaryDouble (temporalWire_number F caps x h),
    encodeBinary (toBeBytes 8 (F.doubleBits v).toNat), ?_,
    .binaryDouble v hv (decodeBinary_encodeBinary _)⟩
  show encodeValueForColumn _ (x.deliver protocol) _ _ .binaryDouble = _
  simp only [encodeValueForColumn, hvalue]

/-- A number is delivered as a single number if rounding it twice is rounding it once. -/
lemma delivered_single :
    Delivered F c.toChrono ⟨col, protocol, .number x, h⟩ caps .binaryFloat ↔
      RoundsOnce F ⟨col, protocol, .number x, h⟩ x := by
  obtain ⟨v, hv⟩ := x.exists_double protocol
  have hvalue := (x.valueAsF64_deliver protocol).trans hv
  have hencode : encodeCell c.toChrono col caps .binaryFloat (x.deliver protocol) =
      .ok (encodeBinary (toBeBytes 4 (F.singleBits (F.narrow v)).toNat)) := by
    simp only [encodeCell, encodeValueForColumn, hvalue]
  have hformat := formatOf_describe caps .binaryFloat (temporalWire_number F caps x h)
  have hrounds : RoundsOnce F ⟨col, protocol, .number x, h⟩ x ↔
      ∃ w, F.single? protocol x = some w ∧ F.singleBits w = F.singleBits (F.narrow v) := by
    rw [RoundsOnce, hv, Option.map_some, eq_comm, Option.map_eq_some_iff]
  rw [hrounds]
  constructor
  · rintro ⟨format, hsome, bytes, hbytes, hdenotes⟩
    obtain rfl := Option.some.inj (hformat.symm.trans hsome)
    obtain rfl := Except.ok.inj (hencode.symm.trans hbytes)
    cases hdenotes with
    | binaryFloat w hw hbits =>
      rw [decodeBinary_encodeBinary] at hbits
      have hnat := congrArg ofBeBytes hbits
      rw [ofBeBytes_of_lt (UInt32.toNat_lt _), ofBeBytes_of_lt (UInt32.toNat_lt _)] at hnat
      exact ⟨w, hw, (UInt32.toNat.inj hnat).symm⟩
  · rintro ⟨w, hw, hbits⟩
    refine ⟨_, hformat, _, hencode, .binaryFloat w hw ?_⟩
    rw [decodeBinary_encodeBinary, hbits]

end Number

/-- A column with a value that is neither NULL nor a number has no number. -/
lemma not_denotes_binary {d : Datum F.toFloats} {bytes : List UInt8} (hnull : d ≠ .null)
    (hnumber : ∀ x, d ≠ .number x) : ¬ Denotes F protocol col d .binaryFloat bytes ∧
      ¬ Denotes F protocol col d .binaryDouble bytes := by
  constructor
  · intro hdenotes
    cases hdenotes with
    | null => exact hnull rfl
    | binaryFloat => exact hnumber _ rfl
  · intro hdenotes
    cases hdenotes with
    | null => exact hnull rfl
    | binaryDouble => exact hnumber _ rfl

/-! ### Dates -/

section Date

variable (t : Moment)
  (h : col.kind ∈ [ColumnType.date, .newdate, .datetime, .datetime2, .timestamp, .timestamp2] ∧
    t.FitsColumn col)

/-- The fraction of a value that fits its column is kept. -/
lemma nanosecond_naive {t : Moment} (h : t.FitsColumn col) :
    (t.naive col.decimals.toNat).nanosecond = t.micros * 1000 := by
  obtain ⟨n, hn⟩ : ∃ n, n = col.decimals.toNat := ⟨_, rfl⟩
  obtain ⟨q, hq⟩ := h.scaled
  have hle := h.decimals_le
  rw [← hn] at hq hle ⊢
  obtain ⟨a, b, hab, ha, hb, hlen⟩ : ∃ a b, (padded 6 t.micros).map digitVal = a ++ b ∧
      ((padded 6 t.micros).take n).map digitVal = a ∧ (∀ d ∈ b, d < 10) ∧ b.length = 6 - n := by
    refine ⟨_, ((padded 6 t.micros).drop n).map digitVal, ?_, rfl, ?_, ?_⟩
    · rw [← List.map_append, List.take_append_drop]
    · intro d hd
      obtain ⟨c, hc, rfl⟩ := List.mem_map.1 hd
      exact digitVal_lt (isDigit_padded (List.mem_of_mem_drop hc))
    · rw [List.length_map, List.length_drop, length_padded (by decide) t.micros_lt]
  have hmicros : ofDigits a * 10 ^ (6 - n) + ofDigits b = 10 ^ (6 - n) * q := by
    rw [← hq, ← hlen, ← ofDigits_append, ← hab, ← ofDigitChars_eq, ofDigitChars_padded]
  have hlt : ofDigits b < 10 ^ (6 - n) := hlen ▸ ofDigits_lt hb
  have hfront : ofDigits a = q := by
    have hpos : 0 < 10 ^ (6 - n) := Nat.pow_pos (by decide)
    have hdiv := congrArg (· / 10 ^ (6 - n)) hmicros
    rwa [Nat.mul_comm, Nat.mul_add_div hpos, Nat.div_eq_of_lt hlt, Nat.add_zero,
      Nat.mul_div_cancel_left _ hpos] at hdiv
  have hpow : 10 ^ (9 - n) = 10 ^ (6 - n) * 1000 := by
    rw [show 9 - n = 6 - n + 3 by omega, pow_add]
    rfl
  rw [Moment.naive, ofDigitChars_eq, ha, hfront, hpow, hq]
  ring

/-- The bytes of a value with its fraction. -/
lemma encodeOracleTimestamp_naive {t : Moment} (h : t.FitsColumn col) :
    encodeOracleTimestamp (t.naive col.decimals.toNat) =
      t.dateBytes ++ toBeBytes 4 (t.micros * 1000) := by
  have hlt := t.micros_lt
  rw [encodeOracleTimestamp, t.encodeOracleDate_naive, nanosecond_naive h,
    Nat.min_eq_left (by omega)]

lemma denotes_date_iff {bytes : List UInt8} :
    Denotes F protocol col (.moment t) .date bytes ↔ t.IsOracleDate ∧ bytes = t.dateBytes := by
  constructor
  · intro hdenotes
    cases hdenotes with
    | date horacle => exact ⟨horacle, rfl⟩
  · rintro ⟨horacle, rfl⟩
    exact .date horacle

lemma denotes_timestamp_iff {bytes : List UInt8} :
    Denotes F protocol col (.moment t) .timestamp bytes ↔ t.IsOracleDate ∧
      (bytes = t.dateBytes ++ toBeBytes 4 (t.micros * 1000) ∨
        t.micros = 0 ∧ bytes = t.dateBytes) := by
  constructor
  · intro hdenotes
    cases hdenotes with
    | timestamp horacle => exact ⟨horacle, .inl rfl⟩
    | wholeSecond horacle hmicros => exact ⟨horacle, .inr ⟨hmicros, rfl⟩⟩
  · rintro ⟨horacle, rfl | ⟨hmicros, rfl⟩⟩
    · exact .timestamp horacle
    · exact .wholeSecond horacle hmicros

/-- A date is delivered if Oracle has it, unless its fraction gets lost. -/
lemma delivered_moment : Delivered F c.toChrono ⟨col, protocol, .moment t, h⟩ caps .number ↔
    t.IsOracleDate ∧ (protocol = .binary → TakesFraction col caps → t.micros = 0) := by
  have hbinary := DateCell.binaryBytes_number ⟨col, t, h.1, h.2⟩ caps F.toFloats c.toChrono
  have htext := DateCell.textBytes_number ⟨col, t, h.1, h.2⟩ caps F.toFloats c
  dsimp only at htext hbinary
  obtain ⟨hfraction, scale, hwire⟩ | ⟨hfraction, hwire⟩ :=
    DateCell.temporalWire_cases ⟨col, t, h.1, h.2⟩ caps
  · have hformat := formatOf_describe_timestamp caps .number hwire
    cases protocol with
    | text =>
      rw [delivered_of_format F c .text caps (d := .moment t) h hformat htext,
        denotes_timestamp_iff]
      refine ⟨fun hdate => ⟨hdate.1, nofun⟩, fun hdate => ⟨hdate.1, .inl ?_⟩⟩
      rw [if_pos hdate.1.2, if_pos hfraction, encodeOracleTimestamp_naive h.2]
    | binary =>
      rw [delivered_of_format F c .binary caps (d := .moment t) h hformat hbinary,
        denotes_timestamp_iff]
      refine and_congr_right fun _ => ?_
      constructor
      · rintro (hlong | hwhole)
        · have hlen := congrArg List.length hlong
          rw [List.length_append, length_toBeBytes] at hlen
          omega
        · exact fun _ _ => hwhole.1
      · exact fun hwhole => .inr ⟨hwhole rfl hfraction, rfl⟩
  · have hformat := formatOf_describe_date caps .number hwire
    have hlost : protocol = .binary → TakesFraction col caps → t.micros = 0 :=
      fun _ hcontra => absurd hcontra hfraction
    rw [and_iff_left hlost]
    cases protocol with
    | text =>
      rw [delivered_of_format F c .text caps (d := .moment t) h hformat htext, denotes_date_iff]
      refine and_iff_left_of_imp fun horacle => ?_
      rw [if_pos horacle.2, if_neg hfraction]
    | binary =>
      rw [delivered_of_format F c .binary caps (d := .moment t) h hformat hbinary,
        denotes_date_iff]
      exact and_iff_left rfl

/-- The bytes of a floating-point number are four or eight. -/
lemma length_encodeCell_float {float : FloatWire} (hfloat : float ≠ .number)
    {value : Value F.toFloats} {bytes : List UInt8}
    (h : encodeCell c.toChrono col caps float value = .ok bytes) :
    bytes.length = 4 ∨ bytes.length = 8 := by
  cases float with
  | number => exact absurd rfl hfloat
  | binaryFloat =>
    simp only [encodeCell, encodeValueForColumn] at h
    split at h
    · obtain rfl := Except.ok.inj h
      exact .inl (by rw [length_encodeBinary, length_toBeBytes])
    · cases h
  | binaryDouble =>
    simp only [encodeCell, encodeValueForColumn] at h
    split at h
    · obtain rfl := Except.ok.inj h
      exact .inr (by rw [length_encodeBinary, length_toBeBytes])
    · cases h

/-- A date is no floating-point number. -/
lemma not_delivered_moment {float : FloatWire} (hfloat : float ≠ .number) :
    ¬ Delivered F c.toChrono ⟨col, protocol, .moment t, h⟩ caps float := by
  rintro ⟨format, hsome, bytes, hbytes, hdenotes⟩
  have hlen := length_encodeCell_float F c caps hfloat hbytes
  obtain ⟨-, scale, hwire⟩ | ⟨-, hwire⟩ := DateCell.temporalWire_cases ⟨col, t, h.1, h.2⟩ caps
  · obtain rfl := Option.some.inj ((formatOf_describe_timestamp caps float hwire).symm.trans hsome)
    obtain ⟨-, rfl | ⟨-, rfl⟩⟩ := (denotes_timestamp_iff F protocol t).1 hdenotes
    · rw [List.length_append, length_toBeBytes, t.length_dateBytes] at hlen
      omega
    · rw [t.length_dateBytes] at hlen
      omega
  · obtain rfl := Option.some.inj ((formatOf_describe_date caps float hwire).symm.trans hsome)
    obtain ⟨-, rfl⟩ := (denotes_date_iff F protocol t).1 hdenotes
    rw [t.length_dateBytes] at hlen
    omega

end Date

/-! ### Times and bytes -/

section Other

/-- What is neither NULL nor a number nor a date is not delivered by a tagged column. -/
lemma not_delivered_tagged {d : Datum F.toFloats} (hd : d.Fits col) (hnull : d ≠ .null)
    (hnumber : ∀ x, d ≠ .number x) (hwire : temporalWire col caps = .none) {float : FloatWire}
    (hfloat : float ≠ .number) :
    ¬ Delivered F c.toChrono ⟨col, protocol, d, hd⟩ caps float := by
  rintro ⟨format, hsome, bytes, -, hdenotes⟩
  obtain ⟨hsingle, hdouble⟩ :=
    @not_denotes_binary F col protocol d bytes hnull hnumber
  rw [formatOf_describe caps float hwire] at hsome
  cases float with
  | number => exact hfloat rfl
  | binaryFloat =>
    rw [← Option.some.inj hsome] at hdenotes
    exact hsingle hdenotes
  | binaryDouble =>
    rw [← Option.some.inj hsome] at hdenotes
    exact hdouble hdenotes

/-- The text of a time starts with a sign or a digit. -/
lemma exists_timeText (t : TimeValue) (n : ℕ) :
    ∃ c s, t.text n = c :: s ∧ (c = '-' ∨ c.isDigit = true) := by
  have hdigits := padded_ne_nil 2 (t.days * 24 + t.hour)
  obtain ⟨d, ds, hds⟩ := List.exists_cons_of_ne_nil hdigits
  have hd : d.isDigit = true := isDigit_padded (hds ▸ List.mem_cons_self)
  rw [TimeValue.text, hds]
  by_cases hsign : t.negative = true
  · rw [if_pos hsign]
    exact ⟨'-', _, rfl, .inl rfl⟩
  · rw [if_neg hsign]
    exact ⟨d, _, rfl, .inr hd⟩

/-- The bytes of the fields of a time are not its text. -/
lemma timeText_ne (t : TimeValue) (n : ℕ) (s : List UInt8) :
    (100 :: s : List UInt8) ≠ utf8Encode (t.text n) := by
  obtain ⟨c, rest, htext, hc⟩ := exists_timeText t n
  have hle : c.toNat ≤ 57 := by
    rcases hc with rfl | hdigit
    · decide
    · rw [Char.isDigit, Bool.and_eq_true, decide_eq_true_eq, decide_eq_true_eq] at hdigit
      exact hdigit.2
  rw [htext, utf8Encode_cons, utf8EncodeChar_ascii (by omega), List.singleton_append]
  intro heq
  have hnat := congrArg UInt8.toNat (List.cons.inj heq).1
  rw [UInt8.toNat_ofNat', Nat.mod_eq_of_lt (by omega)] at hnat
  exact absurd hnat (by simp; omega)

/-- A time is delivered as text. -/
lemma delivered_time (t : TimeValue) (h : col.kind ∈ [ColumnType.time, .time2])
    (float : FloatWire) : Delivered F c.toChrono ⟨col, protocol, .time t, h⟩ caps float ↔
      float = .number ∧ protocol = .text := by
  have hkinds : ∀ kind ∈ [ColumnType.time, .time2], (kind = .time ∨ kind = .time2) ∧
      isNumericColumn kind = false ∧ ¬ isBinaryStringColumn kind = true ∧
        ¬ [ColumnType.float, .double, .decimal, .newdecimal, .longlong, .long, .short,
          .tiny].contains kind = true := by decide
  obtain ⟨htime, hnumeric, hbinary, hnumber⟩ := hkinds _ h
  have hwire := temporalWire_of_not_temporal caps (.inr htime)
  by_cases hfloat : float = .number
  swap
  · have hnumber (x : Quantity F.toFloats) : (.time t : Datum F.toFloats) ≠ .number x :=
      fun heq => by cases heq
    exact iff_of_false (not_delivered_tagged F c protocol caps (d := .time t) h
      (fun heq => by cases heq) hnumber hwire hfloat) fun hboth => hfloat hboth.1
  subst hfloat
  have hformat : formatOf (describe col caps .number).oracleType = some .varchar := by
    rw [formatOf_describe caps .number hwire]
    dsimp only
    rw [if_neg fun hraw => hbinary hraw.2.1, if_neg hnumber]
  have hencode (value : Value F.toFloats) : encodeCell c.toChrono col caps .number value =
      encodeTemporal c.toChrono value .none := by
    rw [encodeCell, hnumeric, hwire]
    rfl
  cases protocol with
  | text =>
    have hbytes : encodeCell c.toChrono col caps .number
        (Datum.deliver .text col (.time t) : Value F.toFloats) =
          .ok (utf8Encode (t.text col.decimals.toNat)) := hencode _
    rw [delivered_of_format F c .text caps (d := .time t) h hformat hbytes]
    exact iff_of_true (.timeText t) ⟨rfl, rfl⟩
  | binary =>
    obtain ⟨s, hbytes⟩ : ∃ s, encodeCell c.toChrono col caps .number
        (Datum.deliver .binary col (.time t) : Value F.toFloats) = .ok (100 :: s) :=
      ⟨_, hencode _⟩
    rw [delivered_of_format F c .binary caps (d := .time t) h hformat hbytes]
    refine iff_of_false (fun hdenotes => ?_) (fun hboth => by cases hboth.2)
    generalize hb : (100 :: s : List UInt8) = b at hdenotes
    cases hdenotes with
    | timeText => exact timeText_ne t _ s hb

/-- Bytes are delivered as they are. -/
lemma delivered_bytes (b : List UInt8)
    (h : col.kind ∈ [ColumnType.varchar, .bit, .json, .enum, .set, .tinyBlob, .mediumBlob,
      .longBlob, .blob, .varString, .string, .geometry]) (float : FloatWire) :
    Delivered F c.toChrono ⟨col, protocol, .bytes b, h⟩ caps float ↔ float = .number ∧
      ((col.characterSet = 63 ∧ isBinaryStringColumn col.kind = true) ∨
        (utf8Decode b).isSome = true) := by
  have hkinds : ∀ kind ∈ [ColumnType.varchar, .bit, .json, .enum, .set, .tinyBlob, .mediumBlob,
      .longBlob, .blob, .varString, .string, .geometry], isTemporalColumn kind = false ∧
        isNumericColumn kind = false ∧
          ¬ [ColumnType.float, .double, .decimal, .newdecimal, .longlong, .long, .short,
            .tiny].contains kind = true := by decide
  obtain ⟨htemporal, hnumeric, hnumber⟩ := hkinds _ h
  have hwire := temporalWire_of_not_temporal caps (.inl htemporal)
  by_cases hfloat : float = .number
  swap
  · have hnumber (x : Quantity F.toFloats) : (.bytes b : Datum F.toFloats) ≠ .number x :=
      fun heq => by cases heq
    exact iff_of_false (not_delivered_tagged F c protocol caps (d := .bytes b) h
      (fun heq => by cases heq) hnumber hwire hfloat) fun hboth => hfloat hboth.1
  subst hfloat
  have hformat := formatOf_describe caps .number hwire
  dsimp only at hformat
  rw [if_neg hnumber] at hformat
  have hencode : encodeCell c.toChrono col caps .number
      (Datum.deliver protocol col (.bytes b) : Value F.toFloats) = .ok b := by
    rw [encodeCell, hnumeric, hwire]
    rfl
  by_cases hraw : col.characterSet = 63 ∧ isBinaryStringColumn col.kind = true
  · rw [if_pos ⟨hraw.1, hraw.2, hnumeric⟩] at hformat
    rw [delivered_of_format F c protocol caps (d := .bytes b) h hformat hencode]
    exact iff_of_true (.raw b) ⟨rfl, .inl hraw⟩
  · rw [if_neg fun hall => hraw ⟨hall.1, hall.2.1⟩] at hformat
    rw [delivered_of_format F c protocol caps (d := .bytes b) h hformat hencode]
    constructor
    · intro hdenotes
      cases hdenotes with
      | text htext => exact ⟨rfl, .inr htext⟩
    · rintro ⟨-, hraw' | htext⟩
      · exact absurd hraw' hraw
      · exact .text htext

end Other

/-! ### All cells -/

/-- **What is sent is an encoding of a value exactly under the condition on it and its column.** -/
theorem delivered_iff_deliverable (cell : Cell F.toFloats) (float : FloatWire) :
    cell.Delivered F c.toChrono caps float ↔ cell.Deliverable F caps float := by
  obtain ⟨col, protocol, datum, fits⟩ := cell
  cases datum with
  | null =>
    rw [delivered_null]
    cases float <;> simp [Deliverable]
  | number x =>
    cases float with
    | number => exact delivered_number F c protocol caps x fits
    | binaryFloat => exact delivered_single F c protocol caps x fits
    | binaryDouble => exact iff_of_true (delivered_double F c protocol caps x fits) trivial
  | moment t =>
    cases float with
    | number => exact delivered_moment F c protocol caps t fits
    | binaryFloat => exact iff_of_false (not_delivered_moment F c protocol caps t fits nofun) id
    | binaryDouble => exact iff_of_false (not_delivered_moment F c protocol caps t fits nofun) id
  | time t =>
    rw [delivered_time F c protocol caps t fits float]
    cases float <;> simp [Deliverable]
  | bytes b =>
    rw [delivered_bytes F c protocol caps b fits float]
    cases float <;> simp [Deliverable]

/-- The value 5 of a column `MEDIUMINT`. -/
def mediumInt : Cell zeroFloats where
  col := ⟨"N".toList, .int24, 63, 0, 9⟩
  protocol := .text
  datum := .number (.int 0 5)
  fits := by
    show ColumnType.int24 ∈ [ColumnType.tiny, .short, .long, .longlong, .int24, .year]
    decide

/-- It is described as a text, and sent as a number. -/
theorem mediumInt_not_delivered : ¬ mediumInt.Delivered zeroNearest calendarChrono.toChrono
    ⟨true, true, false, false⟩ .number := fun h =>
  ((delivered_number zeroNearest calendarChrono .text _ _ mediumInt.fits).1 h).1 rfl

end Cell

end DbSaci.Backend
