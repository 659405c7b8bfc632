import DbSaci.Library.Fields
import DbSaci.Library.Utf8
import DbSaci.Wire.OciResponse
import DbSaci.Wire.ReadBuffer

set_option relaxedAutoImplicit false
set_option autoImplicit false

/-!
# The description of columns for JDBC

A column is described by twenty fields, and a client that knows their kinds reads them one after
the other. A text has its length in front twice: as a number, and as the first byte of a value. The
server writes that byte for a text of any length, although some bytes there mean something else.

## Main definitions

* `DescribeField`, `describe` — the fields, how the server writes them and how a client reads them.
* `writeDescribeJdbcEx`, `readDescribe` — the description, and what a client makes of it.
* `Decodable` — the client finds the columns, and reads each field where it has been written.

## Main results

* `delivers_iff` — a field is read where it has been written if and only if it fits.
* `decodable_iff` — a description is decodable if and only if all texts have at most 252 bytes.
-/

namespace DbSaci.Wire

open Fallible (ret fail)

/-! ### Fields -/

/-- The kinds of fields. -/
inductive FieldKind
  | u8
  | ub2
  | ub4
  | ub8
  | sb1
  | dalc
  deriving DecidableEq, Repr

/-- A field of a description, with its value. -/
inductive DescribeField
  | u8 (v : UInt8)
  | ub2 (v : UInt16)
  | ub4 (v : UInt32)
  | ub8 (v : UInt64)
  | sb1 (v : Int8)
  | dalc (bytes : List UInt8)
  deriving DecidableEq

namespace DescribeField

/-- The kind of a field. -/
def kind : DescribeField → FieldKind
  | u8 _ => .u8
  | ub2 _ => .ub2
  | ub4 _ => .ub4
  | ub8 _ => .ub8
  | sb1 _ => .sb1
  | dalc _ => .dalc

end DescribeField

/-- `write_ub2`. -/
def writeUb2 (v : UInt16) : List UInt8 :=
  if v = 0 then [0]
  else if v ≤ 255 then 1 :: toBeBytes 1 v.toNat
  else 2 :: toBeBytes 2 v.toNat

/-- `write_ub4`. -/
def writeUb4 (v : UInt32) : List UInt8 :=
  if v = 0 then [0]
  else if v ≤ 255 then 1 :: toBeBytes 1 v.toNat
  else if v ≤ 65535 then 2 :: toBeBytes 2 v.toNat
  else 4 :: toBeBytes 4 v.toNat

/-- `write_ub8`. -/
def writeUb8 (v : UInt64) : List UInt8 :=
  if v = 0 then [0]
  else if v ≤ 255 then 1 :: toBeBytes 1 v.toNat
  else if v ≤ 65535 then 2 :: toBeBytes 2 v.toNat
  else if v ≤ 4294967295 then 4 :: toBeBytes 4 v.toNat
  else 8 :: toBeBytes 8 v.toNat

/-- `write_sb2`: a negative number has a mark in the byte of its length. -/
def writeSb2 (v : Int16) : List UInt8 :=
  if v = 0 then [0]
  else if 0 < v ∧ v ≤ 127 then [1, v.toInt8.toUInt8]
  else if -127 ≤ v ∧ v < 0 then [1 ||| 0x80, (-v).toInt8.toUInt8]
  else (2 ||| 0x80) :: toBeBytes 2 v.toUInt16.toNat

/-- `write_sb1`. -/
def writeSb1 (v : Int8) : List UInt8 := writeSb2 v.toInt16

/-- `write_dalc`: the length of a value, and the value with the last byte of its length. -/
def writeDalc (bytes : List UInt8) : List UInt8 :=
  writeUb4 (UInt32.ofNat bytes.length) ++
    if bytes = [] then [] else UInt8.ofNat bytes.length :: bytes

/-- A signed number of at most one byte. The highest bit of the length is the sign. -/
def readSb1 : Read Int8 := do
  let b ← readU8
  let n := b &&& 0x7f
  if n.toNat ≤ 1 then do
    let bytes ← readBytesVec n.toNat
    ret (Int8.ofInt (if b &&& 0x80 = 0 then ofBeBytes bytes else -ofBeBytes bytes))
  else fail (.invalidLengthIndicator n)

/-- The length of a value, and the value, if there is one. -/
def readDalc : Read (List UInt8) := do
  let n ← readUb4
  if n = 0 then ret []
  else do
    let value ← readBytesWithLength
    ret (value.getD [])

/-- The bytes the server writes for a field. -/
def DescribeField.write : DescribeField → List UInt8
  | u8 v => [v]
  | ub2 v => writeUb2 v
  | ub4 v => writeUb4 v
  | ub8 v => writeUb8 v
  | sb1 v => writeSb1 v
  | dalc bytes => writeDalc bytes

/-- How a client reads a field of a kind. -/
def FieldKind.read : FieldKind → Read DescribeField
  | u8 => do
    let v ← readU8
    ret (.u8 v)
  | ub2 => do
    let v ← readUb2
    ret (.ub2 (UInt16.ofNat v))
  | ub4 => do
    let v ← readUb4
    ret (.ub4 (UInt32.ofNat v))
  | ub8 => do
    let v ← readUb8
    ret (.ub8 (UInt64.ofNat v))
  | sb1 => do
    let v ← readSb1
    ret (.sb1 v)
  | dalc => do
    let bytes ← readDalc
    ret (.dalc bytes)

/-- The fields of a description. -/
def describe : FieldFormat UInt8 ReadError FieldKind DescribeField where
  kind := DescribeField.kind
  write := DescribeField.write
  read := FieldKind.read

/-! ### The description -/

/-- A column with what the description for JDBC says of it besides. -/
structure JdbcColumn extends ColumnMeta where
  nullable : Bool
  schema : Option (List Char)
  typeName : Option (List Char)
  position : UInt16

/-- The fields of a column. -/
def JdbcColumn.fields (compactScale : Bool) (col : JdbcColumn) : List DescribeField :=
  [.u8 col.oracleType,
    .u8 col.flags,
    .u8 col.precision.toUInt8,
    if compactScale = true then .sb1 col.scale else .u8 col.scale.toUInt8,
    .ub4 (max col.maxSize col.bufferSize),
    .ub4 0, -- max array length
    .ub8 0, -- extra flags
    .dalc [], -- type OID
    .ub2 1, -- descriptor version
    .ub2 col.charsetId,
    .u8 col.charsetForm,
    .ub4 col.maxSize,
    .ub4 0, -- collation id
    .u8 (if col.nullable = true then 1 else 0),
    .u8 (UInt8.ofNat (min (utf8Encode col.name).length 255)),
    .dalc (utf8Encode col.name),
    .dalc (utf8Encode (col.schema.getD [])),
    .dalc (utf8Encode (col.typeName.getD [])),
    .ub2 col.position,
    .ub4 0] -- flags

/-- What stands in front of so many columns. -/
def prologue (n : ℕ) : List DescribeField :=
  [.u8 0, .ub4 0, .ub4 (UInt32.ofNat n)] ++ if n = 0 then [] else [.u8 0]

/-- What stands behind the columns. -/
def trailer : List DescribeField := [.dalc [], .ub4 0, .ub4 0, .ub4 0, .ub4 0, .dalc []]

/-- The fields of a description. -/
def describeFields (cols : List JdbcColumn) (compactScale : Bool) : List DescribeField :=
  prologue cols.length ++ (cols.map (JdbcColumn.fields compactScale)).flatten ++ trailer

/-- `write_describe_jdbc_ex`. -/
def writeDescribeJdbcEx (cols : List JdbcColumn) (compactScale : Bool) : List UInt8 :=
  describe.writeAll (describeFields cols compactScale)

/-! ### The client -/

/-- What a client knows of a column. -/
structure DescribedColumn where
  oracleType : UInt8
  flags : UInt8
  precision : Int8
  scale : Int8
  maxLength : UInt32
  maxChars : UInt32
  charsetId : UInt16
  charsetForm : UInt8
  nullable : Bool
  name : List UInt8
  schema : List UInt8
  typeName : List UInt8
  position : UInt16
  deriving DecidableEq

/-- What a client should know of a column. -/
def JdbcColumn.described (col : JdbcColumn) : DescribedColumn where
  oracleType := col.oracleType
  flags := col.flags
  precision := col.precision
  scale := col.scale
  maxLength := max col.maxSize col.bufferSize
  maxChars := col.maxSize
  charsetId := col.charsetId
  charsetForm := col.charsetForm
  nullable := col.nullable
  name := utf8Encode col.name
  schema := utf8Encode (col.schema.getD [])
  typeName := utf8Encode (col.typeName.getD [])
  position := col.position

/-- The kinds of the fields of a column. -/
def columnKinds : List FieldKind :=
  [.u8, .u8, .u8, .sb1, .ub4, .ub4, .ub8, .dalc, .ub2, .ub2, .u8, .ub4, .ub4, .u8, .u8, .dalc,
    .dalc, .dalc, .ub2, .ub4]

/-- The kinds of the fields behind the columns. -/
def trailerKinds : List FieldKind := [.dalc, .ub4, .ub4, .ub4, .ub4, .dalc]

/-- The column that some fields describe. -/
def columnOf : List DescribeField → Option DescribedColumn
  | [.u8 oracleType, .u8 flags, .u8 precision, .sb1 scale, .ub4 maxLength, .ub4 _, .ub8 _, .dalc _,
      .ub2 _, .ub2 charsetId, .u8 charsetForm, .ub4 maxChars, .ub4 _, .u8 nullable, .u8 _,
      .dalc name, .dalc schema, .dalc typeName, .ub2 position, .ub4 _] =>
    some { oracleType, flags, scale, maxLength, maxChars, charsetId, charsetForm, name, schema,
           typeName, position, precision := precision.toInt8, nullable := nullable ≠ 0 }
  | _ => none

/-- A byte stands in front of the columns, if there are some. -/
def skipByte (count : ℕ) : Read Unit := if count = 0 then ret () else skip 1

/-- The columns that a client finds. -/
def readDescribe : Read (List (Option DescribedColumn)) := do
  let ignored ← readU8
  let _ ← skip ignored.toNat
  let _ ← readUb4
  let count ← readUb4
  let _ ← skipByte count
  let records ← describe.readRecords columnKinds count
  let _ ← describe.readAll trailerKinds
  ret (records.map columnOf)

/-- **The description is decodable**: the client finds the columns in their order and nothing is
left, and it reads each field where that has been written. -/
def Decodable (cols : List JdbcColumn) : Prop :=
  readDescribe (writeDescribeJdbcEx cols true) =
      (.ok (cols.map fun col => some col.described), []) ∧
    describe.InStep (describeFields cols true) []

/-! ### What fits -/

/-- A field that is read where it has been written. -/
def DescribeField.Fits : DescribeField → Prop
  | .sb1 v => v ≠ -128
  | .dalc bytes => bytes.length ≤ 252
  | _ => True

/-- A column whose scale and texts fit. -/
structure JdbcColumn.Fits (col : JdbcColumn) : Prop where
  scale : col.scale ≠ -128
  name : (utf8Encode col.name).length ≤ 252
  schema : (utf8Encode (col.schema.getD [])).length ≤ 252
  typeName : (utf8Encode (col.typeName.getD [])).length ≤ 252

/-! ### Numbers -/

section Numbers

variable (rest : List UInt8)

/-- The number of the bytes of a number. -/
lemma readUbLength_ofNat {k : ℕ} (hk : k < 128) :
    readUbLength (UInt8.ofNat k :: rest) = (.ok (UInt8.ofNat k), rest) := by
  have hmask : UInt8.ofNat k &&& 0x7f = UInt8.ofNat k := by
    rw [← UInt8.toNat_inj, UInt8.toNat_and, UInt8.toNat_ofNat_of_lt' (Nat.lt_trans hk (by decide))]
    exact (Nat.and_two_pow_sub_one_eq_mod k 7).trans (Nat.mod_eq_of_lt hk)
  rw [readUbLength, Fallible.bind_of_ok (readU8_cons _ _), hmask]
  rfl

lemma readBytesVec_toBeBytes (k n : ℕ) :
    readBytesVec k (toBeBytes k n ++ rest) = (.ok (toBeBytes k n), rest) := by
  have hread := readBytesVec_append (toBeBytes k n) rest
  rwa [length_toBeBytes] at hread

/-- A number is read from its bytes with their number in front. -/
lemma readUb_toBeBytes {most k n : ℕ} (hk : k ≤ most) (hk' : k < 128) (hn : n < 256 ^ k) :
    readUb most (UInt8.ofNat k :: (toBeBytes k n ++ rest)) = (.ok n, rest) := by
  have hlen : (UInt8.ofNat k).toNat = k :=
    UInt8.toNat_ofNat_of_lt' (Nat.lt_trans hk' (by decide))
  rw [readUb, Fallible.bind_of_ok (readUbLength_ofNat _ hk'), hlen, if_pos hk,
    Fallible.bind_of_ok (readBytesVec_toBeBytes rest k n), ofBeBytes_of_lt hn]
  rfl

lemma readUb2_writeUb2 (v : UInt16) : readUb2 (writeUb2 v ++ rest) = (.ok v.toNat, rest) := by
  rw [writeUb2]
  split_ifs with hzero hbyte
  · rw [hzero]
    exact readUb_toBeBytes rest (k := 0) (n := 0) (by decide) (by decide) (by decide)
  · exact readUb_toBeBytes rest (by decide) (by decide) (Nat.lt_succ_of_le hbyte)
  · exact readUb_toBeBytes rest (by decide) (by decide) v.toNat_lt

lemma readUb4_writeUb4 (v : UInt32) : readUb4 (writeUb4 v ++ rest) = (.ok v.toNat, rest) := by
  rw [writeUb4]
  split_ifs with hzero hbyte hshort
  · rw [hzero]
    exact readUb_toBeBytes rest (k := 0) (n := 0) (by decide) (by decide) (by decide)
  · exact readUb_toBeBytes rest (by decide) (by decide) (Nat.lt_succ_of_le hbyte)
  · exact readUb_toBeBytes rest (by decide) (by decide) (Nat.lt_succ_of_le hshort)
  · exact readUb_toBeBytes rest (by decide) (by decide) v.toNat_lt

/-- A number of at most four or of eight bytes is read from its bytes. -/
lemma readUb8_toBeBytes {k n : ℕ} (hk : k ≤ 4 ∨ k = 8) (hn : n < 256 ^ k) :
    readUb8 (UInt8.ofNat k :: (toBeBytes k n ++ rest)) = (.ok n, rest) := by
  have hlt : k < 128 := by omega
  have hlen : (UInt8.ofNat k).toNat = k :=
    UInt8.toNat_ofNat_of_lt' (Nat.lt_trans hlt (by decide))
  have hk' : (UInt8.ofNat k).toNat ≤ 4 ∨ UInt8.ofNat k = 8 := by
    rw [hlen]
    exact hk.imp_right fun h => congrArg UInt8.ofNat h
  rw [readUb8, Fallible.bind_of_ok (readUbLength_ofNat _ hlt), if_pos hk', hlen,
    Fallible.bind_of_ok (readBytesVec_toBeBytes rest k n), ofBeBytes_of_lt hn]
  rfl

lemma readUb8_writeUb8 (v : UInt64) : readUb8 (writeUb8 v ++ rest) = (.ok v.toNat, rest) := by
  rw [writeUb8]
  split_ifs with hzero hbyte hshort hlong
  · rw [hzero]
    exact readUb8_toBeBytes rest (k := 0) (n := 0) (by decide) (by decide)
  · exact readUb8_toBeBytes rest (by decide) (Nat.lt_succ_of_le hbyte)
  · exact readUb8_toBeBytes rest (by decide) (Nat.lt_succ_of_le hshort)
  · exact readUb8_toBeBytes rest (by decide) (Nat.lt_succ_of_le hlong)
  · exact readUb8_toBeBytes rest (by decide) v.toNat_lt

/-- A number of one byte is read from its size, and the sign in the byte of the length. -/
lemma readSb1_byte (sign b : UInt8) (hsign : sign = 1 ∨ sign = 0x81) :
    readSb1 (sign :: b :: rest) =
      (.ok (if sign = 1 then Int8.ofInt b.toNat else Int8.ofInt (-b.toNat)), rest) := by
  have hread : readBytesVec 1 (b :: rest) = (.ok [b], rest) := readBytesVec_append [b] rest
  have hvalue : (ofBeBytes [b] : ℤ) = b.toNat := by
    rw [ofBeBytes, List.foldl_cons, List.foldl_nil, Nat.zero_mul, Nat.zero_add]
  rcases hsign with rfl | rfl
  all_goals
    rw [readSb1, Fallible.bind_of_ok (readU8_cons _ _)]
    refine (Fallible.bind_of_ok hread).trans ?_
    rw [hvalue]
    rfl

lemma ofInt_toUInt8 (v : Int8) : Int8.ofInt v.toUInt8.toNat = v := Int8.toBitVec.inj (by simp)

/-- A signed byte is read back, but for the smallest one. -/
lemma readSb1_writeSb1_iff (v : Int8) :
    readSb1 (writeSb1 v ++ rest) = (.ok v, rest) ↔ v ≠ -128 := by
  have hzero : v.toInt16 = 0 ↔ v.toInt = 0 := by
    rw [← Int16.toInt_inj, Int8.toInt_toInt16]
    rfl
  have hpos : (0 < v.toInt16 ∧ v.toInt16 ≤ 127) ↔ 0 < v.toInt ∧ v.toInt ≤ 127 := by
    rw [Int16.lt_iff_toInt_lt, Int16.le_iff_toInt_le, Int8.toInt_toInt16]
    rfl
  have hneg : (-127 ≤ v.toInt16 ∧ v.toInt16 < 0) ↔ -127 ≤ v.toInt ∧ v.toInt < 0 := by
    rw [Int16.lt_iff_toInt_lt, Int16.le_iff_toInt_le, Int8.toInt_toInt16]
    rfl
  have hmin : v = -128 ↔ v.toInt = -128 := by
    rw [← Int8.toInt_inj]
    rfl
  have hlt := v.toInt_lt
  have hge := v.le_toInt
  rw [writeSb1, writeSb2, ne_eq, hmin]
  split_ifs with h0 h1 h2
  · obtain rfl : v = 0 := Int8.toInt_inj.1 (hzero.1 h0)
    refine iff_of_true ?_ (by decide)
    rw [List.singleton_append, readSb1, Fallible.bind_of_ok (readU8_cons _ _)]
    exact Fallible.bind_of_ok (readBytesVec_append [] rest)
  · rw [hpos] at h1
    refine iff_of_true ?_ (by omega)
    rw [Int8.toInt8_toInt16]
    refine (readSb1_byte rest 1 _ (.inl rfl)).trans ?_
    rw [if_pos rfl, ofInt_toUInt8]
  · rw [hneg] at h2
    refine iff_of_true ?_ (by omega)
    rw [Int16.toInt8_neg, Int8.toInt8_toInt16]
    refine (readSb1_byte rest 0x81 _ (.inr rfl)).trans ?_
    rw [if_neg (by decide), Int8.ofInt_neg, ofInt_toUInt8, Int8.neg_neg]
  · rw [hzero] at h0
    rw [hpos] at h1
    rw [hneg] at h2
    refine iff_of_false (fun h => ?_) (by omega)
    have hfail : readSb1 (((2 ||| 0x80) :: toBeBytes 2 v.toInt16.toUInt16.toNat) ++ rest) =
        (.error (.invalidLengthIndicator 2), toBeBytes 2 v.toInt16.toUInt16.toNat ++ rest) := by
      rw [List.cons_append, readSb1, Fallible.bind_of_ok (readU8_cons _ _)]
      rfl
    rw [hfail] at h
    cases (Prod.mk.inj h).1

end Numbers

/-! ### Values -/

section Values

variable {s t bytes : List UInt8}

/-- Chunks take more bytes than they have. -/
lemma readChunks_takes {fuel : ℕ} (h : readChunks fuel s = (.ok bytes, t)) :
    bytes.length + t.length < s.length := by
  induction fuel generalizing s bytes with
  | zero => cases h
  | succ fuel ih =>
    obtain ⟨n, u, hn, h⟩ := Fallible.of_bind_ok h
    have hlength := readUb_length hn
    split_ifs at h with hzero
    · obtain ⟨hbytes, rfl⟩ := Prod.mk.inj h
      obtain rfl := Except.ok.inj hbytes
      rwa [List.length_nil, Nat.zero_add]
    · obtain ⟨chunk, v, hchunk, h⟩ := Fallible.of_bind_ok h
      obtain ⟨chunks, w, hchunks, h⟩ := Fallible.of_bind_ok h
      obtain ⟨hbytes, rfl⟩ := Prod.mk.inj h
      obtain rfl := Except.ok.inj hbytes
      obtain ⟨hle, rfl, rfl⟩ := readBytesVec_ok hchunk
      have hothers := ih hchunks
      rw [List.length_drop] at hothers
      rw [List.length_append, List.length_take_of_le hle]
      omega

/-- A long value takes more bytes than it has behind the one of its length. -/
lemma readBytesWithLength_takes {len : UInt8} (hlong : 252 < bytes.length)
    (h : readBytesWithLength (len :: s) = (.ok (some bytes), t)) :
    bytes.length + t.length < s.length := by
  rw [readBytesWithLength, Fallible.bind_of_ok (readU8_cons _ _)] at h
  split_ifs at h with hnull hchunks hescape
  · cases h
  · exact readChunks_takes ((Fallible.bind_ret_iff (Option.some_injective _)).1 h)
  · obtain ⟨n, u, hn, h⟩ := Fallible.of_bind_ok h
    obtain ⟨hle, rfl, rfl⟩ :=
      readBytesVec_ok ((Fallible.bind_ret_iff (Option.some_injective _)).1 h)
    cases s with
    | nil => cases hn
    | cons b s =>
      obtain ⟨-, rfl⟩ := Prod.mk.inj ((readU8_cons b s).symm.trans hn)
      rw [List.length_take_of_le hle, List.length_drop, List.length_cons]
      omega
  · -- the byte is the length of the value, and not large enough
    obtain ⟨n, u, hn, h⟩ := Fallible.of_bind_ok h
    obtain ⟨hlen, rfl⟩ := Prod.mk.inj hn
    obtain rfl := Except.ok.inj hlen
    obtain ⟨hle, rfl, rfl⟩ :=
      readBytesVec_ok ((Fallible.bind_ret_iff (Option.some_injective _)).1 h)
    rw [List.length_take_of_le hle] at hlong
    have h253 : len.toNat ≠ 253 := fun h => hescape (UInt8.toNat_inj.1 h)
    have h254 : len.toNat ≠ 254 := fun h => hchunks (UInt8.toNat_inj.1 h)
    have h255 : len.toNat ≠ 255 := fun h => hnull (UInt8.toNat_inj.1 h)
    have hlt := len.toNat_lt
    omega

/-- A short value is read behind its length. -/
lemma readBytesWithLength_short (h : bytes.length ≤ 252) :
    readBytesWithLength (UInt8.ofNat bytes.length :: (bytes ++ t)) = (.ok (some bytes), t) := by
  have hlen : (UInt8.ofNat bytes.length).toNat = bytes.length :=
    UInt8.toNat_ofNat_of_lt' (Nat.lt_of_le_of_lt h (by decide))
  have hne : ∀ b : UInt8, 252 < b.toNat → UInt8.ofNat bytes.length ≠ b := by
    rintro _ hb rfl
    rw [hlen] at hb
    omega
  rw [readBytesWithLength, Fallible.bind_of_ok (readU8_cons _ _), if_neg (hne 255 (by decide)),
    if_neg (hne 254 (by decide)), if_neg (hne 253 (by decide))]
  dsimp only
  refine (Fallible.bind_of_ok (p := readBytesVec _) ?_).trans rfl
  rw [hlen]
  exact readBytesVec_append bytes t

/-- A value is read where it has been written if and only if it has at most 252 bytes. -/
lemma readDalc_writeDalc_iff (bytes rest : List UInt8) :
    readDalc (writeDalc bytes ++ rest) = (.ok bytes, rest) ↔ bytes.length ≤ 252 := by
  by_cases hnil : bytes = []
  · subst hnil
    refine iff_of_true ?_ (Nat.zero_le _)
    rw [writeDalc, if_pos rfl, List.append_nil, readDalc,
      Fallible.bind_of_ok (readUb4_writeUb4 _ _)]
    rfl
  rw [readDalc, writeDalc, if_neg hnil, List.append_assoc, List.cons_append,
    Fallible.bind_of_ok (readUb4_writeUb4 _ _)]
  constructor
  · intro h
    by_contra hlong
    rw [Nat.not_le] at hlong
    split_ifs at h with hzero
    · exact hnil (Except.ok.inj (Prod.mk.inj h).1).symm
    · obtain ⟨value, u, hvalue, h⟩ := Fallible.of_bind_ok h
      obtain ⟨hbytes, rfl⟩ := Prod.mk.inj h
      cases value with
      | none => exact hnil (Except.ok.inj hbytes).symm
      | some value =>
        obtain rfl : value = bytes := Except.ok.inj hbytes
        have htakes := readBytesWithLength_takes hlong hvalue
        rw [List.length_append] at htakes
        exact Nat.lt_irrefl _ htakes
  · intro hshort
    have hne : (UInt32.ofNat bytes.length).toNat ≠ 0 := by
      rw [UInt32.toNat_ofNat_of_lt' (Nat.lt_of_le_of_lt hshort (by decide))]
      exact fun h => hnil (List.eq_nil_of_length_eq_zero h)
    rw [if_neg hne, Fallible.bind_of_ok (readBytesWithLength_short hshort)]
    rfl

end Values

/-! ### Decodable descriptions -/

/-- **A field is read where it has been written** if and only if it fits. -/
theorem delivers_iff_fits (field : DescribeField) (rest : List UInt8) :
    describe.Delivers field rest ↔ field.Fits := by
  rw [FieldFormat.Delivers]
  cases field with
  | u8 v =>
    refine iff_of_true ?_ trivial
    exact Fallible.bind_of_ok (readU8_cons v rest)
  | ub2 v =>
    refine iff_of_true ?_ trivial
    refine (Fallible.bind_of_ok (readUb2_writeUb2 rest v)).trans ?_
    rw [UInt16.ofNat_toNat]
    rfl
  | ub4 v =>
    refine iff_of_true ?_ trivial
    refine (Fallible.bind_of_ok (readUb4_writeUb4 rest v)).trans ?_
    rw [UInt32.ofNat_toNat]
    rfl
  | ub8 v =>
    refine iff_of_true ?_ trivial
    refine (Fallible.bind_of_ok (readUb8_writeUb8 rest v)).trans ?_
    rw [UInt64.ofNat_toNat]
    rfl
  | sb1 v =>
    have hinj : Function.Injective DescribeField.sb1 := fun _ _ => DescribeField.sb1.inj
    exact (Fallible.bind_ret_iff hinj).trans (readSb1_writeSb1_iff rest v)
  | dalc bytes =>
    have hinj : Function.Injective DescribeField.dalc := fun _ _ => DescribeField.dalc.inj
    exact (Fallible.bind_ret_iff hinj).trans (readDalc_writeDalc_iff bytes rest)

lemma JdbcColumn.forall_fields_iff (col : JdbcColumn) :
    (∀ field ∈ col.fields true, field.Fits) ↔ col.Fits := by
  simp only [JdbcColumn.fields, if_true, List.forall_mem_cons, DescribeField.Fits, true_and,
    List.length_nil, Nat.zero_le, List.not_mem_nil, false_imp_iff, implies_true, and_true]
  exact ⟨fun ⟨hscale, hname, hschema, htype⟩ => ⟨hscale, hname, hschema, htype⟩,
    fun h => ⟨h.scale, h.name, h.schema, h.typeName⟩⟩

lemma forall_prologue (n : ℕ) : ∀ field ∈ prologue n, field.Fits := by
  rw [prologue, List.forall_mem_append]
  refine ⟨?_, ?_⟩
  · simp only [List.forall_mem_cons, DescribeField.Fits, true_and, List.not_mem_nil, false_imp_iff,
      implies_true]
  · intro field hfield
    split_ifs at hfield
    · cases hfield
    · obtain rfl := List.mem_singleton.1 hfield
      trivial

lemma forall_trailer : ∀ field ∈ trailer, field.Fits := by
  simp only [trailer, List.forall_mem_cons, DescribeField.Fits, List.length_nil, Nat.zero_le,
    List.not_mem_nil, false_imp_iff, implies_true, and_true]

/-- The client is in step if and only if all columns fit. -/
lemma inStep_describeFields_iff (cols : List JdbcColumn) :
    describe.InStep (describeFields cols true) [] ↔ ∀ col ∈ cols, col.Fits := by
  rw [FieldFormat.inStep_iff delivers_iff_fits, describeFields, List.forall_mem_append,
    List.forall_mem_append, and_iff_right (forall_prologue _), and_iff_left forall_trailer]
  constructor
  · intro h col hcol
    refine (col.forall_fields_iff).1 fun field hfield => h field ?_
    exact List.mem_flatten.2 ⟨_, List.mem_map_of_mem hcol, hfield⟩
  · intro h field hfield
    obtain ⟨_, hfields, hmem⟩ := List.mem_flatten.1 hfield
    obtain ⟨col, hcol, rfl⟩ := List.mem_map.1 hfields
    exact (col.forall_fields_iff).2 (h col hcol) field hmem

/-- The byte in front of the columns, if there are some. -/
def skipped (n : ℕ) : List UInt8 := if n = 0 then [] else [0]

/-- What stands in front of the columns is read, but for the byte that is skipped. -/
lemma readDescribe_prologue (n : ℕ) (rest : List UInt8) :
    readDescribe (describe.writeAll (prologue n) ++ rest) = (do
      let _ ← skipByte (UInt32.ofNat n).toNat
      let records ← describe.readRecords columnKinds (UInt32.ofNat n).toNat
      let _ ← describe.readAll trailerKinds
      ret (records.map columnOf) : Read (List (Option DescribedColumn))) (skipped n ++ rest) := by
  have hwrite : describe.writeAll (prologue n) ++ rest =
      0 :: ([] ++ (writeUb4 0 ++ (writeUb4 (UInt32.ofNat n) ++ (skipped n ++ rest)))) := by
    by_cases hn : n = 0
    · subst hn
      rfl
    · have hskip : skipped n = describe.writeAll [.u8 0] := if_neg hn
      rw [prologue, if_neg hn, FieldFormat.writeAll_append, hskip, List.append_assoc]
      simp [FieldFormat.writeAll, describe, DescribeField.write]
  have hskip : skip (0 : UInt8).toNat
      ([] ++ (writeUb4 0 ++ (writeUb4 (UInt32.ofNat n) ++ (skipped n ++ rest)))) =
        (.ok (), writeUb4 0 ++ (writeUb4 (UInt32.ofNat n) ++ (skipped n ++ rest))) :=
    Fallible.bind_of_ok (readBytesVec_append [] _)
  rw [hwrite, readDescribe, Fallible.bind_of_ok (readU8_cons _ _), Fallible.bind_of_ok hskip,
    Fallible.bind_of_ok (readUb4_writeUb4 _ _), Fallible.bind_of_ok (readUb4_writeUb4 _ _)]

lemma skipByte_skipped (n : ℕ) (rest : List UInt8) :
    skipByte n (skipped n ++ rest) = (.ok (), rest) := by
  rw [skipByte, skipped]
  split_ifs
  · rfl
  · exact Fallible.bind_of_ok (readBytesVec_append [0] rest)

/-- The fields of a column describe it. -/
lemma columnOf_fields (col : JdbcColumn) : columnOf (col.fields true) = some col.described := by
  have hnullable : decide ((if col.nullable = true then 1 else 0 : UInt8) ≠ 0) = col.nullable := by
    cases col.nullable <;> rfl
  rw [JdbcColumn.described, ← hnullable]
  rfl

/-- A client in step finds all columns, if their number fits, and leaves what is behind them. -/
lemma readDescribe_append {cols : List JdbcColumn} {rest : List UInt8}
    (hcount : cols.length < 2 ^ 32) (h : describe.InStep (describeFields cols true) rest) :
    readDescribe (writeDescribeJdbcEx cols true ++ rest) =
      (.ok (cols.map fun col => some col.described), rest) := by
  rw [describeFields, List.append_assoc, FieldFormat.inStep_append, FieldFormat.inStep_append] at h
  obtain ⟨-, hcolumns, htrailer⟩ := h
  have hkinds : ∀ record ∈ cols.map (JdbcColumn.fields true),
      record.map describe.kind = columnKinds := by
    rintro _ hrecord
    obtain ⟨col, -, rfl⟩ := List.mem_map.1 hrecord
    rfl
  have hrecords := hcolumns.readRecords hkinds
  rw [List.length_map] at hrecords
  have hwrite : writeDescribeJdbcEx cols true ++ rest = describe.writeAll (prologue cols.length) ++
      (describe.writeAll (cols.map (JdbcColumn.fields true)).flatten ++
        (describe.writeAll trailer ++ rest)) := by
    rw [writeDescribeJdbcEx, describeFields, List.append_assoc, FieldFormat.writeAll_append,
      FieldFormat.writeAll_append, List.append_assoc, List.append_assoc]
  rw [hwrite, readDescribe_prologue, UInt32.toNat_ofNat_of_lt' hcount,
    Fallible.bind_of_ok (skipByte_skipped _ _), Fallible.bind_of_ok hrecords]
  refine (Fallible.bind_of_ok htrailer.readAll).trans ?_
  rw [List.map_map]
  have hfound : cols.map (columnOf ∘ JdbcColumn.fields true) =
      cols.map fun col => some col.described :=
    List.map_congr_left fun col _ => columnOf_fields col
  rw [hfound]
  rfl

/-- A client in step finds all columns, if their number fits. -/
lemma readDescribe_of_inStep {cols : List JdbcColumn} (hcount : cols.length < 2 ^ 32)
    (h : describe.InStep (describeFields cols true) []) :
    readDescribe (writeDescribeJdbcEx cols true) =
      (.ok (cols.map fun col => some col.described), []) := by
  have hread := readDescribe_append hcount h
  rwa [List.append_nil] at hread

/-- So many columns are found as the number in front says. -/
lemma length_readDescribe {cols : List JdbcColumn} {found : List (Option DescribedColumn)}
    {t : List UInt8} (h : readDescribe (writeDescribeJdbcEx cols true) = (.ok found, t)) :
    found.length = cols.length % 2 ^ 32 := by
  rw [writeDescribeJdbcEx, describeFields, List.append_assoc, FieldFormat.writeAll_append,
    readDescribe_prologue] at h
  obtain ⟨_, s, -, h⟩ := Fallible.of_bind_ok h
  obtain ⟨records, u, hrecords, h⟩ := Fallible.of_bind_ok h
  obtain ⟨_, v, -, h⟩ := Fallible.of_bind_ok h
  obtain rfl := Except.ok.inj (Prod.mk.inj h).1
  rw [List.length_map, FieldFormat.length_readRecords hrecords, UInt32.toNat_ofNat']

/-- **A description is decodable** if and only if the number of the columns fits into four bytes,
no scale is the smallest one, and all texts have at most 252 bytes. -/
theorem decodable_iff (cols : List JdbcColumn) :
    Decodable cols ↔ cols.length < 2 ^ 32 ∧ ∀ col ∈ cols, col.Fits := by
  constructor
  · rintro ⟨hread, hstep⟩
    refine ⟨?_, (inStep_describeFields_iff cols).1 hstep⟩
    have hlength := length_readDescribe hread
    rw [List.length_map] at hlength
    rw [hlength]
    exact Nat.mod_lt _ (by decide)
  · rintro ⟨hcount, hfits⟩
    have hstep := (inStep_describeFields_iff cols).2 hfits
    exact ⟨readDescribe_of_inStep hcount hstep, hstep⟩

/-- A column whose name has 256 bytes. -/
def longColumn : JdbcColumn where
  toColumnMeta := .varchar (List.replicate 256 'A') 10
  nullable := true
  schema := none
  typeName := none
  position := 1

/-- A name of 256 bytes is read as an empty one. -/
theorem longName_undecodable : ∃ cols : List JdbcColumn, (∀ col ∈ cols, -84 ≤ col.scale) ∧
    readDescribe (writeDescribeJdbcEx cols true) ≠
      (.ok (cols.map fun col => some col.described), []) := by
  refine ⟨[longColumn], by decide +kernel, ?_⟩
  decide +kernel

end DbSaci.Wire
