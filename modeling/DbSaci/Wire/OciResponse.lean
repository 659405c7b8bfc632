import DbSaci.Library.BigEndian
import DbSaci.Library.Utf8

set_option relaxedAutoImplicit false
set_option autoImplicit false

/-!
# Answers to an OCI client

The answer to an Execute describes the columns, and then has the rows and the end of the call. The
answer to a Fetch has no description. Numbers have a fixed width, the lowest byte first.

## Main definitions

* `ColumnMeta` — what is known of a column.
* `ociRowData` — the rows.
* `buildQueryResponseOciEx`, `buildFetchResponseOci` — the answers.
-/

namespace DbSaci.Wire

/-- A row: a value or none in each column. -/
abbrev Row : Type := List (Option (List UInt8))

/-! ### Columns -/

/-- What is known of a column. -/
structure ColumnMeta where
  name : List Char
  oracleType : UInt8
  flags : UInt8
  precision : Int8
  scale : Int8
  bufferSize : UInt32
  maxSize : UInt32
  charsetId : UInt16
  charsetForm : UInt8

/-- A column of a type that has no text. -/
def ColumnMeta.plain (name : List Char) (oracleType : UInt8) (precision scale : Int8)
    (size : UInt32) : ColumnMeta where
  name := name
  oracleType := oracleType
  flags := 0
  precision := precision
  scale := scale
  bufferSize := size
  maxSize := size
  charsetId := 0
  charsetForm := 0

/-- `ColumnMeta::number`. -/
def ColumnMeta.number (name : List Char) (precision scale : Int8) : ColumnMeta :=
  plain name 2 precision scale 22

/-- `ColumnMeta::raw`. -/
def ColumnMeta.raw (name : List Char) (size : UInt32) : ColumnMeta := plain name 23 0 0 size

/-- `ColumnMeta::varchar`. -/
def ColumnMeta.varchar (name : List Char) (size : UInt32) : ColumnMeta :=
  { plain name 1 0 0 size with
    charsetId := 873
    charsetForm := 1 }

/-- `ColumnMeta::date`. -/
def ColumnMeta.date (name : List Char) : ColumnMeta := plain name 12 0 0 7

/-- `ColumnMeta::timestamp`. -/
def ColumnMeta.timestamp (name : List Char) (scale : Int8) : ColumnMeta := plain name 180 0 scale 11

/-- `write_u16_le`. -/
def u16Le (n : UInt16) : List UInt8 := (toBeBytes 2 n.toNat).reverse

/-- `write_u32_le`. -/
def u32Le (n : UInt32) : List UInt8 := (toBeBytes 4 n.toNat).reverse

/-- `write_zeros`. -/
def zeros (n : ℕ) : List UInt8 := List.replicate n 0

@[simp]
lemma length_u16Le (n : UInt16) : (u16Le n).length = 2 := by simp [u16Le]

@[simp]
lemma length_u32Le (n : UInt32) : (u32Le n).length = 4 := by simp [u32Le]

@[simp]
lemma length_zeros (n : ℕ) : (zeros n).length = n := List.length_replicate

/-! ### The description -/

/-- The bytes of a name, as many as are written. -/
def nameBytes (name : List Char) : List UInt8 := (utf8Encode name).take 255

/-- The description of a column, up to the length of its name. -/
def ociColumnFields (col : ColumnMeta) : List UInt8 :=
  [col.oracleType, col.flags, col.precision.toUInt8, col.scale.toUInt8] ++ u32Le col.bufferSize ++
    zeros 11 ++ u16Le col.charsetId ++ [col.charsetForm] ++ u16Le col.maxSize.toUInt16 ++ u16Le 0 ++
    u16Le (if col.charsetId ≠ 0 then 0x3ffe else 0) ++ u16Le 0

/-- The name in the description of a column. -/
def ociColumnName (name : List UInt8) : List UInt8 :=
  [1, UInt8.ofNat name.length, UInt8.ofNat name.length] ++ toBeBytes 4 name.length ++ name

/-- The description of the column at a place. -/
def ociColumn (col : ColumnMeta) (i : ℕ) : List UInt8 :=
  ociColumnFields col ++ ociColumnName (nameBytes col.name) ++
    (u32Le 0 ++ u32Le 0 ++ u16Le (UInt16.ofNat i) ++ u32Le 0)

/-- The greatest length of a row. -/
def maxRowSize (columns : List ColumnMeta) : UInt32 :=
  (columns.map fun c => max (max c.bufferSize c.maxSize) 1).foldl (· + ·) 0

/-- What is behind the columns: the date, and some numbers. -/
def ociDescribeTrailer : List UInt8 :=
  u32Le 7 ++ [7] ++ [0x78, 0x7e, 0x08, 0x1e, 0x03, 0x05, 0x33] ++ u32Le 0 ++ u32Le 0x1fe8 ++
    u32Le 2 ++ u32Le 2 ++ u32Le 0

/-- `write_oci_describe_body`. -/
def ociDescribeBody (columns : List ColumnMeta) : List UInt8 :=
  [23] ++ zeros 23 ++ [0x03, 0x05, 0x2c] ++ u32Le (maxRowSize columns) ++
    u32Le (UInt32.ofNat columns.length) ++ [0x5c] ++
    columns.zipIdx.flatMap (fun c => ociColumn c.1 c.2) ++ ociDescribeTrailer

/-! ### Rows -/

/-- A value: its length and its bytes, or a zero. -/
def ociCell : Option (List UInt8) → List UInt8
  | some bytes => UInt8.ofNat bytes.length :: bytes
  | none => [0]

/-- A row, with a value or none for each of so many columns. -/
def ociRow (n : ℕ) (row : Row) : List UInt8 :=
  0x07 :: (List.range n).flatMap fun i => ociCell row[i]?.join

/-- The rows. -/
def ociRowData (n : ℕ) (rows : List Row) : List UInt8 := rows.flatMap (ociRow n)

/-! ### The end of a call -/

/-- The text at the end of the rows. -/
def noDataFound : List UInt8 := utf8Encode "ORA-01403: no data found\n".toList

/-- `oci_random_rowid`, from the time. -/
def ociRandomRowid (seed : UInt64) : List UInt8 :=
  let alphabet := utf8Encode "abcdefghijklmnopqrstuvwxyz0123456789".toList
  (List.range 13).map fun k =>
    let seed := (fun s : UInt64 => s * 6364136223846793005 + 1442695040888963407)^[k + 1] seed
    alphabet.getD ((seed >>> 33).toNat % alphabet.length) 0

/-- What is behind the rows of an Execute. -/
def ociPostRow (cursorId : UInt16) (seed : UInt64) : List UInt8 :=
  [0x08, 0x06] ++ [0x00, 0xab, 0x6d, 0x2d] ++ zeros 5 ++ u32Le cursorId.toUInt32 ++ zeros 20 ++
    [0x0d] ++ toBeBytes 4 13 ++ ociRandomRowid seed

/-- The number of rows that is told. -/
def rowsThis (rows : List Row) : UInt8 := UInt8.ofNat (min rows.length 255)

/-- The end of the call, with all rows of an Execute. -/
def executeComplete (n : ℕ) (rows : List Row) (cursorId : UInt16) : List UInt8 :=
  let ctr := (cursorId + 6).toUInt8
  [0x04] ++ u32Le 1 ++ [ctr] ++ [0x00, rowsThis rows, 0x00, 0x00, 0x00] ++ u16Le 1403 ++ zeros 4 ++
    u16Le cursorId ++ u16Le (UInt16.ofNat (min ((UInt16.ofNat n).toNat * 16) 65535) - 2) ++
    u16Le 3 ++ zeros 22 ++ [ctr - 2, 0x00, 0x00, 0x01] ++ zeros 17 ++ u16Le 1403 ++ u16Le 0 ++
    [0x01, 0x01] ++ [UInt8.ofNat noDataFound.length] ++ noDataFound

/-- The end of the call, with all rows of an Execute that is repeated. -/
def reexecuteComplete (rows : List Row) (cursorId : UInt16) : List UInt8 :=
  let ctr := (cursorId + 0xd8).toUInt8
  [0x04] ++ u32Le 1 ++ [ctr] ++ [0x00, rowsThis rows, 0x00, 0x00, 0x00] ++ u16Le 1403 ++ zeros 4 ++
    u32Le 2 ++ u32Le 3 ++ zeros 20 ++ [0x07] ++ zeros 2 ++ [0x01] ++ zeros 17 ++ u16Le 1403 ++
    u16Le 0 ++ [0x01, 0x01] ++ [UInt8.ofNat noDataFound.length] ++ noDataFound

/-- The end of the call, with more rows of an Execute to come. -/
def executeMore (rows : List Row) (cursorId : UInt16) : List UInt8 :=
  let ctr := (cursorId * 2 + 21).toUInt8
  let mystery := (cursorId * 10 + 1).toUInt8
  [0x04] ++ u32Le 1 ++ [ctr] ++ [0x00, rowsThis rows] ++ zeros 8 ++ [0x00, cursorId.toUInt8] ++
    [0x00, mystery] ++ [0x00, 0x03] ++ zeros 23 ++ [ctr - 0x13] ++ zeros 2 ++ [0x01] ++ zeros 21 ++
    [0x01, 0x02]

/-- The end of the call, with more rows of an Execute that is repeated to come. -/
def reexecuteMore (rows : List Row) (cursorId : UInt16) : List UInt8 :=
  let ctr := (cursorId + 0x86).toUInt8
  [0x04] ++ u32Le 1 ++ [ctr] ++ [0x00, rowsThis rows] ++ zeros 4 ++ [0x00] ++ zeros 4 ++
    u32Le cursorId.toUInt32 ++ u32Le 3 ++ zeros 20 ++ [ctr - 0x81] ++ [0x00, 0x00, 0x01] ++
    zeros 21 ++ [0x01, 0x02]

/-- What is behind the rows of an Execute: a block and an identifier of the row, unless it is
repeated, and the end of the call. -/
def queryClosing (n : ℕ) (rows : List Row) (cursorId : UInt16) (hasMore withDescribe : Bool)
    (seed : UInt64) : List UInt8 :=
  (if withDescribe = true then ociPostRow cursorId seed else []) ++
    match hasMore, withDescribe with
    | false, true => executeComplete n rows cursorId
    | false, false => reexecuteComplete rows cursorId
    | true, true => executeMore rows cursorId
    | true, false => reexecuteMore rows cursorId

/-- The end of the call of a Fetch. -/
def fetchClosing (rows : List Row) (cursorId : UInt16) (hasMore : Bool) (rowsTotal : UInt64) :
    List UInt8 :=
  let ctr := (cursorId + 0x86).toUInt8
  let total := rowsTotal.toUInt8
  let code : UInt16 := if hasMore = true then 0 else 1403
  [0x04] ++ u32Le 1 ++ [ctr] ++ [0x00, total] ++ zeros 3 ++ u16Le code ++ zeros 4 ++
    (if rows.isEmpty = true then [0x01, 0x00, 0x00, 0x00, 0x03] ++ zeros 23
      else u32Le cursorId.toUInt32 ++ u32Le 3 ++ zeros 20) ++
    [ctr - 0x81] ++ zeros 20 ++ u16Le code ++ u16Le 0 ++
    if hasMore = true then [0x01, 0x02]
    else [0x01, if rows.isEmpty = true then 0x02 else total] ++
      [UInt8.ofNat noDataFound.length] ++ noDataFound

/-! ### Answers -/

/-- What is in front of the rows of an Execute, from its parts. -/
def queryRowHeader (n : ℕ) : List UInt8 :=
  [0x06, 0x22] ++ u32Le (UInt32.ofNat n) ++ u16Le 0 ++ u32Le 2 ++ zeros 10

/-- `build_query_response_oci_ex`, with the time. -/
def buildQueryResponseOciEx (columns : List ColumnMeta) (rows : List Row) (cursorId : UInt16)
    (hasMore withDescribe : Bool) (seed : UInt64) : List UInt8 :=
  [0, 0] ++ [0x10] ++ ociDescribeBody columns ++ queryRowHeader columns.length ++
    ociRowData columns.length rows ++
    queryClosing columns.length rows cursorId hasMore withDescribe seed

/-- What is in front of the rows of a Fetch. -/
def fetchRowHeader (n : ℕ) (reqCount : UInt32) : List UInt8 :=
  [0x06, 0x02] ++ u32Le (UInt32.ofNat n) ++ u16Le 0 ++ u32Le reqCount ++ u16Le 0 ++ u32Le 0 ++
    u32Le 0

/-- `build_fetch_response_oci`. -/
def buildFetchResponseOci (columns : List ColumnMeta) (rows : List Row) (reqCount : UInt32)
    (cursorId : UInt16) (hasMore : Bool) (rowsTotal : UInt64) : List UInt8 :=
  [0, 0] ++ (if rows.isEmpty = true then []
      else fetchRowHeader columns.length reqCount ++ ociRowData columns.length rows) ++
    fetchClosing rows cursorId hasMore rowsTotal

end DbSaci.Wire
