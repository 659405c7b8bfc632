import DbSaci.Wire.ClrValues
import DbSaci.Wire.CompactIntegers
import DbSaci.Wire.Negotiation

set_option relaxedAutoImplicit false
set_option autoImplicit false

/-!
# Rows for the clients with compact numbers

The answer to a query describes the columns, has some rows and ends the call; the answer to a fetch
has further rows. Each part starts with a byte that says what it is. Three kinds of clients read the
parts, each in its own layout, and one of them has a layout of its own for the end of a fetch.

## Main definitions

* `ResponseField`, `response` — the fields of the parts, how they are written and how they are read.
* `Layout` — the layouts of the parts.
* `buildQueryResponseEx`, `buildFetchResponse`, `buildFetchResponseJdbc` — the answers.
* `buildErrorResponseAt` — the answer to a statement that has failed.
* `readQueryAnswer`, `readAnswer` — what a client makes of them.

## Main results

* `query_decodable`, `fetch_decodable` — the client finds the columns, the rows and the end.
* `error_decodable` — the client finds the number, the text and the place of an error.
-/

namespace DbSaci.Wire

open Fallible (ret fail)

/-! ### Fields -/

/-- The kinds of fields: those of a description, a signed number, a text with a number in front that
says whether there is one, and a value. -/
inductive ResponseKind
  | plain (k : FieldKind)
  | sb2
  | text
  | value
  deriving DecidableEq

/-- A field with its value. -/
inductive ResponseField
  | plain (field : DescribeField)
  | sb2 (v : Int16)
  | text (v : Option (List UInt8))
  | value (v : Option (List UInt8))
  deriving DecidableEq

namespace ResponseField

/-- A byte. -/
@[match_pattern] def u8 (v : UInt8) : ResponseField := plain (.u8 v)

/-- A number of two bytes. -/
@[match_pattern] def ub2 (v : UInt16) : ResponseField := plain (.ub2 v)

/-- A number of four bytes. -/
@[match_pattern] def ub4 (v : UInt32) : ResponseField := plain (.ub4 v)

/-- A number of eight bytes. -/
@[match_pattern] def ub8 (v : UInt64) : ResponseField := plain (.ub8 v)

/-- The kind of a field. -/
def kind : ResponseField → ResponseKind
  | plain field => .plain field.kind
  | sb2 _ => .sb2
  | text _ => .text
  | value _ => .value

/-- `write_string_with_ub4_length`, of the bytes of a text. -/
def writeText : Option (List UInt8) → List UInt8
  | none => writeUb4 0
  | some bytes => writeUb4 (UInt32.ofNat bytes.length) ++ writeBytesWithLength (some bytes)

/-- The bytes the server writes for a field. -/
def write : ResponseField → List UInt8
  | plain field => field.write
  | sb2 v => writeSb2 v
  | text v => writeText v
  | value v => writeBytesWithLength v

end ResponseField

/-- A text, if the number in front is not zero. -/
def readText : Read (Option (List UInt8)) := do
  let n ← readUb4
  if n = 0 then ret none else readBytesWithLength

/-- How a client reads a field of a kind. -/
def ResponseKind.read : ResponseKind → Read ResponseField
  | plain k => do
    let field ← k.read
    ret (.plain field)
  | sb2 => do
    let v ← readSb2
    ret (.sb2 v)
  | text => do
    let v ← readText
    ret (.text v)
  | value => do
    let v ← readBytesWithLength
    ret (.value v)

/-- The fields of the parts. -/
def response : FieldFormat UInt8 ReadError ResponseKind ResponseField where
  kind := ResponseField.kind
  write := ResponseField.write
  read := ResponseKind.read

/-! ### The end of a call -/

/-- What is said at the end of a call. -/
structure Ending where
  code : UInt32
  message : Option (List Char)
  rowCount : UInt64
  hasMore : Bool
  errorPos : UInt16
  reqSeq : UInt8
  cursorId : UInt16

/-- The layouts of the end of a call: of a query for the lenient clients and of a fetch for them,
for the strict clients, and for the jdbc-style ones. -/
inductive Layout
  | lenientQuery
  | lenientFetch
  | strict
  | jdbc
  deriving DecidableEq

/-- The text of an error, if there is one. -/
def Ending.text (e : Ending) : List UInt8 :=
  if e.code ≠ 0 then writeBytesWithLength (e.message.map utf8Encode) else []

/-- What stands in front of the identifier of a row for the clients that are not jdbc-style. -/
def Ending.thinHead (e : Ending) : List ResponseField :=
  [.ub4 0, -- call status
    .ub2 0, -- end-to-end seq
    .ub4 0, -- current row number
    .ub2 0, -- error number short
    .ub2 0, -- array elem error
    .ub2 0, -- array elem error
    .ub2 (if e.hasMore = true then 1 else 0), -- cursor id
    .sb2 e.errorPos.toInt16,
    .u8 0, .u8 0, .u8 0, .u8 0, .u8 0, -- SQL type, fatal, flags, cursor options, UPI
    .u8 (if e.hasMore = true then 0x20 else 0)] -- flags

/-- The five fields of the identifier of a row. -/
def rowidFields : List ResponseField := [.ub4 0, .ub2 0, .u8 0, .ub4 0, .ub2 0]

/-- What stands behind the error of the system: a statement number, a call number, padding and the
iterations. -/
def callFields : List ResponseField := [.u8 0, .u8 0, .ub2 0, .ub4 0]

/-- The counts of a batch, the number of the error and that of the rows. -/
def Ending.errorFields (e : Ending) : List ResponseField :=
  [.ub2 0, .ub4 0, .ub2 0, .ub4 e.code, .ub8 e.rowCount]

/-- The fields at the end of a call, but for the text of an error: `write_end_of_call`,
`write_fetch_end_of_call`, `write_end_of_call_ext` if it is strict, and `write_end_of_call_jdbc`. -/
def Layout.endFields (e : Ending) : Layout → List ResponseField
  | lenientQuery =>
    e.thinHead ++ (rowidFields ++ ([.ub4 0] ++ (callFields ++ -- OS error
      ([.ub4 0] ++ (e.errorFields ++ [.ub4 0, .ub4 0]))))) -- logical rowid, sql type, checksum
  | lenientFetch =>
    e.thinHead ++ (List.replicate 10 (.u8 0) ++ ([.ub4 0] ++ (callFields ++
      ([.ub4 0] ++ e.errorFields))))
  | strict =>
    e.thinHead ++ (rowidFields ++ ([.ub4 0] ++ (callFields ++ ([.text none] ++ e.errorFields))))
  | jdbc =>
    [.ub4 0, -- end-of-call status
      .ub2 0, -- end-to-end sequence number
      .ub4 e.rowCount.toUInt32, -- current row number
      .ub2 e.code.toUInt16, -- return code
      .ub2 0, .ub2 0, -- array element with error
      .ub2 (if e.hasMore = true then max e.cursorId 1 else 0),
      .sb2 e.errorPos.toInt16,
      .u8 0, -- sql type
      .plain (.sb1 0), -- fatal flag
      .plain (.sb1 (if e.hasMore = true then 0x20 else 0)), -- flags, as small as a `write_ub2`
      .plain (.sb1 0), -- user cursor option
      .u8 0, -- upi param
      .u8 0] ++ -- warning flag
    (rowidFields ++
      [.ub4 0, -- OS error
        .u8 0, -- statement number
        .u8 e.reqSeq,
        .ub2 0, .ub4 0, -- padding, success iterations
        .plain (.dalc []), .plain (.dalc []), .plain (.dalc []), -- error id, batch errors
        .ub4 0, .ub4 e.code, .ub8 e.rowCount])

/-- The end of a call: behind its byte the fields, the text of an error, and the byte that ends the
answer for the strict clients. -/
def Layout.writeEnd (l : Layout) (e : Ending) : List UInt8 :=
  0x04 :: (response.writeAll (l.endFields e) ++ (e.text ++ if l = .strict then [0x1d] else []))

/-- `row_count_field`. -/
def rowCountField (hasMore : Bool) : UInt64 := if hasMore = true then 1 else 0

/-- The end behind the rows of a cursor: with an error if there are no more. -/
def Ending.ofRows (hasMore : Bool) (reqSeq : UInt8) (cursorId : UInt16) : Ending where
  code := if hasMore = true then 0 else 1403
  message := if hasMore = true then none else some "ORA-01403: no data found".toList
  rowCount := rowCountField hasMore
  hasMore := hasMore
  errorPos := 0
  reqSeq := reqSeq
  cursorId := cursorId

/-! ### The description -/

/-- The fields of a column for the clients that are not jdbc-style. -/
def JdbcColumn.thinFields (col : JdbcColumn) : List ResponseField :=
  [.u8 col.oracleType,
    .u8 col.flags,
    .u8 col.precision.toUInt8,
    .u8 col.scale.toUInt8,
    .ub4 col.bufferSize,
    .ub4 0, -- max num array elements
    .ub8 0, -- cont flags
    .text none, -- OID
    .ub2 1, -- version
    .ub2 col.charsetId,
    .u8 col.charsetForm,
    .ub4 col.maxSize,
    .ub4 0, -- oaccolid
    .u8 (if col.nullable = true then 1 else 0),
    .u8 0, -- v7 name length
    .text (some (utf8Encode col.name)),
    .text (col.schema.map utf8Encode),
    .text (col.typeName.map utf8Encode),
    .ub2 col.position,
    .ub4 0] -- uds flags

/-- What stands in front of so many columns: an empty chunk, the greatest size of a row, their
number and a byte that is skipped. -/
def thinPrologue (n : ℕ) : List ResponseField := [.u8 0, .ub4 0, .ub4 (UInt32.ofNat n), .u8 0]

/-- What stands behind the columns. -/
def thinTrailer : List ResponseField := [.ub4 0, .ub4 0, .ub4 0, .ub4 0, .ub4 0, .ub4 0]

/-- The description of the columns. -/
def Layout.writeDescribe (l : Layout) (cols : List JdbcColumn) : List UInt8 :=
  if l = .jdbc then writeDescribeJdbcEx cols true
  else response.writeAll (thinPrologue cols.length ++
    ((cols.map JdbcColumn.thinFields).flatten ++ thinTrailer))

/-! ### Answers -/

/-- A row of values. -/
def writeRow (row : Row) : List UInt8 := 0x07 :: response.writeAll (row.map .value)

/-- `write_row_header`, and the one of the jdbc-style clients in front of so many rows. -/
def Layout.headerFields (n : ℕ) : Layout → List ResponseField
  | jdbc =>
    [.u8 0, .ub2 (UInt16.ofNat n), .ub2 0, .ub2 (UInt16.ofNat n), .ub2 0, .plain (.dalc []),
      .plain (.dalc [])]
  | _ => [.u8 0, .ub2 0, .ub4 0, .ub4 0, .ub2 0, .ub4 0, .ub4 0]

/-- A header in front of so many rows. -/
def Layout.writeHeader (l : Layout) (n : ℕ) : List UInt8 :=
  0x06 :: response.writeAll (l.headerFields n)

/-- The rows behind one header, if there are some. -/
def writeRowsJdbc (rows : List Row) : List UInt8 :=
  (if rows = [] then [] else Layout.jdbc.writeHeader rows.length) ++ rows.flatMap writeRow

/-- The values of a row for so many columns. -/
def padRow (n : ℕ) (row : Row) : Row := (List.range n).map fun i => (row[i]?).join

/-- `write_u16_be`, of the flags of an answer: the strict clients take the answer for complete by
them. -/
def dataFlags (complete : Bool) : List UInt8 := if complete = true then [0x20, 0] else [0, 0]

/-- `build_query_response_ex` for a client with compact numbers: not for OCI. -/
def buildQueryResponseEx (cols : List JdbcColumn) (rows : List Row) (cursorId : UInt16)
    (hasMore responseCompletion newerDescribeFraming : Bool) (reqSeq : UInt8) : List UInt8 :=
  let padded := rows.map (padRow cols.length)
  dataFlags (responseCompletion && !newerDescribeFraming && !hasMore) ++ (0x10 ::
    if newerDescribeFraming = true then
      Layout.jdbc.writeDescribe cols ++ (writeRowsJdbc padded ++
        if responseCompletion = true then Layout.jdbc.writeEnd (.ofRows hasMore reqSeq cursorId)
        else Layout.lenientQuery.writeEnd
          { Ending.ofRows hasMore reqSeq cursorId with code := 0, message := none })
    else
      Layout.strict.writeDescribe cols ++ (padded.flatMap writeRow ++
        if responseCompletion = true then Layout.strict.writeEnd (.ofRows hasMore reqSeq cursorId)
        else Layout.lenientQuery.writeEnd
          { Ending.ofRows hasMore reqSeq cursorId with code := 0, message := none }))

/-- `build_fetch_response`. -/
def buildFetchResponse (rows : List Row) (hasMore responseCompletion : Bool) : List UInt8 :=
  let l := if responseCompletion = true then Layout.strict else .lenientFetch
  dataFlags (responseCompletion && !hasMore) ++
    ((rows.flatMap fun row => l.writeHeader 0 ++ writeRow row) ++
      l.writeEnd (.ofRows hasMore 0 0))

/-- `build_fetch_response_jdbc`. -/
def buildFetchResponseJdbc (rows : List Row) (cursorId : UInt16) (hasMore : Bool)
    (reqSeq : UInt8) : List UInt8 :=
  dataFlags false ++
    (writeRowsJdbc rows ++ Layout.jdbc.writeEnd (.ofRows hasMore reqSeq cursorId))

/-- `build_error_response_at` for a client with compact numbers: not for OCI. -/
def buildErrorResponseAt (responseCompletion newerDescribeFraming : Bool) (code : UInt32)
    (message : List Char) (errorPos : UInt16) : List UInt8 :=
  let e : Ending := ⟨code, some message, 0, false, errorPos, 0, 0⟩
  if newerDescribeFraming = true then dataFlags false ++ Layout.jdbc.writeEnd e
  else if responseCompletion = true then dataFlags true ++ Layout.strict.writeEnd e
  else dataFlags false ++ Layout.lenientQuery.writeEnd e

/-! ### The client -/

/-- The end of a call as a client reads it. -/
structure EndOfCall where
  code : ℕ
  message : Option (List UInt8)
  rowCount : ℕ
  more : Bool
  errorPos : ℕ
  cursorId : ℕ
  deriving DecidableEq

/-- The number that a field is. -/
def ResponseField.number : ResponseField → ℕ
  | plain (.u8 v) => v.toNat
  | plain (.ub2 v) => v.toNat
  | plain (.ub4 v) => v.toNat
  | plain (.ub8 v) => v.toNat
  | plain (.sb1 v) => v.toUInt8.toNat
  | sb2 v => v.toUInt16.toNat
  | _ => 0

/-- The number at a place. -/
def numberAt (fields : List ResponseField) (i : ℕ) : ℕ := (fields[i]?).elim 0 ResponseField.number

/-- The kinds of the fields at the end of a call. -/
def Layout.endKinds : Layout → List ResponseKind
  | lenientQuery =>
    [.plain .ub4, .plain .ub2, .plain .ub4, .plain .ub2, .plain .ub2, .plain .ub2, .plain .ub2,
      .sb2, .plain .u8, .plain .u8, .plain .u8, .plain .u8, .plain .u8, .plain .u8, .plain .ub4,
      .plain .ub2, .plain .u8, .plain .ub4, .plain .ub2, .plain .ub4, .plain .u8, .plain .u8,
      .plain .ub2, .plain .ub4, .plain .ub4, .plain .ub2, .plain .ub4, .plain .ub2, .plain .ub4,
      .plain .ub8, .plain .ub4, .plain .ub4]
  | lenientFetch =>
    [.plain .ub4, .plain .ub2, .plain .ub4, .plain .ub2, .plain .ub2, .plain .ub2, .plain .ub2,
      .sb2, .plain .u8, .plain .u8, .plain .u8, .plain .u8, .plain .u8, .plain .u8] ++
    List.replicate 10 (.plain .u8) ++
    [.plain .ub4, .plain .u8, .plain .u8, .plain .ub2, .plain .ub4, .plain .ub4, .plain .ub2,
      .plain .ub4, .plain .ub2, .plain .ub4, .plain .ub8]
  | strict =>
    [.plain .ub4, .plain .ub2, .plain .ub4, .plain .ub2, .plain .ub2, .plain .ub2, .plain .ub2,
      .sb2, .plain .u8, .plain .u8, .plain .u8, .plain .u8, .plain .u8, .plain .u8, .plain .ub4,
      .plain .ub2, .plain .u8, .plain .ub4, .plain .ub2, .plain .ub4, .plain .u8, .plain .u8,
      .plain .ub2, .plain .ub4, .text, .plain .ub2, .plain .ub4, .plain .ub2, .plain .ub4,
      .plain .ub8]
  | jdbc =>
    [.plain .ub4, .plain .ub2, .plain .ub4, .plain .ub2, .plain .ub2, .plain .ub2, .plain .ub2,
      .sb2, .plain .u8, .plain .sb1, .plain .sb1, .plain .sb1, .plain .u8, .plain .u8,
      .plain .ub4, .plain .ub2, .plain .u8, .plain .ub4, .plain .ub2, .plain .ub4, .plain .u8,
      .plain .u8, .plain .ub2, .plain .ub4, .plain .dalc, .plain .dalc, .plain .dalc, .plain .ub4,
      .plain .ub4, .plain .ub8]

/-- Where the flags stand, and where the number of an error does, with that of the rows behind
it. -/
def Layout.places : Layout → ℕ × ℕ
  | lenientQuery | strict => (13, 28)
  | lenientFetch => (13, 33)
  | jdbc => (10, 28)

/-- The end of a call that some fields are, with the text of an error. -/
def Layout.endOf (l : Layout) (fields : List ResponseField) (message : Option (List UInt8)) :
    EndOfCall where
  code := numberAt fields l.places.2
  message := message
  rowCount := numberAt fields (l.places.2 + 1)
  more := numberAt fields l.places.1 ≠ 0
  errorPos := numberAt fields 7
  cursorId := numberAt fields 6

/-- The text of an error, if there is one. -/
def readMessage (code : ℕ) : Read (Option (List UInt8)) :=
  if code ≠ 0 then readBytesWithLength else ret none

/-- The byte that ends an answer for the strict clients. -/
def Layout.readClosing (l : Layout) : Read Unit :=
  if l = .strict then do
    let b ← readU8
    if b = 0x1d then ret () else fail (.protocol "end of response expected")
  else ret ()

/-- The end of a call. -/
def Layout.readEnd (l : Layout) : Read EndOfCall := do
  let fields ← response.readAll l.endKinds
  let message ← readMessage (numberAt fields l.places.2)
  let _ ← l.readClosing
  ret (l.endOf fields message)

/-- The value that a field is. -/
def ResponseField.valueOf : ResponseField → Option (List UInt8)
  | value v => v
  | _ => none

/-- A row of so many values. -/
def readValues (n : ℕ) : Read Row := do
  let fields ← response.readAll (List.replicate n .value)
  ret (fields.map ResponseField.valueOf)

/-- The kinds of the fields of a header. -/
def Layout.headerKinds : Layout → List ResponseKind
  | jdbc =>
    [.plain .u8, .plain .ub2, .plain .ub2, .plain .ub2, .plain .ub2, .plain .dalc, .plain .dalc]
  | _ =>
    [.plain .u8, .plain .ub2, .plain .ub4, .plain .ub4, .plain .ub2, .plain .ub4, .plain .ub4]

/-- Headers and rows of so many values, up to the end of the call, at most so many. -/
def Layout.readParts (l : Layout) (n : ℕ) : ℕ → Read (List Row × EndOfCall)
  | 0 => fail (.bufferUnderflow 1 0)
  | fuel + 1 => do
    let part ← readU8
    if part = 0x06 then do
      let _ ← response.readAll l.headerKinds
      l.readParts n fuel
    else if part = 0x07 then do
      let row ← readValues n
      let others ← l.readParts n fuel
      ret (row :: others.1, others.2)
    else if part = 0x04 then do
      let e ← l.readEnd
      ret ([], e)
    else fail (.protocol "unexpected message")

/-- Headers, rows and the end of the call. There are not more of them than there are bytes. -/
def Layout.readRows (l : Layout) (n : ℕ) : Read (List Row × EndOfCall) := fun s =>
  l.readParts n (s.length + 1) s

/-- The kinds of the fields of a column. -/
def thinColumnKinds : List ResponseKind :=
  [.plain .u8, .plain .u8, .plain .u8, .plain .u8, .plain .ub4, .plain .ub4, .plain .ub8, .text,
    .plain .ub2, .plain .ub2, .plain .u8, .plain .ub4, .plain .ub4, .plain .u8, .plain .u8, .text,
    .text, .text, .plain .ub2, .plain .ub4]

/-- The column that some fields describe. -/
def thinColumnOf : List ResponseField → Option DescribedColumn
  | [.u8 oracleType, .u8 flags, .u8 precision, .u8 scale, .ub4 bufferSize, .ub4 _, .ub8 _, .text _,
      .ub2 _, .ub2 charsetId, .u8 charsetForm, .ub4 maxSize, .ub4 _, .u8 nullable, .u8 _,
      .text name, .text schema, .text typeName, .ub2 position, .ub4 _] =>
    some
      { oracleType, flags, charsetId, charsetForm, position
        precision := precision.toInt8
        scale := scale.toInt8
        maxLength := bufferSize
        maxChars := maxSize
        nullable := nullable ≠ 0
        name := name.getD []
        schema := schema.getD []
        typeName := typeName.getD [] }
  | _ => none

/-- The columns that a client finds that is not jdbc-style. -/
def readThinDescribe : Read (List (Option DescribedColumn)) := do
  let fields ← response.readAll [.plain .u8, .plain .ub4, .plain .ub4]
  let _ ← skipByte (numberAt fields 2)
  let records ← response.readRecords thinColumnKinds (numberAt fields 2)
  let _ ← response.readAll (List.replicate 6 (.plain .ub4))
  ret (records.map thinColumnOf)

/-- The columns that a client finds. -/
def Layout.readDescribe (l : Layout) : Read (List (Option DescribedColumn)) :=
  if l = .jdbc then Wire.readDescribe else readThinDescribe

/-- What a client finds in an answer: whether it is marked as complete, the columns if they are
described, the rows and the end of the call. -/
structure FoundAnswer where
  marked : Bool
  columns : List (Option DescribedColumn)
  rows : List Row
  ending : EndOfCall

/-- The flags of an answer. -/
def readFlags : Read Bool := do
  let flags ← readU16Be
  ret (flags / 0x2000 % 2 = 1)

/-- The answer to a query. -/
def Layout.readQueryAnswer (l : Layout) : Read FoundAnswer := do
  let marked ← readFlags
  let part ← readU8
  if part = 0x10 then do
    let columns ← l.readDescribe
    let found ← l.readRows columns.length
    ret ⟨marked, columns, found.1, found.2⟩
  else fail (.protocol "description expected")

/-- The answer to a fetch of rows with so many columns, and to a statement that has failed. -/
def Layout.readAnswer (l : Layout) (n : ℕ) : Read FoundAnswer := do
  let marked ← readFlags
  let found ← l.readRows n
  ret ⟨marked, [], found.1, found.2⟩

/-! ### What fits -/

/-- A field that is read where it has been written. -/
def ResponseField.Fits : ResponseField → Prop
  | plain field => field.Fits
  | sb2 v => SignKept v
  | text v => ∀ bytes ∈ v, bytes.length % 2 ^ 32 ≠ 0
  | value _ => True

/-- **A field is read where it has been written** if and only if it fits. -/
theorem response_delivers_iff (field : ResponseField) (rest : List UInt8) :
    response.Delivers field rest ↔ field.Fits := by
  rw [FieldFormat.Delivers]
  cases field with
  | plain field =>
    have hinj : Function.Injective ResponseField.plain := fun _ _ => ResponseField.plain.inj
    exact (Fallible.bind_ret_iff hinj).trans (delivers_iff_fits field rest)
  | sb2 v =>
    have hinj : Function.Injective ResponseField.sb2 := fun _ _ => ResponseField.sb2.inj
    exact (Fallible.bind_ret_iff hinj).trans (readSb2_writeSb2_iff rest v)
  | text v =>
    have hinj : Function.Injective ResponseField.text := fun _ _ => ResponseField.text.inj
    refine (Fallible.bind_ret_iff hinj).trans ?_
    cases v with
    | none =>
      refine iff_of_true (Fallible.bind_of_ok (readUb4_writeUb4 rest 0)) ?_
      intro bytes hbytes
      cases hbytes
    | some bytes =>
      have hcount := readUb4_writeUb4 (writeBytesWithLength (some bytes) ++ rest)
        (UInt32.ofNat bytes.length)
      rw [UInt32.toNat_ofNat'] at hcount
      change readText ((writeUb4 _ ++ writeBytesWithLength (some bytes)) ++ rest) = _ ↔ _
      rw [readText, List.append_assoc, Fallible.bind_of_ok hcount]
      split_ifs with hzero
      · refine iff_of_false ?_ fun h => h bytes rfl hzero
        intro h
        cases (Prod.mk.inj h).1
      · refine iff_of_true (readBytesWithLength_write (some bytes) rest) ?_
        rintro _ ⟨⟩
        exact hzero
  | value v =>
    refine iff_of_true ?_ trivial
    exact Fallible.bind_of_ok (readBytesWithLength_write v rest)

/-- A client that knows the kinds finds fields that fit. -/
lemma readAll_writeAll {fields : List ResponseField} {kinds : List ResponseKind}
    (hkinds : fields.map response.kind = kinds) (h : ∀ field ∈ fields, field.Fits)
    (rest : List UInt8) :
    response.readAll kinds (response.writeAll fields ++ rest) = (.ok fields, rest) := by
  rw [← hkinds]
  exact ((FieldFormat.inStep_iff response_delivers_iff).2 h).readAll

/-! ### The end of a call -/

/-- The end of a call as a client should read it. The clients that are not jdbc-style find the same
cursor id for all cursors. -/
def Layout.ending (l : Layout) (e : Ending) : EndOfCall where
  code := e.code.toNat
  message := if e.code ≠ 0 then e.message.map utf8Encode else none
  rowCount := e.rowCount.toNat
  more := e.hasMore
  errorPos := e.errorPos.toNat
  cursorId := if e.hasMore = true then if l = .jdbc then (max e.cursorId 1).toNat else 1 else 0

section EndOfCall

variable (l : Layout) (e : Ending) (rest : List UInt8)

lemma map_kind_endFields : (l.endFields e).map response.kind = l.endKinds := by
  cases l <;> rfl

lemma fits_endFields (h : SignKept e.errorPos.toInt16) : ∀ field ∈ l.endFields e, field.Fits := by
  have hflags : (if e.hasMore = true then 0x20 else 0 : Int8) ≠ -128 := by split_ifs <;> decide
  cases l <;>
    simp [Layout.endFields, Ending.thinHead, rowidFields, callFields, Ending.errorFields,
      ResponseField.Fits, ResponseField.u8, ResponseField.ub2, ResponseField.ub4,
      ResponseField.ub8, DescribeField.Fits, h, hflags]

/-- What stands at the places of the end of a call. -/
lemma endOf_endFields (message : Option (List UInt8)) : l.endOf (l.endFields e) message =
    { l.ending e with message := message } := by
  have hpos : e.errorPos.toInt16.toUInt16.toNat = e.errorPos.toNat := by
    rw [UInt16.toUInt16_toInt16]
  have hcursor : (if e.hasMore = true then 1 else 0 : UInt16).toNat =
      if e.hasMore = true then 1 else 0 := by split_ifs <;> rfl
  have hid : (if e.hasMore = true then max e.cursorId 1 else 0).toNat =
      if e.hasMore = true then (max e.cursorId 1).toNat else 0 := by split_ifs <;> rfl
  have hmore : decide ((if e.hasMore = true then 0x20 else 0 : UInt8).toNat ≠ 0) = e.hasMore := by
    cases e.hasMore <;> rfl
  have hmore' : decide ((if e.hasMore = true then 0x20 else 0 : Int8).toUInt8.toNat ≠ 0) =
      e.hasMore := by cases e.hasMore <;> rfl
  rw [Layout.endOf, Layout.ending]
  cases l with
  | jdbc => exact congr (congr (congrArg _ hmore') hpos) hid
  | lenientQuery => exact congr (congr (congrArg _ hmore) hpos) hcursor
  | lenientFetch => exact congr (congr (congrArg _ hmore) hpos) hcursor
  | strict => exact congr (congr (congrArg _ hmore) hpos) hcursor

lemma readMessage_text :
    readMessage e.code.toNat (e.text ++ rest) = (.ok (l.ending e).message, rest) := by
  have hcode : e.code.toNat = 0 ↔ e.code = 0 := by
    rw [← UInt32.toNat_inj]
    rfl
  rw [readMessage, Ending.text, Layout.ending]
  by_cases hzero : e.code = 0
  · rw [if_neg (not_not.2 (hcode.2 hzero)), if_neg (not_not.2 hzero), if_neg (not_not.2 hzero)]
    rfl
  · rw [if_pos (mt hcode.1 hzero), if_pos hzero, if_pos hzero]
    exact readBytesWithLength_write _ rest

lemma readClosing_closing :
    l.readClosing ((if l = .strict then [0x1d] else []) ++ rest) = (.ok (), rest) := by
  rw [Layout.readClosing]
  split_ifs
  · exact Fallible.bind_of_ok (readU8_cons 0x1d rest)
  · rfl

/-- **The end of a call is read**, if the place of an error is. -/
lemma readEnd_append (h : SignKept e.errorPos.toInt16) :
    l.readEnd (response.writeAll (l.endFields e) ++ (e.text ++
      ((if l = .strict then [0x1d] else []) ++ rest))) = (.ok (l.ending e), rest) := by
  have hfields := readAll_writeAll (map_kind_endFields l e) (fits_endFields l e h)
    (e.text ++ ((if l = .strict then [0x1d] else []) ++ rest))
  have hcode : numberAt (l.endFields e) l.places.2 = e.code.toNat :=
    congrArg EndOfCall.code (endOf_endFields l e none)
  rw [Layout.readEnd, Fallible.bind_of_ok hfields, hcode,
    Fallible.bind_of_ok (readMessage_text l e _), Fallible.bind_of_ok (readClosing_closing l rest),
    endOf_endFields]
  rfl

end EndOfCall

/-! ### Rows -/

/-- A row is read with its number of values. -/
lemma readValues_append (row : Row) (rest : List UInt8) :
    readValues row.length (response.writeAll (row.map .value) ++ rest) = (.ok row, rest) := by
  have hkinds : (row.map ResponseField.value).map response.kind =
      List.replicate row.length .value := by
    rw [List.map_map, List.eq_replicate_iff]
    refine ⟨List.length_map _, fun k hk => ?_⟩
    obtain ⟨_, -, rfl⟩ := List.mem_map.1 hk
    rfl
  have hfits : ∀ field ∈ row.map ResponseField.value, field.Fits := by
    intro field hfield
    obtain ⟨_, -, rfl⟩ := List.mem_map.1 hfield
    trivial
  have hback : (row.map ResponseField.value).map ResponseField.valueOf = row := by
    rw [List.map_map]
    exact List.map_id row
  rw [readValues, Fallible.bind_of_ok (readAll_writeAll hkinds hfits rest), hback]
  rfl

/-- The parts in front of the end of a call: headers, and rows. -/
inductive ResponsePart
  | header (n : ℕ)
  | row (row : Row)

namespace ResponsePart

/-- The bytes of a part. -/
def write (l : Layout) : ResponsePart → List UInt8
  | header n => l.writeHeader n
  | row r => writeRow r

/-- The row that a part is. -/
def row? : ResponsePart → Option Row
  | header _ => none
  | row r => some r

lemma length_write_pos (l : Layout) (part : ResponsePart) : 0 < (part.write l).length := by
  cases part <;> exact Nat.succ_pos _

end ResponsePart

lemma readHeader_append (l : Layout) (n : ℕ) (rest : List UInt8) :
    response.readAll l.headerKinds (response.writeAll (l.headerFields n) ++ rest) =
      (.ok (l.headerFields n), rest) := by
  refine readAll_writeAll (by cases l <;> rfl) ?_ rest
  cases l <;>
    simp [Layout.headerFields, ResponseField.Fits, ResponseField.u8, ResponseField.ub2,
      ResponseField.ub4, DescribeField.Fits]

/-- **The rows among the parts are read**, up to the end of the call. -/
theorem readParts_append (l : Layout) {n fuel : ℕ} {parts : List ResponsePart} (e : Ending)
    (rest : List UInt8) (hfuel : parts.length < fuel)
    (hwidth : ∀ row ∈ parts.filterMap ResponsePart.row?, row.length = n)
    (hpos : SignKept e.errorPos.toInt16) :
    l.readParts n fuel (parts.flatMap (ResponsePart.write l) ++ (l.writeEnd e ++ rest)) =
      (.ok (parts.filterMap ResponsePart.row?, l.ending e), rest) := by
  induction fuel generalizing parts with
  | zero => exact absurd hfuel (Nat.not_lt_zero _)
  | succ fuel ih =>
    cases parts with
    | nil =>
      have hend := readEnd_append l e rest hpos
      rw [List.flatMap_nil, List.nil_append, Layout.writeEnd, List.cons_append, Layout.readParts,
        Fallible.bind_of_ok (readU8_cons _ _), List.append_assoc, List.append_assoc]
      exact Fallible.bind_of_ok hend
    | cons part parts =>
      have hfuel' : parts.length < fuel := Nat.lt_of_succ_lt_succ hfuel
      rw [List.flatMap_cons, List.append_assoc]
      cases part with
      | header k =>
        have hothers := ih hfuel' hwidth
        rw [ResponsePart.write, Layout.writeHeader, List.cons_append, Layout.readParts,
          Fallible.bind_of_ok (readU8_cons _ _)]
        exact (Fallible.bind_of_ok (readHeader_append l k _)).trans hothers
      | row r =>
        have hcons : (ResponsePart.row r :: parts).filterMap ResponsePart.row? =
            r :: parts.filterMap ResponsePart.row? := rfl
        rw [hcons] at hwidth ⊢
        obtain ⟨hrow, hrows⟩ := List.forall_mem_cons.1 hwidth
        have hothers := ih hfuel' hrows
        have hread := readValues_append r (parts.flatMap (ResponsePart.write l) ++
          (l.writeEnd e ++ rest))
        rw [hrow] at hread
        rw [ResponsePart.write, writeRow, List.cons_append, Layout.readParts,
          Fallible.bind_of_ok (readU8_cons _ _)]
        refine (Fallible.bind_of_ok hread).trans ((Fallible.bind_of_ok hothers).trans ?_)
        rfl

/-- All rows are read: each part has a byte at least. -/
lemma readRows_append (l : Layout) {n : ℕ} {parts : List ResponsePart} (e : Ending)
    (rest : List UInt8) (hwidth : ∀ row ∈ parts.filterMap ResponsePart.row?, row.length = n)
    (hpos : SignKept e.errorPos.toInt16) :
    l.readRows n (parts.flatMap (ResponsePart.write l) ++ (l.writeEnd e ++ rest)) =
      (.ok (parts.filterMap ResponsePart.row?, l.ending e), rest) := by
  refine readParts_append l e rest ?_ hwidth hpos
  have hlen : ∀ parts : List ResponsePart,
      parts.length ≤ (parts.flatMap (ResponsePart.write l)).length := by
    intro parts
    induction parts with
    | nil => exact Nat.le_refl 0
    | cons part parts ih =>
      have hpart := part.length_write_pos l
      rw [List.flatMap_cons, List.length_append, List.length_cons]
      omega
  have hle := hlen parts
  rw [List.length_append]
  omega

/-! ### The description -/

/-- A column with no text that is empty. -/
def JdbcColumn.FitsThin (col : JdbcColumn) : Prop :=
  ∀ text ∈ [some col.name, col.schema, col.typeName], ∀ s ∈ text,
    (utf8Encode s).length % 2 ^ 32 ≠ 0

/-- The fields of a column describe it. -/
lemma thinColumnOf_fields (col : JdbcColumn) :
    thinColumnOf col.thinFields = some { col.described with maxLength := col.bufferSize } := by
  have hnullable : decide ((if col.nullable = true then 1 else 0 : UInt8) ≠ 0) = col.nullable := by
    cases col.nullable <;> rfl
  have htext : ∀ s : Option (List Char), (s.map utf8Encode).getD [] = utf8Encode (s.getD []) := by
    intro s
    cases s <;> rfl
  rw [JdbcColumn.described, ← hnullable, ← htext, ← htext]
  rfl

lemma fits_thinFields {col : JdbcColumn} (h : col.FitsThin) :
    ∀ field ∈ col.thinFields, field.Fits := by
  have hfits : ∀ text ∈ [some col.name, col.schema, col.typeName],
      (ResponseField.text (text.map utf8Encode)).Fits := by
    rintro text htext _ hbytes
    obtain ⟨s, hs, rfl⟩ := Option.mem_map.1 hbytes
    exact h text htext s hs
  simp only [List.forall_mem_cons, List.not_mem_nil, false_imp_iff, implies_true, and_true] at hfits
  obtain ⟨hname, hschema, htype⟩ := hfits
  simp only [JdbcColumn.thinFields, List.forall_mem_cons, List.not_mem_nil, false_imp_iff,
    implies_true, and_true]
  exact ⟨trivial, trivial, trivial, trivial, trivial, trivial, trivial, nofun, trivial, trivial,
    trivial, trivial, trivial, trivial, trivial, hname, hschema, htype, trivial, trivial⟩

/-- A client that is not jdbc-style finds the columns, if there are some and they fit. -/
lemma readThinDescribe_append {cols : List JdbcColumn} (hne : cols ≠ [])
    (hcount : cols.length < 2 ^ 32) (h : ∀ col ∈ cols, col.FitsThin) (rest : List UInt8) :
    readThinDescribe (response.writeAll (thinPrologue cols.length ++
      ((cols.map JdbcColumn.thinFields).flatten ++ thinTrailer)) ++ rest) =
        (.ok (cols.map fun col => some { col.described with maxLength := col.bufferSize }),
          rest) := by
  obtain ⟨n, hn⟩ : ∃ n, n = cols.length := ⟨_, rfl⟩
  have hzero : n ≠ 0 := fun h => hne (List.eq_nil_of_length_eq_zero (hn ▸ h))
  have hprologue : thinPrologue n = [.u8 0, .ub4 0, .ub4 (UInt32.ofNat n)] ++ [.u8 0] := rfl
  have hfirst : ∀ s, response.readAll [.plain .u8, .plain .ub4, .plain .ub4]
      (response.writeAll [.u8 0, .ub4 0, .ub4 (UInt32.ofNat n)] ++ s) =
        (.ok [.u8 0, .ub4 0, .ub4 (UInt32.ofNat n)], s) :=
    readAll_writeAll rfl (by simp [ResponseField.Fits, ResponseField.u8, ResponseField.ub4,
      DescribeField.Fits])
  have hnumber : numberAt [.u8 0, .ub4 0, .ub4 (UInt32.ofNat n)] 2 = n :=
    UInt32.toNat_ofNat_of_lt' (hn ▸ hcount)
  have hskip : ∀ s, skipByte n (response.writeAll [.u8 0] ++ s) = (.ok (), s) := by
    intro s
    have hread := skipByte_skipped n s
    rwa [skipped, if_neg hzero] at hread
  have hrecords : ∀ s, response.readRecords thinColumnKinds n
      (response.writeAll (cols.map JdbcColumn.thinFields).flatten ++ s) =
        (.ok (cols.map JdbcColumn.thinFields), s) := by
    intro s
    have hkinds : ∀ record ∈ cols.map JdbcColumn.thinFields,
        record.map response.kind = thinColumnKinds := by
      intro record hrecord
      obtain ⟨col, -, rfl⟩ := List.mem_map.1 hrecord
      rfl
    have hstep : response.InStep (cols.map JdbcColumn.thinFields).flatten s :=
      (FieldFormat.inStep_iff response_delivers_iff).2 fun field hfield => by
        obtain ⟨record, hrecord, hmem⟩ := List.mem_flatten.1 hfield
        obtain ⟨col, hcol, rfl⟩ := List.mem_map.1 hrecord
        exact fits_thinFields (h col hcol) field hmem
    have hread := FieldFormat.InStep.readRecords hkinds hstep
    rwa [List.length_map, ← hn] at hread
  have htrailer : ∀ s, response.readAll (List.replicate 6 (.plain .ub4))
      (response.writeAll thinTrailer ++ s) = (.ok thinTrailer, s) :=
    readAll_writeAll rfl (by simp [thinTrailer, ResponseField.Fits, ResponseField.ub4,
      DescribeField.Fits])
  have hfound : (cols.map JdbcColumn.thinFields).map thinColumnOf =
      cols.map fun col => some { col.described with maxLength := col.bufferSize } := by
    rw [List.map_map]
    exact List.map_congr_left fun col _ => thinColumnOf_fields col
  rw [← hn, hprologue]
  simp only [FieldFormat.writeAll_append, List.append_assoc]
  rw [readThinDescribe, Fallible.bind_of_ok (hfirst _), hnumber, Fallible.bind_of_ok (hskip _),
    Fallible.bind_of_ok (hrecords _), Fallible.bind_of_ok (htrailer _), hfound]
  rfl

/-! ### Clients -/

/-- The clients with compact numbers. -/
inductive ThinClient
  | lenient
  | strict
  | jdbc
  deriving DecidableEq

namespace ThinClient

/-- Whether the client wants the end of an answer to be marked. -/
def responseCompletion : ThinClient → Bool
  | lenient => false
  | _ => true

/-- Whether the client reads the descriptions of the jdbc-style ones. -/
def newerDescribeFraming : ThinClient → Bool
  | jdbc => true
  | _ => false

/-- The layout of the answer to a query, and of an error. -/
def queryLayout : ThinClient → Layout
  | lenient => .lenientQuery
  | strict => .strict
  | jdbc => .jdbc

/-- The layout of the answer to a fetch. -/
def fetchLayout : ThinClient → Layout
  | lenient => .lenientFetch
  | strict => .strict
  | jdbc => .jdbc

/-- The client reads the description of such a column. -/
def Takes (k : ThinClient) (col : JdbcColumn) : Prop :=
  match k with
  | jdbc => col.Fits
  | _ => col.FitsThin

/-- What the client should know of a column. -/
def described (k : ThinClient) (col : JdbcColumn) : DescribedColumn :=
  match k with
  | jdbc => col.described
  | _ => { col.described with maxLength := col.bufferSize }

/-- The answer to a fetch: `build_fetch_response`, or `build_fetch_response_jdbc`. -/
def fetchResponse (k : ThinClient) (rows : List Row) (cursorId : UInt16) (hasMore : Bool)
    (reqSeq : UInt8) : List UInt8 :=
  if k.newerDescribeFraming = true then buildFetchResponseJdbc rows cursorId hasMore reqSeq
  else buildFetchResponse rows hasMore k.responseCompletion

/-- The end behind the rows of the answer to a query. -/
def queryEnding (k : ThinClient) (hasMore : Bool) (reqSeq : UInt8) (cursorId : UInt16) : Ending :=
  if k = lenient then { Ending.ofRows hasMore reqSeq cursorId with code := 0, message := none }
  else .ofRows hasMore reqSeq cursorId

end ThinClient

/-- What has been negotiated with a client makes it one of these. -/
lemma WireProfile.exists_client (p : WireProfile) :
    ∃ k : ThinClient, p.wantsResponseCompletion = k.responseCompletion ∧
      p.newerDescribeFraming = k.newerDescribeFraming := by
  cases hnewer : p.newerDescribeFraming with
  | true => exact ⟨.jdbc, p.oci_completes (by rw [hnewer]; rfl), rfl⟩
  | false =>
    cases hcompletion : p.wantsResponseCompletion with
    | true => exact ⟨.strict, rfl, rfl⟩
    | false => exact ⟨.lenient, rfl, rfl⟩

/-- The description of a result. -/
structure ResultColumns (k : ThinClient) where
  cols : List JdbcColumn
  cols_ne : cols ≠ []
  count_lt : cols.length < 2 ^ 32
  takes : ∀ col ∈ cols, k.Takes col

namespace ThinClient

/-- The client finds the columns. -/
lemma readDescribe_append (k : ThinClient) (c : ResultColumns k) (rest : List UInt8) :
    k.queryLayout.readDescribe (k.queryLayout.writeDescribe c.cols ++ rest) =
      (.ok (c.cols.map fun col => some (k.described col)), rest) := by
  cases k with
  | jdbc =>
    have hfits := (FieldFormat.inStep_iff delivers_iff_fits).1
      ((inStep_describeFields_iff c.cols).2 c.takes)
    exact Wire.readDescribe_append c.count_lt ((FieldFormat.inStep_iff delivers_iff_fits).2 hfits)
  | lenient => exact readThinDescribe_append c.cols_ne c.count_lt c.takes rest
  | strict => exact readThinDescribe_append c.cols_ne c.count_lt c.takes rest

end ThinClient

lemma readFlags_append (complete : Bool) (rest : List UInt8) :
    readFlags (dataFlags complete ++ rest) = (.ok complete, rest) := by
  cases complete with
  | true =>
    have hflags : readU16Be ([0x20, 0] ++ rest) = (.ok 0x2000, rest) :=
      Fallible.bind_of_ok (readBytesVec_append [0x20, 0] rest)
    exact Fallible.bind_of_ok hflags
  | false =>
    have hflags : readU16Be ([0, 0] ++ rest) = (.ok 0, rest) :=
      Fallible.bind_of_ok (readBytesVec_append [0, 0] rest)
    exact Fallible.bind_of_ok hflags

lemma flatMap_write_row (l : Layout) (rows : List Row) :
    (rows.map ResponsePart.row).flatMap (ResponsePart.write l) = rows.flatMap writeRow := by
  rw [List.flatMap_map]
  rfl

lemma filterMap_row (rows : List Row) :
    (rows.map ResponsePart.row).filterMap ResponsePart.row? = rows := by
  rw [List.filterMap_map]
  exact List.filterMap_some

/-- The rows behind one header are parts. -/
lemma exists_parts_jdbc (rows : List Row) : ∃ parts : List ResponsePart,
    writeRowsJdbc rows = parts.flatMap (ResponsePart.write .jdbc) ∧
      parts.filterMap ResponsePart.row? = rows := by
  by_cases hnil : rows = []
  · exact ⟨[], by rw [writeRowsJdbc, if_pos hnil, hnil]; rfl, hnil.symm⟩
  · refine ⟨.header rows.length :: rows.map .row, ?_, ?_⟩
    · rw [writeRowsJdbc, if_neg hnil, List.flatMap_cons, flatMap_write_row]
      rfl
    · rw [List.filterMap_cons_none rfl, filterMap_row]

/-- Rows with a header each are parts. -/
lemma exists_parts_thin (l : Layout) (rows : List Row) : ∃ parts : List ResponsePart,
    (rows.flatMap fun row => l.writeHeader 0 ++ writeRow row) =
      parts.flatMap (ResponsePart.write l) ∧ parts.filterMap ResponsePart.row? = rows := by
  induction rows with
  | nil => exact ⟨[], rfl, rfl⟩
  | cons row rows ih =>
    obtain ⟨parts, hparts, hrows⟩ := ih
    refine ⟨.header 0 :: .row row :: parts, ?_, ?_⟩
    · rw [List.flatMap_cons, hparts, List.flatMap_cons, List.flatMap_cons, List.append_assoc]
      rfl
    · rw [List.filterMap_cons_none rfl, ← hrows]
      rfl

lemma length_padRow (n : ℕ) (row : Row) : (padRow n row).length = n := by
  rw [padRow, List.length_map, List.length_range]

/-- A place that is not too far behind has its sign in its own bytes. -/
lemma signKept_of_lt {errorPos : UInt16} (h : errorPos < 65409) : SignKept errorPos.toInt16 := by
  have hlt : errorPos.toNat < 65409 := h
  have hsmall : errorPos.toNat < 65536 := errorPos.toNat_lt
  have hint : errorPos.toInt16.toInt = (errorPos.toNat : ℤ).bmod (2 ^ 16) :=
    errorPos.toBitVec.toInt_eq_toNat_bmod
  rintro ⟨hlower, hupper⟩
  have hlow : -127 ≤ errorPos.toInt16.toInt := Int16.le_iff_toInt_le.1 hlower
  have hneg : errorPos.toInt16.toInt < 0 := Int16.lt_iff_toInt_lt.1 hupper
  rw [hint, Int.bmod] at hlow hneg
  split_ifs at hlow hneg <;> omega

/-- No place has no sign. -/
lemma signKept_zero : SignKept (0 : UInt16).toInt16 := signKept_of_lt (by decide)

namespace ThinClient

variable (k : ThinClient)

/-- The rows of the answer to a query are parts. -/
lemma buildQueryResponseEx_eq (c : ResultColumns k) (rows : List Row) (cursorId : UInt16)
    (hasMore : Bool) (reqSeq : UInt8) : ∃ parts : List ResponsePart,
    buildQueryResponseEx c.cols rows cursorId hasMore k.responseCompletion
        k.newerDescribeFraming reqSeq =
      dataFlags (decide (k = strict) && !hasMore) ++ (0x10 :: (k.queryLayout.writeDescribe c.cols ++
        (parts.flatMap (ResponsePart.write k.queryLayout) ++
          k.queryLayout.writeEnd (k.queryEnding hasMore reqSeq cursorId)))) ∧
      parts.filterMap ResponsePart.row? = rows.map (padRow c.cols.length) := by
  cases k with
  | jdbc =>
    obtain ⟨parts, hparts, hrows⟩ := exists_parts_jdbc (rows.map (padRow c.cols.length))
    have hlayout : jdbc.queryLayout = .jdbc := rfl
    refine ⟨parts, ?_, hrows⟩
    rw [hlayout, ← hparts]
    rfl
  | lenient =>
    refine ⟨(rows.map (padRow c.cols.length)).map .row, ?_, filterMap_row _⟩
    rw [flatMap_write_row]
    rfl
  | strict =>
    refine ⟨(rows.map (padRow c.cols.length)).map .row, ?_, filterMap_row _⟩
    rw [flatMap_write_row]
    rfl

/-- **The client finds the columns and the rows of a query, and its end**, and nothing is left. -/
theorem query_decodable (c : ResultColumns k) (rows : List Row) (cursorId : UInt16)
    (hasMore : Bool) (reqSeq : UInt8) :
    k.queryLayout.readQueryAnswer (buildQueryResponseEx c.cols rows cursorId hasMore
        k.responseCompletion k.newerDescribeFraming reqSeq) =
      (.ok ⟨decide (k = strict) && !hasMore, c.cols.map fun col => some (k.described col),
        rows.map (padRow c.cols.length),
        k.queryLayout.ending (k.queryEnding hasMore reqSeq cursorId)⟩, []) := by
  obtain ⟨parts, hbytes, hrows⟩ := k.buildQueryResponseEx_eq c rows cursorId hasMore reqSeq
  have hpos : SignKept (k.queryEnding hasMore reqSeq cursorId).errorPos.toInt16 := by
    rw [queryEnding]
    split_ifs <;> exact signKept_zero
  have hwidth : ∀ row ∈ parts.filterMap ResponsePart.row?, row.length = c.cols.length := by
    rw [hrows]
    intro row hrow
    obtain ⟨r, -, rfl⟩ := List.mem_map.1 hrow
    exact length_padRow _ r
  have hfound := readRows_append k.queryLayout (k.queryEnding hasMore reqSeq cursorId) [] hwidth
    hpos
  rw [List.append_nil] at hfound
  have hcount : (c.cols.map fun col => some (k.described col)).length = c.cols.length :=
    List.length_map _
  rw [hbytes, Layout.readQueryAnswer, Fallible.bind_of_ok (readFlags_append _ _),
    Fallible.bind_of_ok (readU8_cons _ _)]
  refine (Fallible.bind_of_ok (k.readDescribe_append c _)).trans ?_
  rw [hcount, Fallible.bind_of_ok hfound, hrows]
  rfl

/-- The rows of the answer to a fetch are parts. -/
lemma fetchResponse_eq (rows : List Row) (cursorId : UInt16) (hasMore : Bool) (reqSeq : UInt8) :
    ∃ (parts : List ResponsePart) (e : Ending), k.fetchResponse rows cursorId hasMore reqSeq =
      dataFlags (decide (k = strict) && !hasMore) ++
        (parts.flatMap (ResponsePart.write k.fetchLayout) ++ k.fetchLayout.writeEnd e) ∧
      parts.filterMap ResponsePart.row? = rows ∧ e.errorPos = 0 ∧
      k.fetchLayout.ending e = k.fetchLayout.ending (.ofRows hasMore reqSeq cursorId) := by
  cases k with
  | jdbc =>
    obtain ⟨parts, hparts, hrows⟩ := exists_parts_jdbc rows
    refine ⟨parts, .ofRows hasMore reqSeq cursorId, ?_, hrows, rfl, rfl⟩
    have hlayout : jdbc.fetchLayout = .jdbc := rfl
    rw [hlayout, ← hparts]
    rfl
  | lenient =>
    obtain ⟨parts, hparts, hrows⟩ := exists_parts_thin .lenientFetch rows
    refine ⟨parts, .ofRows hasMore 0 0, ?_, hrows, rfl, rfl⟩
    have hlayout : lenient.fetchLayout = .lenientFetch := rfl
    rw [hlayout, ← hparts]
    rfl
  | strict =>
    obtain ⟨parts, hparts, hrows⟩ := exists_parts_thin .strict rows
    refine ⟨parts, .ofRows hasMore 0 0, ?_, hrows, rfl, rfl⟩
    have hlayout : strict.fetchLayout = .strict := rfl
    rw [hlayout, ← hparts]
    rfl

/-- **The client finds the rows of a fetch, and its end**, and nothing is left. -/
theorem fetch_decodable {n : ℕ} {rows : List Row} (hwidth : ∀ row ∈ rows, row.length = n)
    (cursorId : UInt16) (hasMore : Bool) (reqSeq : UInt8) :
    k.fetchLayout.readAnswer n (k.fetchResponse rows cursorId hasMore reqSeq) =
      (.ok ⟨decide (k = strict) && !hasMore, [], rows,
        k.fetchLayout.ending (.ofRows hasMore reqSeq cursorId)⟩, []) := by
  obtain ⟨parts, e, hbytes, hrows, hpos, hending⟩ := k.fetchResponse_eq rows cursorId hasMore reqSeq
  have hkept : SignKept e.errorPos.toInt16 := by
    rw [hpos]
    exact signKept_zero
  have hfound := readRows_append k.fetchLayout e [] (hrows.symm ▸ hwidth) hkept
  rw [List.append_nil] at hfound
  rw [hbytes, Layout.readAnswer, Fallible.bind_of_ok (readFlags_append _ _),
    Fallible.bind_of_ok hfound, hrows, hending]
  rfl

/-- **The client finds the number, the text and the place of an error**, if the place is not too far
behind. -/
theorem error_decodable (code : UInt32) (message : List Char) {errorPos : UInt16}
    (hpos : errorPos < 65409) :
    k.queryLayout.readAnswer 0 (buildErrorResponseAt k.responseCompletion k.newerDescribeFraming
        code message errorPos) =
      (.ok ⟨decide (k = strict), [], [], code.toNat,
        if code ≠ 0 then some (utf8Encode message) else none, 0, false, errorPos.toNat, 0⟩,
        []) := by
  obtain ⟨e, he⟩ : ∃ e : Ending, e = ⟨code, some message, 0, false, errorPos, 0, 0⟩ := ⟨_, rfl⟩
  have hbytes : buildErrorResponseAt k.responseCompletion k.newerDescribeFraming code message
      errorPos = dataFlags (decide (k = strict)) ++ k.queryLayout.writeEnd e := by
    rw [he]
    cases k <;> rfl
  have hkept : SignKept e.errorPos.toInt16 := by
    rw [he]
    exact signKept_of_lt hpos
  have hnone : ∀ row ∈ ([] : List ResponsePart).filterMap ResponsePart.row?, row.length = 0 := nofun
  have hfound := readRows_append k.queryLayout e [] hnone hkept
  rw [List.flatMap_nil, List.nil_append, List.append_nil] at hfound
  rw [hbytes, Layout.readAnswer, Fallible.bind_of_ok (readFlags_append _ _),
    Fallible.bind_of_ok hfound, he]
  rfl

/-- A table that is not there, found at the fourteenth character. -/
theorem noSuchTable_decodable : strict.queryLayout.readAnswer 0 (buildErrorResponseAt true false 942
      "ORA-00942: table or view does not exist".toList 14) =
    (.ok ⟨true, [], [], 942, some (utf8Encode "ORA-00942: table or view does not exist".toList), 0,
      false, 14, 0⟩, []) :=
  strict.error_decodable 942 "ORA-00942: table or view does not exist".toList (by decide)

end ThinClient

end DbSaci.Wire
