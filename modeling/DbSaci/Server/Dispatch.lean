import DbSaci.Server.Prepared

set_option relaxedAutoImplicit false
set_option autoImplicit false

/-!
# Dispatch of a DATA packet

The session loop looks for the function in a DATA packet, behind the deferred operations that may
come before it, and answers it. What the parsers, the translation and the backend return is given.

## Main definitions

* `FunctionCode`, `FunctionCode.dispatch` — the function codes and how they are treated.
* `stripPiggyback` — the search for the function behind the deferred operations.
* `handleData` — what the session loop writes for a DATA packet.
-/

namespace DbSaci.Server

/-! ### Function codes -/

/-- The function codes of the protocol. -/
inductive FunctionCode
  | reexecute
  | fetch
  | logoff
  | commit
  | rollback
  | oversion
  | reexecuteAndFetch
  | execute
  | closeCursors
  | authPhaseTwo
  | authPhaseOne
  | setEndToEnd
  | ping
  | setSchema
  | other (code : UInt8)
  deriving DecidableEq, Repr

/-- How the session loop treats a function. -/
inductive Dispatch
  | execute
  | fetch
  | logoff
  | transaction
  | oversion
  | noOp
  | unimplemented (ora : ℕ) (detail : String)
  deriving DecidableEq, Repr

namespace FunctionCode

/-- `from_u8`. -/
def fromU8 (code : UInt8) : FunctionCode :=
  if code = 0x04 then reexecute
  else if code = 0x05 then fetch
  else if code = 0x09 then logoff
  else if code = 0x0e then commit
  else if code = 0x0f then rollback
  else if code = 0x3b then oversion
  else if code = 0x4e then reexecuteAndFetch
  else if code = 0x5e then execute
  else if code = 0x69 then closeCursors
  else if code = 0x73 then authPhaseTwo
  else if code = 0x76 then authPhaseOne
  else if code = 0x87 then setEndToEnd
  else if code = 0x93 then ping
  else if code = 0x98 then setSchema
  else other code

/-- `unimplemented_detail`. -/
def unimplementedDetail (code : UInt8) : String :=
  if code ∈ [0x60, 0x61, 0x62, 0x63, 0x64, 0x65, 0x66, 0x67, 0x68, 0x6a, 0x6b, 0x6c] then
    "LOB locators are not implemented"
  else if code ∈ [0x2b, 0x2f, 0x47] then "SYS_REFCURSOR / nested cursor is not implemented"
  else "feature not implemented"

/-- How the session loop should treat a function after the handshake. -/
def dispatch : FunctionCode → Dispatch
  | execute | reexecute | reexecuteAndFetch => .execute
  | fetch => .fetch
  | logoff => .logoff
  | commit | rollback => .transaction
  | oversion => .oversion
  | ping | closeCursors | setEndToEnd | setSchema => .noOp
  | authPhaseOne | authPhaseTwo =>
    .unimplemented 1017 "authentication function after session is established"
  | other code => .unimplemented 3001 (unimplementedDetail code)

end FunctionCode

/-! ### Deferred operations -/

/-- The functions that are looked for behind a deferred operation. -/
def knownFuncs : List UInt8 :=
  [0x03, 0x04, 0x05, 0x09, 0x0e, 0x0f, 0x2f, 0x3b, 0x47, 0x4e, 0x5e, 0x67, 0x69]

/-- The loops of `strip_piggyback`: a deferred operation starts with three bytes that are left out,
and between them every byte is passed that starts no known function. So many bytes are left out
first. -/
def stripFrom : ℕ → List UInt8 → Option (List UInt8)
  | _, [] => none
  | skip + 1, _ :: s => stripFrom skip s
  | 0, [_] => none
  | 0, b :: f :: s =>
    if b = 0x11 then stripFrom 2 (f :: s)
    else if b = 0x03 ∧ f ∈ knownFuncs then some (b :: f :: s)
    else stripFrom 0 (f :: s)

/-- `strip_piggyback`: the message of the function behind the deferred operations. -/
def stripPiggyback (payload : List UInt8) : Option (List UInt8) := stripFrom 0 (payload.drop 2)

/-! ### Answers -/

/-- What the session loop writes. -/
inductive Response
  | query
  | returning
  | dml
  | ddl
  | reexecute
  | fetch
  | logoff
  | txn
  | oversion
  | error (ora : ℕ) (detail : String)
  deriving DecidableEq, Repr

/-- What is written for a packet, and whether the session is closed. -/
structure Reply where
  responses : List Response
  closed : Bool
  deriving DecidableEq, Repr

/-- An error of the backend, as an Oracle error. -/
abbrev BackendError := ℕ × String

/-- What the calls return that are made for an Execute. -/
structure ExecuteCalls where
  parsed : Except String Unit
  hasNoSql : Bool
  returningInto : Bool
  rejected : Option (ℕ × String)
  bound : Except String Unit
  translated : Except String Unit
  isQuery : Bool
  isDdl : Bool
  /-- The results of the rows, if it is a batch. -/
  batch : Option (List (Except BackendError Unit))
  opened : Except BackendError Unit
  firstBatch : Except BackendError Unit
  executed : Except BackendError Unit

/-- What the calls return that are made for a packet. -/
structure Calls where
  execute : UInt8 → ExecuteCalls
  /-- The cursor that is named, if it is open, with the result of its next batch. -/
  fetched : Option (Except BackendError Unit)
  transaction : Except BackendError Unit

/-- A client, by what the handshake found. -/
structure Client where
  dialect : Dialect
  responseCompletion : Bool
  deriving DecidableEq, Repr

/-- A response for a result, or an error. -/
def respond (ok : Response) : Except BackendError Unit → Response
  | .ok _ => ok
  | .error e => .error e.1 e.2

/-- The first row of a batch that fails. -/
def batchResult : List (Except BackendError Unit) → Except BackendError Unit
  | [] => .ok ()
  | .ok _ :: rest => batchResult rest
  | .error e :: _ => .error e

/-- The response to a DML or DDL statement. -/
def statementResponse (c : Client) (func : UInt8) (calls : ExecuteCalls) : Response :=
  if c.dialect = .oci ∧ func = 0x04 then .reexecute
  else if c.dialect = .oci ∧ calls.isDdl = true then .ddl
  else .dml

/-- An Execute, or a re-execute. -/
def handleExecute (c : Client) (func : UInt8) (calls : ExecuteCalls) : List Response :=
  match calls.parsed with
  | .error e =>
    if func = 0x5e ∧ calls.hasNoSql = true then [.error 1003 "ORA-01003: no statement parsed"]
    else [.error 1008 e]
  | .ok _ =>
    if calls.returningInto = true then
      if ¬ (c.responseCompletion = true ∧ c.dialect = .thin) then
        [.error 3001 "RETURNING ... INTO bind is not supported for this driver"]
      else
        match calls.bound, calls.translated with
        | .error e, _ => [.error 1008 e]
        | .ok _, .error e => [.error 900 e]
        | .ok _, .ok _ => [respond .returning calls.executed]
    else
      match calls.rejected, calls.bound, calls.translated with
      | some (ora, detail), _, _ => [.error ora detail]
      | none, .error e, _ => [.error 1008 e]
      | none, .ok _, .error e => [.error 900 e]
      | none, .ok _, .ok _ =>
        match calls.isQuery, calls.batch with
        | false, some rows =>
          [respond (if c.dialect = .oci ∧ calls.isDdl = true then .ddl else .dml)
            (batchResult rows)]
        | false, none => [respond (statementResponse c func calls) calls.executed]
        | true, _ =>
          match calls.opened with
          | .ok _ => [respond .query calls.firstBatch]
          | .error e => [.error e.1 e.2]

/-- The function of a message, in a packet that is framed. -/
def handleMessage (c : Client) (calls : Calls) : List UInt8 → Reply
  | _ :: _ :: msgType :: func :: _ =>
    if msgType = 0x03 ∧ func ∈ [0x5e, 0x4e, 0x04] then
      ⟨handleExecute c func (calls.execute func), false⟩
    else if msgType = 0x03 ∧ func = 0x05 then
      ⟨[match calls.fetched with
        | some result => respond .fetch result
        | none => .fetch], false⟩
    else if msgType = 0x03 ∧ func = 0x09 then
      ⟨match c.dialect with
        | .oci => [.logoff]
        | .jdbc => [.dml]
        | .thin => [], true⟩
    else if msgType = 0x03 ∧ func ∈ [0x0e, 0x0f] then
      ⟨[respond (if c.dialect = .oci then .txn else .dml) calls.transaction], false⟩
    else if msgType = 0x03 ∧ func = 0x3b then ⟨[.oversion], false⟩
    else if msgType = 0x03 then
      match (FunctionCode.fromU8 func).dispatch with
      | .noOp => ⟨[.dml], false⟩
      | .unimplemented ora detail => ⟨[.error ora detail], false⟩
      | .execute | .fetch | .logoff | .transaction | .oversion =>
        ⟨[.error 3001 "feature not implemented"], false⟩
    else ⟨[], false⟩
  | _ => ⟨[], false⟩

/-- What the session loop does with the payload of a DATA packet. -/
def handleData (c : Client) (calls : Calls) (payload : List UInt8) : Reply :=
  if payload.length < 4 then ⟨[], false⟩
  else if payload[2]? = some 0x11 then
    match stripPiggyback payload with
    | some inner => handleMessage c calls (0 :: 0 :: inner)
    | none => handleMessage c calls payload
  else handleMessage c calls payload

end DbSaci.Server
