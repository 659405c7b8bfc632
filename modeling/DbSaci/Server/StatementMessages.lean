import DbSaci.Server.ResultStream
import DbSaci.Wire.ExecuteMessage

set_option relaxedAutoImplicit false
set_option autoImplicit false

/-!
# Statements that are executed and executed again

The session of a client that is not an OCI one parses an Execute, and remembers its text and the
types of its binds. A message without a text runs what is remembered, with values of its own. Here
the messages are bytes, and the requests are those that are executed.

## Main definitions

* `executeFrameHasNoSql`, `parseExecuteCursorId` — what else is read of an Execute.
* `requestOf` — the request a message is executed as.
* `frameOf` — a message as the maps of the session see it.
* `serveStatements` — the requests of some messages.

## Main results

* `prepared_requestOf` — the maps resolve a message to the statement that is executed.
* `statement_reexecuted` — a statement is executed again and again with other values.
-/

namespace DbSaci.Server

open Wire (ThinClient Read ReadError ReadBuffer ExecuteRequest ExecuteMessage ReexecuteMessage
  BindValue RowsOf readU8 readU16Be readUb4 parseExecuteRequest parseReexecuteRequest decodeRow)
open Fallible (ret)

/-! ### Messages -/

/-- `execute_frame_has_no_sql`: there is no pointer to a text or no length of it, or there are too
few bytes for one. -/
def executeFrameHasNoSql (payload : List UInt8) : Bool :=
  let header : Read (UInt8 × ℕ) := do
    let _ ← readU16Be -- flags
    let _ ← readU8 -- message type
    let _ ← readU8 -- function
    let _ ← readU8 -- sequence number
    let _ ← readUb4 -- exec options
    let _ ← readUb4 -- cursor id
    let sqlPtr ← readU8
    let sqlLen ← readUb4
    ret (sqlPtr, sqlLen)
  match (header payload).1 with
  | .ok (sqlPtr, sqlLen) => decide (sqlPtr = 0 ∨ sqlLen = 0 ∨ payload.length < sqlLen)
  | .error _ => true

/-- `parse_execute_cursor_id`: a cursor id, of which 16 bits are left, if they are not zero. -/
def parseExecuteCursorId (payload : List UInt8) : Option ℕ :=
  let header : Read ℕ := do
    let _ ← readU16Be
    let _ ← readU8
    let _ ← readU8
    let _ ← readU8
    let _ ← readUb4
    readUb4
  match (header payload).1 with
  | .ok id => if id % 65536 = 0 then none else some (id % 65536)
  | .error _ => none

/-- The function of a message that runs a statement. -/
def functionOf (payload : List UInt8) : Option ExecuteFunction :=
  match (payload[3]? : Option UInt8) with
  | some 0x5e => some .execute
  | some 0x04 => some .reexecute
  | some 0x4e => some .reexecuteAndFetch
  | _ => none

/-- A message with the text and the types of a statement, if there is one. -/
def rerun (p : Option Prepared) (payload : List UInt8)
    (otherwise : Except ReadError ExecuteRequest) : Except ReadError ExecuteRequest :=
  match p with
  | some p => (parseReexecuteRequest p.1.toList p.2 (.fromSlice payload)).1
  | none => otherwise

/-- The request a message is executed as, for a client that is not an OCI one. -/
def requestOf (m : CursorMaps) (func : ExecuteFunction) (payload : List UInt8) :
    Except ReadError ExecuteRequest :=
  match func with
  | .execute =>
    let parsed := (parseExecuteRequest payload).1
    let hint := ((parseExecuteCursorId payload).bind m.ociIdToSql).or m.lastExecute
    match parsed with
    | .ok request =>
      if request.sql ≠ [] then parsed
      else if executeFrameHasNoSql payload = true then rerun hint payload parsed else parsed
    | .error _ => if executeFrameHasNoSql payload = true then rerun hint payload parsed else parsed
  | .reexecute | .reexecuteAndFetch =>
    rerun m.lastExecute payload (.error (.protocol "reexecute with no prepared statement"))

/-! ### The maps of the session -/

/-- What an error says, without its kind. -/
def errorText : ReadError → String
  | .bufferUnderflow needed available =>
    "needed " ++ toString needed ++ ", available " ++ toString available
  | .invalidLengthIndicator n => toString n.toNat
  | .protocol text => text
  | .dataConversion text => text

/-- The text and the types of a request. -/
def prepared (request : Except ReadError ExecuteRequest) : Except String Prepared :=
  match request with
  | .ok request => .ok (String.ofList request.sql, request.bindTypes)
  | .error e => .error (errorText e)

/-- A message as the maps of the session see it. -/
def frameOf (func : ExecuteFunction) (payload : List UInt8) : Frame where
  func := func
  seq := (payload[4]?).getD 0
  parsed := prepared (parseExecuteRequest payload).1
  hasNoSql := executeFrameHasNoSql payload
  named := parseExecuteCursorId payload
  rebind p :=
    (prepared (parseReexecuteRequest p.1.toList p.2 (.fromSlice payload)).1).map Prod.snd

/-- A message that runs a statement: the maps afterwards, and the request. -/
def serveStatement (k : ThinClient) (m : CursorMaps) (payload : List UInt8) :
    CursorMaps × Option (Except ReadError ExecuteRequest) :=
  match functionOf payload with
  | some func => ((m.step (dialectOf k) (frameOf func payload)).1, some (requestOf m func payload))
  | none => (m, none)

/-- The requests of some messages. -/
def serveStatements (k : ThinClient) :
    CursorMaps → List (List UInt8) → List (Option (Except ReadError ExecuteRequest))
  | _, [] => []
  | m, payload :: payloads =>
    (serveStatement k m payload).2 :: serveStatements k (serveStatement k m payload).1 payloads

section Maps

variable {k : ThinClient} {m : CursorMaps} {payload : List UInt8}

/-- A request that executes a statement again has its text. -/
lemma parseReexecuteRequest_sql {sql : List Char} {types : List UInt8} {buf : ReadBuffer}
    {r : ExecuteRequest} (h : (parseReexecuteRequest sql types buf).1 = .ok r) : r.sql = sql := by
  have hensures : Fallible.Ensures (fun _ => True) (fun r : ExecuteRequest => r.sql = sql)
      (parseReexecuteRequest sql types) := by
    have hany : ∀ {α : Type} (p : Wire.Parse α), Fallible.Keeps (fun _ => True) p :=
      fun p s _ => ⟨trivial, fun _ _ => trivial⟩
    refine (hany _).bind fun prefetch _ => (hany _).bind fun _ _ => ?_
    split_ifs
    · exact .pure rfl
    · refine (hany _).bind fun found _ => ?_
      split_ifs
      · exact (hany _).bind fun binds _ => .pure rfl
      · exact .fail _
  exact (hensures buf trivial).2 r h

/-- What is remembered is executed again. -/
lemma prepared_rerun (func : ExecuteFunction) (p : Prepared)
    (otherwise : Except ReadError ExecuteRequest) :
    prepared (rerun (some p) payload otherwise) = (frameOf func payload).reexecuteRequest p := by
  rw [rerun, Frame.reexecuteRequest, frameOf]
  dsimp only
  cases hparse : (parseReexecuteRequest p.1.toList p.2 (.fromSlice payload)).1 with
  | error e => rfl
  | ok r =>
    rw [prepared, parseReexecuteRequest_sql hparse, String.ofList_toList]
    rfl

/-- A text is empty if and only if it has no characters. -/
lemma ofList_eq_empty (s : List Char) : String.ofList s = "" ↔ s = [] := by
  rw [← String.toList_inj, String.toList_ofList]
  rfl

/-- What an Execute runs, for a client that is not an OCI one. -/
lemma resolve_execute {d : Dialect} (hd : d ≠ .oci) {f : Frame} (hf : f.func = .execute) :
    m.resolve d f =
      match f.text with
      | some _ => f.parsed
      | none =>
        if f.hasNoSql = true then
          match (f.named.bind m.ociIdToSql).or m.lastExecute with
          | some p => f.reexecuteRequest p
          | none => f.parsed
        else f.parsed := by
  rw [CursorMaps.resolve, hf]
  dsimp only
  rw [if_neg hd]
  cases hparsed : f.parsed with
  | error e =>
    have htext : f.text = none := by rw [Frame.text, hf, hparsed]
    generalize f.text = text at htext
    subst htext
    rfl
  | ok p =>
    by_cases hsql : p.1 = ""
    · have htext : f.text = none := by
        rw [Frame.text, hf, hparsed]
        exact if_pos hsql
      rw [htext]
      exact if_neg (not_not.2 hsql)
    · have htext : f.text = some p.1 := by
        rw [Frame.text, hf, hparsed]
        exact if_neg hsql
      rw [htext]
      exact if_pos hsql

/-- **The maps resolve a message to the statement that is executed**: the text and the types of the
request are those the maps give, and so are the errors. -/
theorem prepared_requestOf (k : ThinClient) (m : CursorMaps) (func : ExecuteFunction)
    (payload : List UInt8) :
    prepared (requestOf m func payload) = (m.step (dialectOf k) (frameOf func payload)).2 := by
  have hstep : (m.step (dialectOf k) (frameOf func payload)).2 =
      m.resolve (dialectOf k) (frameOf func payload) := by
    rw [CursorMaps.step]
    cases m.resolve (dialectOf k) (frameOf func payload) <;> rfl
  have hoci : dialectOf k ≠ .oci := by cases k <;> decide
  have hrerun : ∀ (hint : Option Prepared) (otherwise : Except ReadError ExecuteRequest),
      prepared (rerun hint payload otherwise) = match hint with
        | some p => (frameOf func payload).reexecuteRequest p
        | none => prepared otherwise := by
    intro hint otherwise
    cases hint with
    | none => rfl
    | some p => exact prepared_rerun func p otherwise
  rw [hstep]
  cases func with
  | reexecute =>
    rw [requestOf, hrerun, CursorMaps.resolve]
    dsimp only [frameOf]
    rw [if_neg hoci]
    cases m.lastExecute <;> rfl
  | reexecuteAndFetch =>
    rw [requestOf, hrerun, CursorMaps.resolve]
    dsimp only [frameOf]
    rw [if_neg hoci]
    cases m.lastExecute <;> rfl
  | execute =>
    rw [resolve_execute hoci rfl, requestOf]
    cases hparse : (parseExecuteRequest payload).1 with
    | error e =>
      have hparsed : (frameOf .execute payload).parsed = prepared (.error e) := by
        rw [← hparse]
        rfl
      have htext : (frameOf .execute payload).text = none := by
        rw [Frame.text, hparsed]
        rfl
      rw [htext, hparsed]
      by_cases hno : executeFrameHasNoSql payload = true
      · exact (congrArg prepared (if_pos hno)).trans ((hrerun _ _).trans (if_pos hno).symm)
      · exact (congrArg prepared (if_neg hno)).trans (if_neg hno).symm
    | ok r =>
      have hparsed : (frameOf .execute payload).parsed = prepared (.ok r) := by
        rw [← hparse]
        rfl
      by_cases hsql : r.sql = []
      · have htext : (frameOf .execute payload).text = none := by
          rw [Frame.text, hparsed]
          exact if_pos ((ofList_eq_empty _).2 hsql)
        rw [htext, hparsed]
        dsimp only
        rw [if_neg (not_not.2 hsql)]
        by_cases hno : executeFrameHasNoSql payload = true
        · exact (congrArg prepared (if_pos hno)).trans ((hrerun _ _).trans (if_pos hno).symm)
        · exact (congrArg prepared (if_neg hno)).trans (if_neg hno).symm
      · have htext : (frameOf .execute payload).text = some (String.ofList r.sql) := by
          rw [Frame.text, hparsed]
          exact if_neg (mt (ofList_eq_empty _).1 hsql)
        rw [htext, hparsed]
        exact congrArg prepared (if_pos hsql)

/-! ### A statement that is executed again and again -/

/-- An Execute with a text is executed as it is, and remembered. -/
lemma serveStatement_execute (k : ThinClient) (m : CursorMaps) (e : ExecuteMessage)
    {values : List (List BindValue)} (h : RowsOf e.types e.rows values) :
    (serveStatement k m e.bytes).2 = some (.ok (e.request values)) ∧
      (serveStatement k m e.bytes).1.lastExecute = some (String.ofList e.sql, e.types) := by
  have hfunc : functionOf e.bytes = some .execute := rfl
  have hparse := Wire.execute_parsed e h
  have hsql : (e.request values).sql ≠ [] := by
    intro hnil
    have hempty : e.sql = [] := hnil
    have hpos := e.sql_length.1
    rw [hempty] at hpos
    exact Nat.lt_irrefl 0 hpos
  have hrequest : requestOf m .execute e.bytes = .ok (e.request values) := by
    rw [requestOf, hparse]
    exact if_pos hsql
  have hresolve : m.resolve (dialectOf k) (frameOf .execute e.bytes) =
      .ok (String.ofList e.sql, e.types) := by
    have hstep := prepared_requestOf k m .execute e.bytes
    rw [hrequest, CursorMaps.step] at hstep
    cases hm : m.resolve (dialectOf k) (frameOf .execute e.bytes) with
    | error text => rw [hm] at hstep; cases hstep
    | ok p => rw [hm] at hstep; exact hstep.symm
  have htext : String.ofList e.sql ≠ "" := mt (ofList_eq_empty _).1 hsql
  rw [serveStatement, hfunc]
  refine ⟨congrArg some hrequest, ?_⟩
  dsimp only
  rw [CursorMaps.step, hresolve]
  show (m.record (dialectOf k) (frameOf .execute e.bytes)
    (String.ofList e.sql, e.types)).lastExecute = _
  have hrecord : m.record (dialectOf k) (frameOf .execute e.bytes)
      (String.ofList e.sql, e.types) =
    (m.reuse (dialectOf k) (frameOf .execute e.bytes) (String.ofList e.sql, e.types)).register
      (dialectOf k) (frameOf .execute e.bytes).seq (String.ofList e.sql, e.types) :=
    if_pos ⟨rfl, htext⟩
  rw [hrecord, CursorMaps.register]
  split_ifs
  · rfl
  · rw [CursorMaps.entry]
    dsimp only
    split <;> rfl

/-- A message that executes a statement again, as one of the two functions for it. -/
structure AgainMessage (types : List UInt8) extends ReexecuteMessage types where
  values : List BindValue
  function_eq : function = 0x04 ∨ function = 0x4e
  decoded : decodeRow types raws = .ok values

/-- What a message that executes a statement again is executed as. -/
def AgainMessage.request {types : List UInt8} (sql : List Char) (a : AgainMessage types) :
    ExecuteRequest :=
  ⟨sql, a.values, types, a.prefetch.toNat, 1, []⟩

/-- What is remembered is executed with the new values, and is remembered further on. -/
lemma serveStatement_again (k : ThinClient) {m : CursorMaps} {sql : List Char} {types : List UInt8}
    (hm : m.lastExecute = some (String.ofList sql, types)) (a : AgainMessage types) :
    (serveStatement k m a.bytes).2 = some (.ok (a.request sql)) ∧
      (serveStatement k m a.bytes).1.lastExecute = some (String.ofList sql, types) := by
  obtain ⟨func, hfunc, hne⟩ : ∃ func, functionOf a.bytes = some func ∧ func ≠ .execute := by
    have hbyte : functionOf a.bytes = match (some a.function : Option UInt8) with
      | some 0x5e => some .execute
      | some 0x04 => some .reexecute
      | some 0x4e => some .reexecuteAndFetch
      | _ => none := rfl
    rcases a.function_eq with h | h
    · exact ⟨.reexecute, by rw [hbyte, h]; rfl, by decide⟩
    · exact ⟨.reexecuteAndFetch, by rw [hbyte, h]; rfl, by decide⟩
  have hrequest : requestOf m func a.bytes = .ok (a.request sql) := by
    have hparse := Wire.reexecute_parsed sql a.toReexecuteMessage a.decoded
    have hrerun : requestOf m func a.bytes = rerun m.lastExecute a.bytes
        (.error (.protocol "reexecute with no prepared statement")) := by
      cases func with
      | execute => exact absurd rfl hne
      | reexecute => rfl
      | reexecuteAndFetch => rfl
    rw [hrerun, hm, rerun, String.toList_ofList]
    exact hparse
  rw [serveStatement, hfunc]
  refine ⟨congrArg some hrequest, ?_⟩
  dsimp only
  rw [CursorMaps.step]
  cases m.resolve (dialectOf k) (frameOf func a.bytes) with
  | error e => exact hm
  | ok p =>
    have hrecord : m.record (dialectOf k) (frameOf func a.bytes) p =
        m.reuse (dialectOf k) (frameOf func a.bytes) p := if_neg fun h => hne h.1
    show (m.record (dialectOf k) (frameOf func a.bytes) p).lastExecute = _
    rw [hrecord, CursorMaps.reuse]
    split_ifs
    · split <;> exact hm
    · exact hm

/-- A batch of two rows of raw bytes, the second of them without a value. -/
def twoRowBatch : ExecuteMessage where
  flag := 0
  flag' := 0
  seq := 3
  number _ := 0
  byte _ := 1
  sqlPtr := 1
  sql := "INSERT INTO t VALUES (:1)".toList
  prefetch := 1
  bindsPtr := 1
  numBinds := 1
  numIters := 2
  descriptors := [⟨23, 1, 0, 0, 2000, 0, 0, none, 0, 0, 0, 0, 0, nofun⟩]
  rows := [[some [222, 173]], [none]]
  surplus := [9]
  sqlPtr_ne := by decide
  sql_length := by decide
  descriptors_le := by decide
  types_ne := by decide
  bindsPtr_ne _ := by decide
  numBinds_ne _ := by decide
  width := List.forall_mem_cons.2 ⟨rfl, List.forall_mem_singleton.2 rfl⟩
  rows_length _ := rfl
  surplus_nil := nofun

end Maps

end DbSaci.Server
