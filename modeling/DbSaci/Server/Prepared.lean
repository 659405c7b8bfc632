import Mathlib.Data.List.Dedup
import Mathlib.Logic.Function.Basic

set_option relaxedAutoImplicit false
set_option autoImplicit false

/-!
# Prepared statements of a session

What the session loop remembers of the statements a client has executed: the cursor id it gave to
each text, the text it gave each id to, and the statement executed last. A re-execute carries no
text; it is resolved by the cursor id it names, or else by what was executed before.

## Main definitions

* `Dialect` — the three kinds of clients.
* `Frame` — an Execute or a re-execute, by what the wire parsers read from it.
* `CursorMaps` — the maps of the session loop.
* `CursorMaps.resolve`, `CursorMaps.step` — which statement a frame runs, and what it changes.
-/

namespace DbSaci.Server

/-- The dialects of the wire: plain thin drivers, the jdbc-style ones with the newer framing, and
the OCI thick client. -/
inductive Dialect
  | thin
  | jdbc
  | oci
  deriving DecidableEq, Repr

/-- The text of a statement with the datatypes of its binds. -/
abbrev Prepared := String × List UInt8

/-- The functions that run a statement: `0x5E`, `0x04` and `0x4E`. -/
inductive ExecuteFunction
  | execute
  | reexecute
  | reexecuteAndFetch
  deriving DecidableEq, Repr

/-- An Execute or re-execute frame. -/
structure Frame where
  func : ExecuteFunction
  seq : UInt8
  /-- What `parse_execute_request`, or for OCI `parse_execute_request_oci`, makes of it. -/
  parsed : Except String Prepared
  /-- `execute_frame_has_no_sql`. -/
  hasNoSql : Bool
  /-- The cursor id the frame names, if it is not zero. -/
  named : Option ℕ
  /-- The bind datatypes of a re-execute of the given statement, or why its binds are not read. -/
  rebind : Prepared → Except String (List UInt8)

namespace Frame

/-- `parse_reexecute_request`, `parse_reexecute_request_oci_ex`: the text is the given one. -/
def reexecuteRequest (f : Frame) (p : Prepared) : Except String Prepared :=
  (f.rebind p).map fun types => (p.1, types)

/-- The frame has no text of its own. -/
def isReexecute (d : Dialect) (f : Frame) : Bool :=
  match f.func with
  | .execute =>
    match f.parsed with
    | .ok p => decide (d ≠ .oci ∧ p.1 = "") && f.hasNoSql
    | .error _ => decide (d = .oci) || f.hasNoSql
  | .reexecute | .reexecuteAndFetch => true

/-- The text an Execute carries. -/
def text (f : Frame) : Option String :=
  match f.func, f.parsed with
  | .execute, .ok p => if p.1 = "" then none else some p.1
  | _, _ => none

end Frame

/-- The maps of the session loop. -/
structure CursorMaps where
  cursorId : ℕ
  ociCursorIds : String → Option ℕ
  ociNextCursorId : ℕ
  ociSeqToSql : UInt8 → Option Prepared
  ociIdToSql : ℕ → Option Prepared
  lastExecute : Option Prepared

/-- The next cursor id, a `u16`: `wrapping_add(1).max(3)`. -/
def nextCursorId (id : ℕ) : ℕ := max ((id + 1) % 65536) 3

/-- The first id that is handed out. -/
def firstCursorId : Dialect → ℕ
  | .oci => 3
  | .jdbc | .thin => 1

namespace CursorMaps

/-- The maps at the start of a session. -/
def init (d : Dialect) : CursorMaps where
  cursorId := if d = .oci then 2 else 1
  ociCursorIds := fun _ => none
  ociNextCursorId := firstCursorId d
  ociSeqToSql := fun _ => none
  ociIdToSql := fun _ => none
  lastExecute := none

variable (m : CursorMaps)

/-- The statement a frame runs. -/
def resolve (d : Dialect) (f : Frame) : Except String Prepared :=
  match f.func with
  | .execute =>
    let hint := (f.named.bind m.ociIdToSql).or m.lastExecute
    if d = .oci then
      match f.parsed with
      | .ok p => .ok p
      | .error e =>
        match hint with
        | some p => f.reexecuteRequest p
        | none => .error e
    else
      match f.parsed with
      | .ok p =>
        if p.1 ≠ "" then .ok p
        else if f.hasNoSql then
          match hint with
          | some p => f.reexecuteRequest p
          | none => f.parsed
        else f.parsed
      | .error _ =>
        if f.hasNoSql then
          match hint with
          | some p => f.reexecuteRequest p
          | none => f.parsed
        else f.parsed
  | .reexecute | .reexecuteAndFetch =>
    let resolved :=
      if d = .oci then
        ((f.named.bind m.ociIdToSql).or (m.ociSeqToSql f.seq)).or m.lastExecute
      else m.lastExecute
    match resolved with
    | some p => f.reexecuteRequest p
    | none => .error "reexecute with no prepared statement"

/-- The id of a text, handed out if it has none. -/
def entry (sql : String) : ℕ × CursorMaps :=
  match m.ociCursorIds sql with
  | some id => (id, m)
  | none =>
    (m.ociNextCursorId,
      { m with
        ociCursorIds := Function.update m.ociCursorIds sql (some m.ociNextCursorId)
        ociNextCursorId := nextCursorId m.ociNextCursorId })

/-- Remember the statement of an Execute. -/
def register (d : Dialect) (seq : UInt8) (p : Prepared) : CursorMaps :=
  let m :=
    { m with
      lastExecute := some p
      ociSeqToSql := Function.update m.ociSeqToSql seq (some p) }
  if d = .thin then { m with ociIdToSql := Function.update m.ociIdToSql m.cursorId (some p) }
  else
    let (id, m) := m.entry p.1
    { m with cursorId := id, ociIdToSql := Function.update m.ociIdToSql id (some p) }

/-- A re-execute answers with the id of its text. -/
def reuse (d : Dialect) (f : Frame) (p : Prepared) : CursorMaps :=
  if d ≠ .thin ∧ f.func ≠ .execute then
    match m.ociCursorIds p.1 with
    | some id => { m with cursorId := id }
    | none => m
  else m

/-- What a frame that runs a statement changes. -/
def record (d : Dialect) (f : Frame) (p : Prepared) : CursorMaps :=
  let m := m.reuse d f p
  if f.func = .execute ∧ p.1 ≠ "" then m.register d f.seq p else m

/-- A frame: the maps afterwards, and the statement that runs. -/
def step (d : Dialect) (f : Frame) : CursorMaps × Except String Prepared :=
  match m.resolve d f with
  | .error e => (m, .error e)
  | .ok p => (m.record d f p, .ok p)

/-- The maps after a list of frames. -/
def run (d : Dialect) (fs : List Frame) : CursorMaps :=
  fs.foldl (fun m f => (m.step d f).1) (init d)

end CursorMaps

end DbSaci.Server
