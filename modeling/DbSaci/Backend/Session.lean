import DbSaci.Library.Transaction

set_option relaxedAutoImplicit false
set_option autoImplicit false

/-!
# The PostgreSQL backend of a session

A session holds one connection with a transaction always open, and any number of open cursors.
Each statement runs between `SAVEPOINT dbsaci_statement` and `RELEASE SAVEPOINT
dbsaci_statement`; a cursor holds that savepoint for as long as it has rows to give.

What the server answers is part of an operation: whether it prepares a statement, accepts it, and
what rows it streams. A row the server fails to produce is an `error` item of the stream; the
error is raised when the batch that meets it is fetched.

## Main definitions

* `PostgresBackend` — the connection and the configured statement timeout.
* `beginStatementEx`, `finishStatement`, `recoverStatementError` — the statement savepoint.
* `RowCursor`, `RowCursor.nextBatch`, `RowCursor.finish` — a streamed cursor.
* `openCursor`, `executeSimple`, `executeDdl` — running statements.
* `Session`, `Op`, `Session.step` — the operations of a session, and what each one does.
-/

namespace DbSaci.Backend

/-- Who made a savepoint. The server does not know. -/
inductive Owner
  | client
  | proxy
  deriving DecidableEq, Repr

/-- The name of the per-statement savepoint. -/
def dbsaciStatement : String := "dbsaci_statement"

/-- A PostgreSQL connection. Of the settings that last until the end of the transaction only the
statement timeout, in milliseconds, is looked at. -/
abbrev PgConn (ε : Type) := Conn String ε (Option ℕ) Owner

/-- The backend: its connection, and the statement timeout it was configured with. -/
structure PostgresBackend (ε : Type) where
  conn : PgConn ε
  statementTimeout : Option ℕ

variable {ε ρ : Type}

namespace PostgresBackend

/-- Run a server command that changes the connection and can fail. -/
def run (b : PostgresBackend ε) (command : PgConn ε → PgConn ε × Bool) :
    PostgresBackend ε × Bool :=
  ({ b with conn := (command b.conn).1 }, (command b.conn).2)

/-- The largest value the server accepts for `statement_timeout`. -/
def maxTimeout : ℕ := 2147483647

/-- `SET LOCAL statement_timeout`, at least one millisecond. -/
def setStatementTimeout (timeout : ℕ) (c : PgConn ε) : PgConn ε × Bool :=
  let millis := max timeout 1
  c.setLocal (if millis ≤ maxTimeout then some (some millis) else none)

/-- Make the statement savepoint, and for a single-shot statement set the timeout. -/
def beginStatementEx (b : PostgresBackend ε) (applyTimeout : Bool) : PostgresBackend ε × Bool :=
  match b.run fun c => c.savepoint dbsaciStatement .proxy with
  | (b, false) => (b, false)
  | (b, true) =>
    match applyTimeout, b.statementTimeout with
    | true, some timeout => b.run (setStatementTimeout timeout)
    | _, _ => (b, true)

/-- Release the statement savepoint. -/
def finishStatement (b : PostgresBackend ε) : PostgresBackend ε × Bool :=
  b.run fun c => c.release dbsaciStatement

/-- Roll back to the statement savepoint and release it. The second command is not sent when the
first fails, and a failure of either is only added to the message. -/
def recoverStatementError (b : PostgresBackend ε) : PostgresBackend ε :=
  match b.run fun c => c.rollbackTo dbsaciStatement with
  | (b, true) => (b.run fun c => c.release dbsaciStatement).1
  | (b, false) => b

end PostgresBackend

open PostgresBackend

/-- What a stream still has to give. -/
inductive StreamItem (ρ : Type)
  | row (r : ρ)
  | error
  deriving DecidableEq, Repr

/-- A streamed cursor. -/
structure RowCursor (ρ : Type) where
  stream : List (StreamItem ρ)
  exhausted : Bool := false
  savepointHeld : Bool := true
  deriving DecidableEq, Repr

namespace RowCursor

/-- Release the statement savepoint if the cursor still holds it; the result is ignored. -/
def finish (cur : RowCursor ρ) (b : PostgresBackend ε) : RowCursor ρ × PostgresBackend ε :=
  if cur.savepointHeld then
    ({ cur with exhausted := true, savepointHeld := false }, b.finishStatement.1)
  else ({ cur with exhausted := true }, b)

/-- Pull up to `n` more rows. The end of the stream finishes the cursor; an error of the server
is answered by rolling back to the statement savepoint. -/
def nextBatch (b : PostgresBackend ε) :
    ℕ → RowCursor ρ → RowCursor ρ × PostgresBackend ε × Except Unit (List ρ)
  | 0, cur => (cur, b, .ok [])
  | n + 1, cur =>
    match cur.stream with
    | .row r :: rest =>
      let (cur, b, answer) := nextBatch b n { cur with stream := rest }
      (cur, b, answer.map (r :: ·))
    | .error :: rest =>
      ({ stream := rest, exhausted := true, savepointHeld := false },
        recoverStatementError (b.run fun c => (c.fail, false)).1, .error ())
    | [] =>
      let (cur, b) := cur.finish b
      (cur, b, .ok [])

end RowCursor

/-- How the server answers one attempt to open a cursor: it prepares the statement, unless a
prepared one is cached, and runs the query. -/
structure Attempt (ρ : Type) where
  cached : Bool
  prepares : Bool
  result : Except Bool (List (StreamItem ρ))

/-- What an attempt to open a cursor comes to: rows, a stale plan, or another error. -/
inductive Opened (ρ : Type)
  | stream (items : List (StreamItem ρ))
  | stale
  | failed

/-- Prepare a statement, unless a prepared one is cached. -/
def prepareCached (b : PostgresBackend ε) (cached prepares : Bool) : PostgresBackend ε × Bool :=
  if cached then (b, true) else b.run fun c => c.execute (if prepares then some [] else none)

/-- One turn of the loop of `openCursor`. The flag of a failed query says that its plan was
stale; in an aborted transaction the server gives another error. -/
def attempt (b : PostgresBackend ε) (a : Attempt ρ) : PostgresBackend ε × Opened ρ :=
  match prepareCached b a.cached a.prepares with
  | (b, false) => (b, .failed)
  | (b, true) =>
    match a.result with
    | .ok items =>
      match b.run fun c => c.execute (some []) with
      | (b, true) => (b, .stream items)
      | (b, false) => (b, .failed)
    | .error isStalePlan =>
      ((b.run fun c => c.execute none).1,
        if isStalePlan && !b.conn.aborted then .stale else .failed)

/-- What the server and the bind values do when a cursor is opened. -/
structure QueryRun (ρ : Type) where
  bindsConvert : Bool
  first : Attempt ρ
  second : Attempt ρ

/-- Open a streamed cursor. A stale plan is tried once more. -/
def openCursor (b : PostgresBackend ε) (q : QueryRun ρ) :
    PostgresBackend ε × Option (RowCursor ρ) :=
  match b.beginStatementEx false with
  | (b, false) => (b, none)
  | (b, true) =>
    if q.bindsConvert then
      match attempt b q.first with
      | (b, .stream items) => (b, some { stream := items })
      | (b, .failed) => (b.recoverStatementError, none)
      | (b, .stale) =>
        -- the statement has been dropped from the cache
        match attempt b { q.second with cached := false } with
        | (b, .stream items) => (b, some { stream := items })
        | (b, _) => (b.recoverStatementError, none)
    else (b, none)

/-- What the server and the bind values do with a statement. -/
structure StatementRun (ε : Type) where
  bindsConvert : Bool
  cached : Bool
  prepares : Bool
  result : Option (List ε)

/-- The texts `executeSimple` tells apart. Of the commands that run outside the statement
savepoint, `set` stands for `SET TIME ZONE`, `SET TRANSACTION` and `SET CONSTRAINTS`, with
whether the server accepts it. -/
inductive SimpleText (ε : Type)
  | commit
  | rollback
  | begin
  | set (accepted : Bool)
  | savepoint (name : String)
  | release (name : String)
  | rollbackTo (name : String)
  | statement (s : StatementRun ε)

/-- Prepare and run a statement whose savepoint has been made. -/
def runStatement (b : PostgresBackend ε) (s : StatementRun ε) : PostgresBackend ε × Bool :=
  match prepareCached b s.cached s.prepares with
  | (b, false) => (b.recoverStatementError, false)
  | (b, true) =>
    match b.run fun c => c.execute s.result with
    | (b, true) => b.finishStatement
    | (b, false) => (b.recoverStatementError, false)

/-- A statement inside its savepoint. -/
def executeStatement (b : PostgresBackend ε) (s : StatementRun ε) : PostgresBackend ε × Bool :=
  match b.beginStatementEx true with
  | (b, false) => (b, false)
  | (b, true) => if s.bindsConvert then runStatement b s else (b, false)

/-- Execute a statement that is not a query. -/
def executeSimple (b : PostgresBackend ε) : SimpleText ε → PostgresBackend ε × Bool
  | .commit => b.run fun c => (c.commit, true)
  | .rollback => b.run fun c => (c.rollback, true)
  | .begin => (b, true)
  | .set accepted => b.run fun c => c.execute (if accepted then some [] else none)
  | .savepoint name => b.run fun c => c.savepoint name .client
  | .release name => b.run fun c => c.release name
  | .rollbackTo name => b.run fun c => c.rollbackTo name
  | .statement s => executeStatement b s

/-- What the server and the bind values do with a DDL statement. -/
structure DdlRun (ε : Type) where
  bindsConvert : Bool
  result : Option (List ε)

/-- Execute DDL, with a commit before it and one after it. -/
def executeDdl (b : PostgresBackend ε) (d : DdlRun ε) : PostgresBackend ε × Bool :=
  let (b, _) := b.run fun c => (c.commit, true)
  if d.bindsConvert then
    match b.run fun c => c.execute d.result with
    | (b, true) => b.run fun c => (c.commit, true)
    | (b, false) => ((b.run fun c => (c.rollback, true)).1, false)
  else (b, false)

/-! ### Sessions -/

/-- A session: its backend and the cursors it has opened, in the order they were opened. -/
structure Session (ε ρ : Type) where
  backend : PostgresBackend ε
  cursors : List (RowCursor ρ) := []

/-- A session that has just connected to a database with the given committed effects. -/
def Session.start (statementTimeout : Option ℕ) (committed : List ε) : Session ε ρ where
  backend := { conn := Conn.start none committed, statementTimeout }

/-- The operations of a session. `endTransaction` is the client's own COMMIT or ROLLBACK call,
which closes the open cursors first; the texts go through `executeSimple`. -/
inductive Op (ε ρ : Type)
  | openCursor (q : QueryRun ρ)
  | nextBatch (i n : ℕ)
  | finish (i : ℕ)
  | executeSimple (t : SimpleText ε)
  | executeDdl (d : DdlRun ε)
  | endTransaction (commit : Bool)

/-- A query without bind values that is prepared and runs. -/
def Op.query (items : List (StreamItem ρ)) : Op ε ρ :=
  .openCursor ⟨true, ⟨false, true, .ok items⟩, ⟨false, true, .ok items⟩⟩

/-- A DML statement without bind values that is prepared, and what running it comes to. -/
def Op.dml (result : Option (List ε)) : Op ε ρ :=
  .executeSimple (.statement ⟨true, false, true, result⟩)

/-- Close every cursor. -/
def finishAll (cursors : List (RowCursor ρ)) (b : PostgresBackend ε) : PostgresBackend ε :=
  cursors.foldl (fun b cur => (cur.finish b).2) b

/-- What an operation does, and whether it is answered Ok. -/
def Session.step (s : Session ε ρ) : Op ε ρ → Session ε ρ × Bool
  | .openCursor q =>
    match openCursor s.backend q with
    | (b, some cur) => ({ backend := b, cursors := s.cursors ++ [cur] }, true)
    | (b, none) => ({ s with backend := b }, false)
  | .nextBatch i n =>
    match s.cursors[i]? with
    | none => (s, true)
    | some cur =>
      let (cur, b, answer) := cur.nextBatch s.backend n
      ({ backend := b, cursors := s.cursors.set i cur }, answer.isOk)
  | .finish i =>
    match s.cursors[i]? with
    | none => (s, true)
    | some cur =>
      let (cur, b) := cur.finish s.backend
      ({ backend := b, cursors := s.cursors.set i cur }, true)
  | .executeSimple t =>
    let (b, ok) := executeSimple s.backend t
    ({ s with backend := b }, ok)
  | .executeDdl d =>
    let (b, ok) := executeDdl s.backend d
    ({ s with backend := b }, ok)
  | .endTransaction commit =>
    let b := finishAll s.cursors s.backend
    let (b, ok) := executeSimple b (if commit then .commit else .rollback)
    ({ backend := b, cursors := [] }, ok)

end DbSaci.Backend
