import DbSaci.Backend.Session
import DbSaci.Library.Autocommit
import DbSaci.Library.Text

set_option relaxedAutoImplicit false
set_option autoImplicit false

/-!
# The MariaDB backend of a session

A session holds one connection, on which a transaction is begun again after each one that ends.
Statements run under `SAVEPOINT dbsaci_statement`, in one of several ways that go by the text. The
link to the server may break; a query and a probe then reconnect.

What the server answers is part of an operation: each command it may get comes with its reply.

## Main definitions

* `Reply`, `Outcome`, `Fault` — what becomes of a command and of a statement, and why one fails.
* `MariaConn` — the connection: the database, and whether the link is up.
* `isConnectionLost` — the errors after which a query is tried once more.
* `executeSimple`, `executeDdl`, `executeReturning`, `openCursor`, `ping` — the operations.
* `MariaOp`, `MariaConn.step` — what each of them does.
* `Each` — a property of each step of a run.
-/

namespace DbSaci.Backend.Maria

open Text

/-- What becomes of a command: it is done, the server refuses it, or the link breaks, before or
after it is done. -/
inductive Reply
  | ok
  | refused (detail : List Char)
  | lost (applied : Bool) (detail : List Char)
  deriving DecidableEq, Repr

/-- What becomes of a statement, with what it has done. -/
inductive Outcome (ε : Type)
  | done (effects : List ε)
  | refused (effects : List ε) (detail : List Char)
  | lost (effects : List ε) (detail : List Char)
  deriving DecidableEq, Repr

/-- Why a command has failed: the server refuses it, the driver has no answer, or the command was
not sent. -/
inductive Fault
  | refused (detail : List Char)
  | lost (detail : List Char)
  | other
  deriving DecidableEq, Repr

/-- A connection to MariaDB, and whether its link is up. -/
structure MariaConn (ε : Type) where
  db : Db String ε
  up : Bool
  deriving DecidableEq, Repr

variable {ε : Type}

namespace MariaConn

/-- A connection that has just been established, with a transaction begun. -/
def establish (committed : List ε) : MariaConn ε := ⟨⟨committed, some ⟨[], []⟩⟩, true⟩

/-- The link is gone, and the server rolls back. -/
def drop (c : MariaConn ε) : MariaConn ε := ⟨c.db.rollback, false⟩

/-- Send a command. It is refused if the database has nothing to do it to. -/
def send (c : MariaConn ε) (r : Reply) (f : Db String ε → Option (Db String ε)) :
    MariaConn ε × Option Fault :=
  if c.up then
    match r with
    | .ok =>
      match f c.db with
      | some d => (⟨d, true⟩, none)
      | none => (c, some (.refused []))
    | .refused detail => (c, some (.refused detail))
    | .lost applied detail =>
      (drop ⟨if applied then (f c.db).getD c.db else c.db, true⟩, some (.lost detail))
  else
    match r with
    | .lost _ detail => (c, some (.lost detail))
    | _ => (c, some (.lost []))

/-- Run a statement, which changes the database by `f`. -/
def perform (c : MariaConn ε) (o : Outcome ε) (f : Db String ε → List ε → Db String ε) :
    MariaConn ε × Option Fault :=
  if c.up then
    match o with
    | .done es => (⟨f c.db es, true⟩, none)
    | .refused es detail => (⟨f c.db es, true⟩, some (.refused detail))
    | .lost es detail => (drop ⟨f c.db es, true⟩, some (.lost detail))
  else
    match o with
    | .lost _ detail => (c, some (.lost detail))
    | _ => (c, some (.lost []))

end MariaConn

open MariaConn

/-- On a link that is gone a command does nothing, and is answered by an error. -/
lemma send_of_down {c : MariaConn ε} (hup : c.up = false) (r : Reply)
    (f : Db String ε → Option (Db String ε)) : ∃ e, c.send r f = (c, some e) := by
  unfold MariaConn.send
  rw [if_neg (by simp [hup])]
  cases r <;> exact ⟨_, rfl⟩

lemma send_down {c : MariaConn ε} (hup : c.up = false) (r : Reply)
    (f : Db String ε → Option (Db String ε)) : (c.send r f).1 = c := by
  obtain ⟨e, hsend⟩ := send_of_down hup r f
  rw [hsend]

lemma perform_of_down {c : MariaConn ε} (hup : c.up = false) (o : Outcome ε)
    (f : Db String ε → List ε → Db String ε) : ∃ e, c.perform o f = (c, some e) := by
  unfold MariaConn.perform
  rw [if_neg (by simp [hup])]
  cases o <;> exact ⟨_, rfl⟩

/-- The next command, unless there was an error. -/
def andThen (p : MariaConn ε × Option Fault) (k : MariaConn ε → MariaConn ε × Option Fault) :
    MariaConn ε × Option Fault :=
  match p with
  | (c, none) => k c
  | (c, some e) => (c, some e)

lemma andThen_andThen (p : MariaConn ε × Option Fault)
    (k k' : MariaConn ε → MariaConn ε × Option Fault) :
    andThen (andThen p k) k' = andThen p fun c => andThen (k c) k' := by
  obtain ⟨c, _ | e⟩ := p <;> rfl

lemma andThen_none (p : MariaConn ε × Option Fault) : (andThen p fun c => (c, none)) = p := by
  obtain ⟨c, _ | e⟩ := p <;> rfl

lemma andThen_fst (p : MariaConn ε × Option Fault) (result : Option Fault) :
    (andThen p fun c => (c, result)).1 = p.1 := by
  obtain ⟨c, _ | e⟩ := p <;> rfl

/-- One statement after the other, up to an error. -/
def performAll (f : Db String ε → List ε → Db String ε) (c : MariaConn ε) :
    List (Outcome ε) → MariaConn ε × Option Fault
  | [] => (c, none)
  | o :: os => andThen (c.perform o f) fun c => performAll f c os

/-! ### Statements -/

/-- The ways a statement is run, with the replies to the commands that are sent for it. -/
inductive Body (ε : Type)
  | batch (savepoint : Reply) (statements : List (Outcome ε)) (release : Reply)
  | program (outcome : Outcome ε) (start : Reply)
  | single (savepoint : Reply) (outcome : Outcome ε) (release rollbackTo releaseAfter : Reply)

/-- Several statements in one text. An error is passed on at once. -/
def runBatch (c : MariaConn ε) (savepoint : Reply) (statements : List (Outcome ε))
    (release : Reply) : MariaConn ε × Option Fault :=
  andThen (c.send savepoint fun d => some (d.savepoint dbsaciStatement)) fun c =>
    andThen (performAll Db.dml c statements) fun c =>
      c.send release fun d => d.release dbsaciStatement

/-- A block, after which a transaction is begun. -/
def runProgram (c : MariaConn ε) (outcome : Outcome ε) (start : Reply) :
    MariaConn ε × Option Fault :=
  andThen (c.perform outcome Db.dml) fun c => c.send start fun d => some d.start

/-- What follows on a statement: its savepoint is released, after going back to it if the statement
has failed. -/
def endSingle (p : MariaConn ε × Option Fault) (release rollbackTo releaseAfter : Reply) :
    MariaConn ε × Option Fault :=
  match p with
  | (c, none) => c.send release fun d => d.release dbsaciStatement
  | (c, some e) =>
    let c := (c.send rollbackTo fun d => d.rollbackTo dbsaciStatement).1
    ((c.send releaseAfter fun d => d.release dbsaciStatement).1, some e)

/-- On a link that is gone nothing follows on an error. -/
lemma endSingle_of_down {c : MariaConn ε} (hup : c.up = false) (e : Fault)
    (release rollbackTo releaseAfter : Reply) :
    endSingle (c, some e) release rollbackTo releaseAfter = (c, some e) := by
  simp [endSingle, send_down hup]

/-- One statement. -/
def runSingle (c : MariaConn ε) (savepoint : Reply) (outcome : Outcome ε)
    (release rollbackTo releaseAfter : Reply) : MariaConn ε × Option Fault :=
  andThen (c.send savepoint fun d => some (d.savepoint dbsaciStatement)) fun c =>
    endSingle (c.perform outcome Db.dml) release rollbackTo releaseAfter

/-- The statement, in the way that goes by its text. -/
def runBody (c : MariaConn ε) : Body ε → MariaConn ε × Option Fault
  | .batch savepoint statements release => runBatch c savepoint statements release
  | .program outcome start => runProgram c outcome start
  | .single savepoint outcome release rollbackTo releaseAfter =>
    runSingle c savepoint outcome release rollbackTo releaseAfter

/-- The texts `executeSimple` tells apart, with the replies. `unknownSequence` is a text with a
CURRVAL of a sequence that has none yet; `insteadOf` one for a view with a trigger, whose body is
run in its place. -/
inductive SimpleText (ε : Type)
  | unknownSequence
  | insteadOf (body : Outcome ε)
  | commit (commit start : Reply)
  | rollback (rollback start : Reply)
  | begin
  | setTransaction (commit set start : Reply)
  | savepoint (name : String) (r : Reply)
  | release (name : String) (r : Reply)
  | rollbackTo (name : String) (r : Reply)
  | statement (mode : Reply) (prepares : Bool) (body : Body ε)

/-- `execute_simple`. -/
def executeSimple (c : MariaConn ε) : SimpleText ε → MariaConn ε × Option Fault
  | .unknownSequence => (c, some .other)
  | .insteadOf body => c.perform body Db.dml
  | .commit commit start =>
    andThen (c.send commit fun d => some d.commit) fun c => c.send start fun d => some d.start
  | .rollback rollback start =>
    andThen (c.send rollback fun d => some d.rollback) fun c => c.send start fun d => some d.start
  | .begin => (c, none)
  | .setTransaction commit set start =>
    andThen (c.send commit fun d => some d.commit) fun c =>
      andThen (c.send set some) fun c => c.send start fun d => some d.start
  | .savepoint name r => c.send r fun d => some (d.savepoint name)
  | .release name r => c.send r fun d => d.release name
  | .rollbackTo name r => c.send r fun d => d.rollbackTo name
  | .statement mode prepares body =>
    andThen (c.send mode some) fun c => if prepares then runBody c body else (c, some .other)

/-- A change of the schema, with the replies. `insteadOf` is a trigger that is only noted. -/
structure DdlRun (ε : Type) where
  commit : Reply
  insteadOf : Bool
  prepares : Bool
  statements : List (Outcome ε)
  commitAfter : Reply
  start : Reply

/-- `execute_ddl`. -/
def executeDdl (c : MariaConn ε) (q : DdlRun ε) : MariaConn ε × Option Fault :=
  andThen (c.send q.commit fun d => some d.commit) fun c =>
    if q.insteadOf then ((c.send q.start fun d => some d.start).1, none)
    else if q.prepares then
      let (c, result) := performAll Db.ddl c q.statements
      let c := (c.send q.commitAfter fun d => some d.commit).1
      andThen (c.send q.start fun d => some d.start) fun c => (c, result)
    else (c, some .other)

/-- How a statement with RETURNING is run: not at all, one statement that gives rows, or an UPDATE
and then a SELECT. -/
inductive Returning (ε : Type)
  | nothing
  | noSelect
  | one (outcome : Outcome ε)
  | two (update : Outcome ε) (select : Reply)

/-- A statement with RETURNING, with the replies. -/
structure ReturningRun (ε : Type) where
  mode : Reply
  prepares : Bool
  body : Returning ε
  encodes : Bool

/-- `execute_returning`. -/
def executeReturning (c : MariaConn ε) (q : ReturningRun ε) : MariaConn ε × Option Fault :=
  andThen (c.send q.mode some) fun c =>
    if q.prepares then
      match q.body with
      | .nothing => (c, none)
      | .noSelect => (c, some .other)
      | .one outcome =>
        andThen (c.perform outcome Db.dml) fun c => (c, if q.encodes then none else some .other)
      | .two update select =>
        andThen (c.perform update Db.dml) fun c =>
          andThen (c.send select some) fun c => (c, if q.encodes then none else some .other)
    else (c, some .other)

/-! ### Queries and probes -/

/-- The errors, as far as they are told apart. -/
inductive BackendError
  | postgres (m : List Char)
  | pgStatement (detail : List Char)
  | other
  deriving DecidableEq, Repr

/-- `mariadb_error`. -/
def mariadbError : Fault → BackendError
  | .refused detail => .pgStatement detail
  | .lost detail => .postgres ("MariaDB error: ".toList ++ detail)
  | .other => .other

/-- The error of a probe, which does not tell an answer of the server apart. -/
def pingError : Fault → BackendError
  | .refused detail => .postgres ("MariaDB query failed: ".toList ++ detail)
  | .lost detail => .postgres ("MariaDB query failed: ".toList ++ detail)
  | .other => .other

/-- `is_connection_lost`: the error says that the link is gone. One with a state of the server in
front is an answer. -/
def isConnectionLost : BackendError → Bool
  | .postgres m =>
    let sqlstatePrefixed := match find [':', ' '] m with
      | some n => n = 5 && (m.take 5).all Char.isAlphanum
      | none => false
    let lower := m.map Char.toLower
    !sqlstatePrefixed &&
      ["early eof", "connection reset", "connection closed", "connection aborted", "broken pipe",
        "unexpected end of file", "io error", "os error", "timed out"].any
        fun text => (find text.toList lower).isSome
  | _ => false

/-- A query, with the replies. -/
structure Fetch where
  mode : Reply
  prepares : Bool
  query : Reply

/-- `fetch_all`. -/
def fetchAll (c : MariaConn ε) (q : Fetch) : MariaConn ε × Option Fault :=
  andThen (c.send q.mode some) fun c =>
    if q.prepares then c.send q.query some else (c, some .other)

/-- What a query meets: whether its sequences are known, the replies to it, whether a new
connection can be established and the replies there, the reply to a look at the columns, and
whether the rows can be encoded. -/
structure QueryRun where
  known : Bool
  first : Fetch
  established : Bool
  second : Fetch
  lookup : Option Reply
  encodes : Bool

/-- The connection after an error, and whether it is a new one. -/
def reconnect (c : MariaConn ε) (established : Bool) : MariaConn ε × Option Fault :=
  if established then (MariaConn.establish c.db.committed, none) else (c, some .other)

/-- The rows of a query. After a lost link it is tried once more. -/
def fetchRetrying (c : MariaConn ε) (q : QueryRun) : MariaConn ε × Option Fault :=
  match fetchAll c q.first with
  | (c, none) => (c, none)
  | (c, some e) =>
    if isConnectionLost (mariadbError e) then
      andThen (reconnect c q.established) fun c => fetchAll c q.second
    else (c, some e)

/-- `open_cursor`. -/
def openCursor (c : MariaConn ε) (q : QueryRun) : MariaConn ε × Option Fault :=
  if q.known then
    andThen (fetchRetrying c q) fun c =>
      let c := q.lookup.elim c fun r => (c.send r some).1
      (c, if q.encodes then none else some .other)
  else (c, some .other)

/-- `ping`. -/
def ping (c : MariaConn ε) (first : Reply) (established : Bool) (second : Reply) :
    MariaConn ε × Option Fault :=
  match c.send first some with
  | (c, none) => (c, none)
  | (c, some e) =>
    if isConnectionLost (pingError e) then
      andThen (reconnect c established) fun c => c.send second some
    else (c, some e)

/-! ### Sessions -/

/-- The operations of a session. -/
inductive MariaOp (ε : Type)
  | executeSimple (t : SimpleText ε)
  | executeDdl (q : DdlRun ε)
  | executeReturning (q : ReturningRun ε)
  | openCursor (q : QueryRun)
  | ping (first : Reply) (established : Bool) (second : Reply)

/-- What an operation does, and its error if it is answered by one. -/
def MariaConn.step (c : MariaConn ε) : MariaOp ε → MariaConn ε × Option Fault
  | .executeSimple t => Maria.executeSimple c t
  | .executeDdl q => Maria.executeDdl c q
  | .executeReturning q => Maria.executeReturning c q
  | .openCursor q => Maria.openCursor c q
  | .ping first established second => Maria.ping c first established second

/-- Several operations. -/
def MariaConn.run (c : MariaConn ε) (ops : List (MariaOp ε)) : MariaConn ε :=
  ops.foldl (fun c op => (c.step op).1) c

/-- A property of each step of a run. -/
def Each (P : MariaConn ε → MariaOp ε → Prop) : MariaConn ε → List (MariaOp ε) → Prop
  | _, [] => True
  | c, op :: ops => P c op ∧ Each P (c.step op).1 ops

end DbSaci.Backend.Maria
