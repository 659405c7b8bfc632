import DbSaci.Server.Prepared

set_option relaxedAutoImplicit false
set_option autoImplicit false

/-!
# Open cursors

The session keeps the open cursors under their ids. A query replaces the cursor with the id of its
text, a fetch reads on from the cursor it names, and the end of a transaction closes them all.

## Main definitions

* `RowCursor`, `RowCursor.nextBatch` — a cursor over a fixed list of rows.
* `Cursors` — the cursor ids and the open cursors.
* `Cursors.execute`, `Cursors.fetch`, `Cursors.endTransaction` — what the messages do.
-/

namespace DbSaci.Server

variable {ρ : Type}

/-- The backends. -/
inductive BackendKind
  | postgres
  | mariaDb
  deriving DecidableEq, Repr

/-- A cursor: the rows that are left, and whether it has come to its end. -/
structure RowCursor (ρ : Type) where
  rows : List ρ
  exhausted : Bool
  deriving DecidableEq, Repr

namespace RowCursor

/-- A cursor that has been opened. -/
def opened (rows : List ρ) : RowCursor ρ := ⟨rows, false⟩

/-- `next_batch`: PostgreSQL notices the end when it asks for a row that is not there, MariaDB when
the last row has been read. -/
def nextBatch (kind : BackendKind) (n : ℕ) (c : RowCursor ρ) : List ρ × RowCursor ρ :=
  (c.rows.take n,
    { rows := c.rows.drop n
      exhausted := match kind with
        | .postgres => c.exhausted || decide (c.rows.length < n)
        | .mariaDb => (c.rows.drop n).isEmpty })

/-- The batch and what is left are the rows. -/
lemma nextBatch_append (kind : BackendKind) (n : ℕ) (c : RowCursor ρ) :
    (c.nextBatch kind n).1 ++ (c.nextBatch kind n).2.rows = c.rows := List.take_append_drop n _

/-- A cursor comes to its end when no row is left. -/
lemma rows_of_exhausted {kind : BackendKind} {n : ℕ} {c : RowCursor ρ}
    (hopen : c.exhausted = false) (h : (c.nextBatch kind n).2.exhausted = true) :
    (c.nextBatch kind n).2.rows = [] := by
  cases kind with
  | postgres =>
    have hlt : c.rows.length < n := by simpa [nextBatch, hopen] using h
    exact List.drop_eq_nil_of_le (Nat.le_of_lt hlt)
  | mariaDb => exact List.isEmpty_iff.1 h

end RowCursor

/-- The rows of the first batch: an OCI client reads two, others the number they ask for. -/
def firstBatch (d : Dialect) (prefetch : ℕ) : ℕ :=
  if d = .oci then 2 else if prefetch = 0 then 100 else min prefetch 50000

/-- The rows of a further batch. -/
def fetchBatch (d : Dialect) (rows : ℕ) : ℕ :=
  if d = .oci then min (max rows 1) 500 else min (max rows 1) 50000

/-- The answer to a query or to a fetch. -/
inductive Answer (ρ : Type)
  /-- Rows, with the cursor id they are read from as long as there are more. -/
  | rows (batch : List ρ) (more : Option ℕ)
  | error
  deriving DecidableEq, Repr

/-- The cursor ids and the open cursors of a session. -/
structure Cursors (ρ : Type) where
  maps : CursorMaps
  cursors : ℕ → Option (RowCursor ρ)

namespace Cursors

/-- No cursor is open at the start. -/
def init (d : Dialect) : Cursors ρ := ⟨CursorMaps.init d, fun _ => none⟩

/-- Put a cursor that has been read under its id, or close it at its end. -/
def keep (s : Cursors ρ) (id : ℕ) (c : RowCursor ρ) : Cursors ρ :=
  { s with cursors := Function.update s.cursors id (if c.exhausted = true then none else some c) }

/-- The answer with the batch of a cursor. -/
def answer (id : ℕ) (read : List ρ × RowCursor ρ) : Answer ρ :=
  .rows read.1 (if read.2.exhausted = true then none else some id)

variable (d : Dialect) (kind : BackendKind)

/-- An Execute or re-execute of a query. The backend returns its rows, or does not open it. -/
def execute (s : Cursors ρ) (f : Frame) (prefetch : ℕ) (rows : Option (List ρ)) :
    Cursors ρ × Answer ρ :=
  match s.maps.step d f with
  | (maps, .error _) => ({ s with maps := maps }, .error)
  | (maps, .ok _) =>
    let id := maps.cursorId
    let s := { s with maps := maps, cursors := Function.update s.cursors id none }
    match rows with
    | none => (s, .error)
    | some rows =>
      let read := (RowCursor.opened rows).nextBatch kind (firstBatch d prefetch)
      (s.keep id read.2, answer id read)

/-- A fetch from the cursor with an id; `0` is the current one. -/
def fetch (s : Cursors ρ) (fetchCid rows : ℕ) : Cursors ρ × Answer ρ :=
  let id := if fetchCid = 0 then s.maps.cursorId else fetchCid
  match s.cursors id with
  | some c =>
    let read := c.nextBatch kind (fetchBatch d rows)
    (s.keep id read.2, answer id read)
  | none => (s, .rows [] none)

/-- `COMMIT` and `ROLLBACK`. -/
def endTransaction (s : Cursors ρ) : Cursors ρ := { s with cursors := fun _ => none }

end Cursors

end DbSaci.Server
