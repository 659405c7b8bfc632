import Mathlib.Data.List.Basic
import Mathlib.Data.List.Infix

set_option relaxedAutoImplicit false
set_option autoImplicit false

/-!
# A session that commits by itself

A session of a database server with MariaDB's rules: outside of a transaction each statement
commits by itself; beginning a transaction commits the one that is open, and so does a change of
the schema, which leaves none open; a savepoint only exists inside of a transaction, and one of the
same name is moved.

Effects are of any type `ε`, and savepoint names of any type `ν`.

## Main definitions

* `Work`, `Db` — an open transaction, and the session with what is committed.
* `Db.visible` — what the session sees.
* `Db.start`, `Db.commit`, `Db.rollback`, `Db.dml`, `Db.ddl`, `Db.savepoint`, `Db.rollbackTo`,
  `Db.release` — the commands. Those for a savepoint that does not exist are refused.

## Main results

* `Db.release_savepoint`, `Db.rollbackTo_savepoint` — a statement between a savepoint and its end.
-/

/-- An open transaction, with its savepoints, the most recent one first. -/
structure Work (ν ε : Type) where
  effects : List ε
  savepoints : List (ν × List ε)
  deriving DecidableEq, Repr

/-- What is committed, and the open transaction. -/
structure Db (ν ε : Type) where
  committed : List ε
  work : Option (Work ν ε)
  deriving DecidableEq, Repr

namespace Db

variable {ν ε : Type}

/-- What the open transaction has done. -/
def pending (d : Db ν ε) : List ε := d.work.elim [] Work.effects

/-- What the session sees. -/
def visible (d : Db ν ε) : List ε := d.committed ++ d.pending

/-- The savepoints there are. -/
def savepoints (d : Db ν ε) : List (ν × List ε) := d.work.elim [] Work.savepoints

/-- `START TRANSACTION`. -/
def start (d : Db ν ε) : Db ν ε := ⟨d.visible, some ⟨[], []⟩⟩

/-- `COMMIT`. -/
def commit (d : Db ν ε) : Db ν ε := ⟨d.visible, none⟩

/-- `ROLLBACK`. -/
def rollback (d : Db ν ε) : Db ν ε := ⟨d.committed, none⟩

/-- A change of the data. -/
def dml (d : Db ν ε) (es : List ε) : Db ν ε :=
  match d.work with
  | none => ⟨d.committed ++ es, none⟩
  | some w => ⟨d.committed, some { w with effects := w.effects ++ es }⟩

/-- A change of the schema. -/
def ddl (d : Db ν ε) (es : List ε) : Db ν ε := ⟨d.visible ++ es, none⟩

/-- `SAVEPOINT n`. -/
def savepoint [DecidableEq ν] (d : Db ν ε) (n : ν) : Db ν ε :=
  match d.work with
  | none => d
  | some w =>
    ⟨d.committed, some { w with
      savepoints := (n, w.effects) :: w.savepoints.filter fun sp => sp.1 ≠ n }⟩

/-- `ROLLBACK TO n`. -/
def rollbackTo [DecidableEq ν] (d : Db ν ε) (n : ν) : Option (Db ν ε) :=
  match d.savepoints.dropWhile fun sp => sp.1 ≠ n with
  | [] => none
  | sp :: below => some ⟨d.committed, some ⟨sp.2, sp :: below⟩⟩

/-- `RELEASE SAVEPOINT n`. -/
def release [DecidableEq ν] (d : Db ν ε) (n : ν) : Option (Db ν ε) :=
  match d.savepoints.dropWhile fun sp => sp.1 ≠ n with
  | [] => none
  | _ :: below => some ⟨d.committed, some ⟨d.pending, below⟩⟩

/-! ### Fields -/

section Fields

variable (d : Db ν ε) (es : List ε)

@[simp] lemma start_visible : d.start.visible = d.visible := List.append_nil _
@[simp] lemma start_savepoints : d.start.savepoints = [] := rfl
@[simp] lemma commit_visible : d.commit.visible = d.visible := List.append_nil _
@[simp] lemma commit_savepoints : d.commit.savepoints = [] := rfl
@[simp] lemma rollback_visible : d.rollback.visible = d.committed := List.append_nil _
@[simp] lemma rollback_savepoints : d.rollback.savepoints = [] := rfl
@[simp] lemma ddl_visible : (d.ddl es).visible = d.visible ++ es := List.append_nil _
@[simp] lemma ddl_savepoints : (d.ddl es).savepoints = [] := rfl

@[simp]
lemma dml_visible : (d.dml es).visible = d.visible ++ es := by
  obtain ⟨committed, _ | w⟩ := d
  · simp [dml, visible, pending]
  · simp [dml, visible, pending]

@[simp]
lemma dml_savepoints : (d.dml es).savepoints = d.savepoints := by
  obtain ⟨committed, _ | w⟩ := d <;> rfl

lemma dml_work : (d.dml es).work.isSome = d.work.isSome := by
  obtain ⟨committed, _ | w⟩ := d <;> rfl

lemma dml_committed (h : d.work.isSome = true) : (d.dml es).committed = d.committed := by
  obtain ⟨committed, _ | w⟩ := d
  · cases h
  · rfl

variable [DecidableEq ν] (n : ν)

@[simp]
lemma savepoint_visible : (d.savepoint n).visible = d.visible := by
  obtain ⟨committed, _ | w⟩ := d <;> rfl

@[simp]
lemma savepoint_committed : (d.savepoint n).committed = d.committed := by
  obtain ⟨committed, _ | w⟩ := d <;> rfl

@[simp]
lemma savepoint_work : (d.savepoint n).work.isSome = d.work.isSome := by
  obtain ⟨committed, _ | w⟩ := d <;> rfl

/-- Other savepoints are those there were. -/
lemma mem_savepoint {sp : ν × List ε} (h : sp ∈ (d.savepoint n).savepoints) (hne : sp.1 ≠ n) :
    sp ∈ d.savepoints := by
  obtain ⟨committed, _ | w⟩ := d
  · exact h
  · rcases List.mem_cons.1 h with rfl | h
    · exact absurd rfl hne
    · exact (List.mem_filter.1 h).1

/-- The savepoint goes back to what the session sees. -/
lemma mem_savepoint_self {sp : ν × List ε} (h : sp ∈ (d.savepoint n).savepoints)
    (hname : sp.1 = n) : d.committed ++ sp.2 = d.visible := by
  obtain ⟨committed, _ | w⟩ := d
  · cases h
  · rcases List.mem_cons.1 h with rfl | h
    · rfl
    · exact absurd hname (by simpa using (List.mem_filter.1 h).2)

end Fields

/-! ### Ends of a savepoint -/

section Ends

variable [DecidableEq ν] {d d' : Db ν ε} {n : ν}

/-- Everything `ROLLBACK TO` does. -/
lemma rollbackTo_eq_some (h : d.rollbackTo n = some d') :
    ∃ sp below, d.savepoints.dropWhile (fun sp => sp.1 ≠ n) = sp :: below ∧ sp.1 = n ∧
      d' = ⟨d.committed, some ⟨sp.2, sp :: below⟩⟩ := by
  unfold rollbackTo at h
  cases hdrop : d.savepoints.dropWhile fun sp => sp.1 ≠ n with
  | nil =>
    rw [hdrop] at h
    cases h
  | cons sp below =>
    have hhead := List.head?_dropWhile_not (fun sp : ν × List ε => decide (sp.1 ≠ n)) d.savepoints
    rw [hdrop] at h hhead
    have hname : sp.1 = n := by simpa using hhead
    exact ⟨sp, below, rfl, hname, (Option.some.inj h).symm⟩

/-- Everything `RELEASE SAVEPOINT` does. -/
lemma release_eq_some (h : d.release n = some d') :
    ∃ sp below, d.savepoints.dropWhile (fun sp => sp.1 ≠ n) = sp :: below ∧
      d' = ⟨d.committed, some ⟨d.pending, below⟩⟩ := by
  unfold release at h
  cases hdrop : d.savepoints.dropWhile fun sp => sp.1 ≠ n with
  | nil =>
    rw [hdrop] at h
    cases h
  | cons sp below =>
    rw [hdrop] at h
    exact ⟨sp, below, rfl, (Option.some.inj h).symm⟩

lemma release_visible (h : d.release n = some d') : d'.visible = d.visible := by
  obtain ⟨sp, below, -, rfl⟩ := release_eq_some h
  rfl

lemma mem_release (h : d.release n = some d') {sp : ν × List ε} (hsp : sp ∈ d'.savepoints) :
    sp ∈ d.savepoints := by
  obtain ⟨sp', below, hdrop, rfl⟩ := release_eq_some h
  have hmem : sp ∈ d.savepoints.dropWhile fun sp => sp.1 ≠ n := by
    rw [hdrop]
    exact List.mem_cons_of_mem _ hsp
  exact (List.dropWhile_sublist _).subset hmem

/-- **A statement that keeps what it did**: the savepoint it was under is gone. -/
theorem release_savepoint {w : Work ν ε} (es : List ε) :
    ((⟨d.committed, some w⟩ : Db ν ε).savepoint n |>.dml es).release n =
      some ⟨d.committed, some ⟨w.effects ++ es, w.savepoints.filter fun sp => sp.1 ≠ n⟩⟩ := by
  simp [release, savepoint, dml, savepoints, pending]

/-- **A statement that is undone**: the transaction is what it was. -/
theorem rollbackTo_savepoint {w : Work ν ε} (es : List ε) :
    ((⟨d.committed, some w⟩ : Db ν ε).savepoint n |>.dml es).rollbackTo n =
      some ((⟨d.committed, some w⟩ : Db ν ε).savepoint n) := by
  simp [rollbackTo, savepoint, dml, savepoints]

end Ends

end Db
