import Mathlib.Data.List.Basic

set_option relaxedAutoImplicit false
set_option autoImplicit false

/-!
# Transactions with named savepoints

A connection to a database server that has one transaction open at a time, with PostgreSQL's
rules: a savepoint name may be used again and then means its most recent use; naming a savepoint
that does not exist is an error; an error aborts the transaction, after which every command but
`ROLLBACK` and `ROLLBACK TO` fails; and `COMMIT` of an aborted transaction reports success and
rolls back.

Effects are of any type `ε`, savepoint names of any type `ν`. The settings `σ` are those that
last until the end of the transaction. Each savepoint also records an owner `τ`, which no command
reads.

## Main definitions

* `Savepoint`, `Conn` — a savepoint with what it restores, and the state of a connection.
* `Conn.savepoint`, `Conn.release`, `Conn.rollbackTo`, `Conn.commit`, `Conn.rollback`,
  `Conn.execute`, `Conn.setLocal` — the commands; those that can fail return whether they
  succeeded.

## Main results

* `Conn.release_cases`, `Conn.rollbackTo_cases` — everything the two savepoint commands can do.
* `Conn.undo_push` — rolling back to a savepoint just made and releasing it undoes a failure.
* `Conn.release_push` — releasing a savepoint just made keeps what was done under it.
-/

/-- A savepoint: its name, who made it, and what rolling back to it restores. -/
structure Savepoint (ν ε σ τ : Type) where
  name : ν
  owner : τ
  effects : List ε
  settings : σ
  deriving DecidableEq, Repr

/-- The state of a connection with an open transaction. `stack` holds the savepoints, the most
recent one first. -/
structure Conn (ν ε σ τ : Type) where
  committed : List ε
  base : σ
  effects : List ε
  settings : σ
  stack : List (Savepoint ν ε σ τ)
  aborted : Bool
  deriving DecidableEq, Repr

namespace Conn

variable {ν ε σ τ : Type}

/-- A fresh transaction over a committed state. -/
def start (base : σ) (committed : List ε) : Conn ν ε σ τ where
  committed := committed
  base := base
  effects := []
  settings := base
  stack := []
  aborted := false

/-- An error: the transaction is aborted. -/
def fail (c : Conn ν ε σ τ) : Conn ν ε σ τ := { c with aborted := true }

/-- Put a savepoint on the stack. -/
def push (c : Conn ν ε σ τ) (n : ν) (o : τ) : Conn ν ε σ τ :=
  { c with stack := ⟨n, o, c.effects, c.settings⟩ :: c.stack }

/-- `SAVEPOINT n`. -/
def savepoint (c : Conn ν ε σ τ) (n : ν) (o : τ) : Conn ν ε σ τ × Bool :=
  if c.aborted then (c, false) else (c.push n o, true)

/-- The part of a stack that begins with the most recent savepoint of a name. -/
def fromName [DecidableEq ν] (n : ν) :
    List (Savepoint ν ε σ τ) → List (Savepoint ν ε σ τ)
  | [] => []
  | sp :: below => if sp.name = n then sp :: below else fromName n below

/-- `RELEASE n`: forget the savepoint and every one made after it. -/
def release [DecidableEq ν] (c : Conn ν ε σ τ) (n : ν) : Conn ν ε σ τ × Bool :=
  if c.aborted then (c, false)
  else
    match fromName n c.stack with
    | [] => (c.fail, false)
    | _ :: below => ({ c with stack := below }, true)

/-- `ROLLBACK TO n`: restore the savepoint and forget every one made after it. An aborted
transaction accepts it. -/
def rollbackTo [DecidableEq ν] (c : Conn ν ε σ τ) (n : ν) : Conn ν ε σ τ × Bool :=
  match fromName n c.stack with
  | [] => (c.fail, false)
  | sp :: below =>
    ({ c with effects := sp.effects, settings := sp.settings, stack := sp :: below,
              aborted := false }, true)

/-- `COMMIT; BEGIN`: an aborted transaction is rolled back, and nothing is reported. -/
def commit (c : Conn ν ε σ τ) : Conn ν ε σ τ :=
  start c.base (if c.aborted then c.committed else c.committed ++ c.effects)

/-- `ROLLBACK; BEGIN`. -/
def rollback (c : Conn ν ε σ τ) : Conn ν ε σ τ := start c.base c.committed

/-- Any other command: the server accepts it with some effects, or raises an error. -/
def execute (c : Conn ν ε σ τ) (outcome : Option (List ε)) : Conn ν ε σ τ × Bool :=
  if c.aborted then (c, false)
  else
    match outcome with
    | some es => ({ c with effects := c.effects ++ es }, true)
    | none => (c.fail, false)

/-- A command that changes the settings of the transaction, or is refused. -/
def setLocal (c : Conn ν ε σ τ) (s : Option σ) : Conn ν ε σ τ × Bool :=
  if c.aborted then (c, false)
  else
    match s with
    | some s => ({ c with settings := s }, true)
    | none => (c.fail, false)

/-! ### Fields -/

section Fields

variable (c : Conn ν ε σ τ) (n : ν) (o : τ)

@[simp] lemma fail_committed : c.fail.committed = c.committed := rfl
@[simp] lemma fail_effects : c.fail.effects = c.effects := rfl
@[simp] lemma fail_stack : c.fail.stack = c.stack := rfl
@[simp] lemma fail_aborted : c.fail.aborted = true := rfl
@[simp] lemma push_committed : (c.push n o).committed = c.committed := rfl
@[simp] lemma push_effects : (c.push n o).effects = c.effects := rfl
@[simp] lemma push_aborted : (c.push n o).aborted = c.aborted := rfl
@[simp] lemma push_stack :
    (c.push n o).stack = ⟨n, o, c.effects, c.settings⟩ :: c.stack := rfl
@[simp] lemma commit_effects : c.commit.effects = [] := rfl
@[simp] lemma commit_stack : c.commit.stack = [] := rfl
@[simp] lemma commit_aborted : c.commit.aborted = false := rfl
@[simp] lemma rollback_effects : c.rollback.effects = [] := rfl
@[simp] lemma rollback_stack : c.rollback.stack = [] := rfl
@[simp] lemma rollback_aborted : c.rollback.aborted = false := rfl

end Fields

lemma commit_committed_of_not_aborted {c : Conn ν ε σ τ} (h : c.aborted = false) :
    c.commit.committed = c.committed ++ c.effects := by
  simp [commit, start, h]

/-- A command without effects that the server accepts changes nothing. -/
lemma execute_nil {c : Conn ν ε σ τ} (h : c.aborted = false) : c.execute (some []) = (c, true) := by
  obtain ⟨committed, base, effects, settings, stack, aborted⟩ := c
  simp_all [execute]

lemma execute_some {c : Conn ν ε σ τ} (h : c.aborted = false) (es : List ε) :
    c.execute (some es) = ({ c with effects := c.effects ++ es }, true) := by
  simp [execute, h]

lemma execute_none {c : Conn ν ε σ τ} (h : c.aborted = false) :
    c.execute none = (c.fail, false) := by
  simp [execute, h]

lemma execute_aborted {c : Conn ν ε σ τ} (h : c.aborted = true) (outcome : Option (List ε)) :
    c.execute outcome = (c, false) := by
  simp [execute, h]

lemma savepoint_cases (c : Conn ν ε σ τ) (n : ν) (o : τ) :
    (c.aborted = true ∧ c.savepoint n o = (c, false)) ∨
    (c.aborted = false ∧ c.savepoint n o = (c.push n o, true)) := by
  cases h : c.aborted <;> simp [savepoint, h]

/-! ### The savepoint stack -/

section Stack

variable [DecidableEq ν] {n : ν} {stack : List (Savepoint ν ε σ τ)}

@[simp] lemma fromName_nil : fromName n ([] : List (Savepoint ν ε σ τ)) = [] := rfl

@[simp] lemma fromName_cons_self (o : τ) (es : List ε) (s : σ) :
    fromName n (⟨n, o, es, s⟩ :: stack) = ⟨n, o, es, s⟩ :: stack := by
  simp [fromName]

lemma fromName_cons_of_ne {sp : Savepoint ν ε σ τ} (h : sp.name ≠ n) :
    fromName n (sp :: stack) = fromName n stack := by
  simp [fromName, h]

/-- A stack is what lies above the most recent savepoint of a name, none of which has the name,
followed by what begins with it. -/
lemma eq_append_fromName (n : ν) (stack : List (Savepoint ν ε σ τ)) :
    ∃ above, stack = above ++ fromName n stack ∧ ∀ sp ∈ above, sp.name ≠ n := by
  induction stack with
  | nil => exact ⟨[], rfl, by simp⟩
  | cons sp below ih =>
    by_cases h : sp.name = n
    · exact ⟨[], by simp [fromName, h], by simp⟩
    · obtain ⟨above, heq, habove⟩ := ih
      refine ⟨sp :: above, ?_, ?_⟩
      · rw [fromName_cons_of_ne h, List.cons_append, ← heq]
      · simpa using ⟨h, habove⟩

lemma name_of_fromName {sp : Savepoint ν ε σ τ} {below : List (Savepoint ν ε σ τ)}
    (h : fromName n stack = sp :: below) : sp.name = n := by
  induction stack with
  | nil => simp at h
  | cons q stack ih =>
    by_cases hq : q.name = n
    · simp only [fromName, hq, if_true, List.cons.injEq] at h
      exact h.1 ▸ hq
    · exact ih (by rwa [fromName_cons_of_ne hq] at h)

end Stack

section Cases

variable [DecidableEq ν] (c : Conn ν ε σ τ) (n : ν)

/-- **Everything `RELEASE` can do.** -/
lemma release_cases :
    (c.aborted = true ∧ c.release n = (c, false)) ∨
    (c.aborted = false ∧ fromName n c.stack = [] ∧ c.release n = (c.fail, false)) ∨
    (c.aborted = false ∧ ∃ sp below, fromName n c.stack = sp :: below ∧
      c.release n = ({ c with stack := below }, true)) := by
  cases ha : c.aborted with
  | true => exact Or.inl ⟨rfl, by simp [release, ha]⟩
  | false =>
    cases hf : fromName n c.stack with
    | nil => exact Or.inr (Or.inl ⟨rfl, rfl, by simp [release, ha, hf]⟩)
    | cons sp below => exact Or.inr (Or.inr ⟨rfl, sp, below, rfl, by simp [release, ha, hf]⟩)

/-- **Everything `ROLLBACK TO` can do.** -/
lemma rollbackTo_cases :
    (fromName n c.stack = [] ∧ c.rollbackTo n = (c.fail, false)) ∨
    (∃ sp below, fromName n c.stack = sp :: below ∧
      c.rollbackTo n = ({ c with effects := sp.effects, settings := sp.settings,
                                 stack := sp :: below, aborted := false }, true)) := by
  cases hf : fromName n c.stack with
  | nil => exact Or.inl ⟨rfl, by simp [rollbackTo, hf]⟩
  | cons sp below => exact Or.inr ⟨sp, below, rfl, by simp [rollbackTo, hf]⟩

end Cases

/-! ### Statements between a savepoint and its release -/

section Wrapper

variable [DecidableEq ν] {c : Conn ν ε σ τ} (n : ν) (o : τ)

/-- Rolling back to a savepoint just made, and releasing it, undoes a failure whatever the
transaction did since. -/
lemma undo_push (d : Conn ν ε σ τ) (hd : d.stack = (c.push n o).stack)
    (hc : d.committed = c.committed) (hb : d.base = c.base) (ha : c.aborted = false) :
    ((d.rollbackTo n).1.release n) = (c, true) := by
  obtain ⟨committed, base, effects, settings, stack, aborted⟩ := c
  simp_all [rollbackTo, release, fromName_cons_self]

/-- Releasing a savepoint just made keeps what was done under it. -/
lemma release_push (d : Conn ν ε σ τ) (hd : d.stack = (c.push n o).stack)
    (ha : d.aborted = false) : d.release n = ({ d with stack := c.stack }, true) := by
  simp [release, ha, hd, fromName_cons_self]

end Wrapper

end Conn
