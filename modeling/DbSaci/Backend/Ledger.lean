import DbSaci.Backend.Statement
import Mathlib.Data.List.Induction

set_option relaxedAutoImplicit false
set_option autoImplicit false

/-!
# What the client was told

The abstract side of a session: from the answers alone, which effects the client may count on
once it commits, and which of its savepoints it may still roll back to. The properties of the
backend compare the connection with this ledger.

## Main definitions

* `Ledger` — acknowledged effects and client savepoints.
* `Ledger.step` — how an answered operation changes them.
* `Tracked`, `Tracked.step`, `Tracked.run` — a session together with its ledger, and its runs.

## Main results

* `Tracked.run_induction` — what holds at the start and is kept by each step of a run that meets
  a condition holds in every state of the run.
-/

namespace DbSaci.Backend

variable {ε ρ : Type}

/-- What the client may count on: the effects answered Ok since the last COMMIT, ROLLBACK or DDL,
and its savepoints, the most recent one first, each with the effects answered Ok before it. -/
structure Ledger (ε : Type) where
  acked : List ε := []
  marks : List (String × List ε) := []
  deriving DecidableEq, Repr

namespace Ledger

/-- The savepoints from the most recent one of a name on. -/
def fromMark (name : String) : List (String × List ε) → List (String × List ε)
  | [] => []
  | m :: ms => if m.1 = name then m :: ms else fromMark name ms

/-- The client's savepoint was answered Ok. -/
def savepoint (l : Ledger ε) (name : String) : Ledger ε :=
  { l with marks := (name, l.acked) :: l.marks }

/-- The client released a savepoint. -/
def release (l : Ledger ε) (name : String) : Ledger ε :=
  match fromMark name l.marks with
  | [] => l
  | _ :: ms => { l with marks := ms }

/-- The client rolled back to a savepoint. -/
def rollbackTo (l : Ledger ε) (name : String) : Ledger ε :=
  match fromMark name l.marks with
  | [] => l
  | m :: ms => { acked := m.2, marks := m :: ms }

/-- How an operation and its answer change the ledger. DDL commits before it runs, whatever its
answer. -/
def step (l : Ledger ε) (op : Op ε ρ) (ok : Bool) : Ledger ε :=
  match op, ok with
  | .executeSimple (.statement s), true => { l with acked := l.acked ++ s.result.getD [] }
  | .executeSimple (.savepoint name), true => l.savepoint name
  | .executeSimple (.release name), true => l.release name
  | .executeSimple (.rollbackTo name), true => l.rollbackTo name
  | .executeSimple .commit, true | .executeSimple .rollback, true => {}
  | .endTransaction _, true => {}
  | .executeDdl _, _ => {}
  | _, _ => l

/-! ### Steps -/

section Step

variable (l : Ledger ε) (ok : Bool)

lemma step_openCursor (q : QueryRun ρ) : l.step (.openCursor q) ok = l := rfl

lemma step_nextBatch (i n : ℕ) : l.step (.nextBatch i n : Op ε ρ) ok = l := rfl

lemma step_finish (i : ℕ) : l.step (.finish i : Op ε ρ) ok = l := rfl

/-- A statement that was not answered Ok changes nothing. -/
lemma step_failed (text : SimpleText ε) : l.step (.executeSimple text : Op ε ρ) false = l := by
  cases text <;> rfl

lemma step_statement (s : StatementRun ε) :
    l.step (.executeSimple (.statement s) : Op ε ρ) true =
      { l with acked := l.acked ++ s.result.getD [] } := rfl

lemma step_savepoint (name : String) :
    l.step (.executeSimple (.savepoint name) : Op ε ρ) true = l.savepoint name := rfl

lemma step_release (name : String) :
    l.step (.executeSimple (.release name) : Op ε ρ) true = l.release name := rfl

lemma step_rollbackTo (name : String) :
    l.step (.executeSimple (.rollbackTo name) : Op ε ρ) true = l.rollbackTo name := rfl

end Step

/-! ### Fields -/

section Fields

variable {l : Ledger ε} {name : String} {m : String × List ε}

lemma mem_of_mem_fromMark {ms : List (String × List ε)} (h : m ∈ fromMark name ms) : m ∈ ms := by
  induction ms with
  | nil => exact h
  | cons m' ms ih =>
    rw [fromMark] at h
    split at h
    · exact h
    · exact List.mem_cons_of_mem _ (ih h)

@[simp] lemma release_acked (l : Ledger ε) (name : String) : (l.release name).acked = l.acked := by
  unfold release
  split <;> rfl

lemma mem_release (h : m ∈ (l.release name).marks) : m ∈ l.marks := by
  unfold release at h
  split at h
  · exact h
  · next heq => exact mem_of_mem_fromMark (heq ▸ List.mem_cons_of_mem _ h)

lemma mem_rollbackTo (h : m ∈ (l.rollbackTo name).marks) : m ∈ l.marks := by
  unfold rollbackTo at h
  split at h
  · exact h
  · next heq => exact mem_of_mem_fromMark (heq ▸ h)

/-- When nothing was acknowledged before any mark, nothing is after rolling back to one. -/
lemma rollbackTo_acked (h : l.acked = []) (hm : ∀ m ∈ l.marks, m.2 = []) :
    (l.rollbackTo name).acked = [] := by
  unfold rollbackTo
  split
  · exact h
  · next heq => exact hm _ (mem_of_mem_fromMark (heq ▸ List.mem_cons_self))

end Fields

end Ledger

/-- A session together with its ledger. -/
structure Tracked (ε ρ : Type) where
  session : Session ε ρ
  ledger : Ledger ε := {}

namespace Tracked

/-- The connection of the session. -/
abbrev conn (t : Tracked ε ρ) : PgConn ε := t.session.backend.conn

/-- Run one operation and note its answer. -/
def step (t : Tracked ε ρ) (op : Op ε ρ) : Tracked ε ρ where
  session := (t.session.step op).1
  ledger := t.ledger.step op (t.session.step op).2

/-- Run several operations. -/
def run (t : Tracked ε ρ) (ops : List (Op ε ρ)) : Tracked ε ρ := ops.foldl step t

/-- A session that has just connected. -/
def start (statementTimeout : Option ℕ) (committed : List ε) : Tracked ε ρ where
  session := Session.start statementTimeout committed

@[simp] lemma run_append (t : Tracked ε ρ) (ops ops' : List (Op ε ρ)) :
    t.run (ops ++ ops') = (t.run ops).run ops' := List.foldl_append

@[simp] lemma run_singleton (t : Tracked ε ρ) (op : Op ε ρ) : t.run [op] = t.step op := rfl

/-- Every step of a run meets a condition on the state before it. -/
def Meets (Cond : Tracked ε ρ → Op ε ρ → Prop) (t : Tracked ε ρ) (ops : List (Op ε ρ)) : Prop :=
  ∀ pre op post, ops = pre ++ op :: post → Cond (t.run pre) op

@[simp] lemma meets_nil (Cond : Tracked ε ρ → Op ε ρ → Prop) (t : Tracked ε ρ) :
    Meets Cond t [] := by
  simp [Meets]

lemma meets_cons {Cond : Tracked ε ρ → Op ε ρ → Prop} {t : Tracked ε ρ} {op : Op ε ρ}
    {ops : List (Op ε ρ)} : Meets Cond t (op :: ops) ↔ Cond t op ∧ Meets Cond (t.step op) ops := by
  refine ⟨fun h => ⟨h [] op ops rfl, fun pre op' post heq => ?_⟩, ?_⟩
  · exact h (op :: pre) op' post (by rw [heq, List.cons_append])
  · rintro ⟨hop, hops⟩ pre op' post heq
    rcases List.cons_eq_append_iff.1 heq with ⟨rfl, hp⟩ | ⟨pre', rfl, hp⟩
    · obtain ⟨rfl, rfl⟩ := List.cons.inj hp
      exact hop
    · exact hops pre' op' post hp

lemma Meets.of_append {Cond : Tracked ε ρ → Op ε ρ → Prop} {t : Tracked ε ρ}
    {pre post : List (Op ε ρ)} (h : Meets Cond t (pre ++ post)) : Meets Cond t pre :=
  fun p op q hpq => h p op (q ++ post) (by rw [hpq]; simp)

/-- **The invariant rule.** What holds at the start and is kept by each step that meets the
condition holds at the end of every run whose steps all meet it. -/
lemma run_induction {Cond : Tracked ε ρ → Op ε ρ → Prop} {P : Tracked ε ρ → Prop}
    {t : Tracked ε ρ} (h0 : P t) (hstep : ∀ s op, P s → Cond s op → P (s.step op))
    (ops : List (Op ε ρ)) (h : Meets Cond t ops) : P (t.run ops) := by
  induction ops using List.reverseRecOn with
  | nil => exact h0
  | append_singleton ops op ih =>
    rw [run_append, run_singleton]
    exact hstep _ op (ih h.of_append) (h ops op [] (by simp))

end Tracked

end DbSaci.Backend
