import DbSaci.Backend.Ledger

set_option relaxedAutoImplicit false
set_option autoImplicit false

/-!
# A failed statement undoes only itself

A statement that is answered by an error should leave the effects of every other statement in the
transaction as they were. A failed statement rolls back to the savepoint it made itself; a failed
fetch rolls back to whatever savepoint of that name is the most recent one; and the commands that
run outside a savepoint abort the transaction.

## Main definitions

* `Undisturbed` — the effects in the transaction are kept, and it is not aborted.
* `FailsAlone` — the failure of an operation undoes nothing else, as a condition on the state.

## Main results

* `undisturbed_iff_failsAlone` — in every reachable state the condition is exact.
* `fetchErrorAfterCommit_disturbs` — a failing cursor left open over a COMMIT loses later DML.
-/

namespace DbSaci.Backend

open PostgresBackend

variable {ε ρ : Type}

/-- The effects in the transaction are what they were, and it has not been aborted. -/
def Undisturbed (before after : PgConn ε) : Prop :=
  after.effects = before.effects ∧ (after.aborted = true → before.aborted = true)

/-- The operations that run one statement: a query, a fetch from it, or a text. -/
def Op.isStatement : Op ε ρ → Prop
  | .openCursor _ | .nextBatch _ _ | .executeSimple _ => True
  | _ => False

/-- What an error would undo is the statement itself. A fetch must find the savepoint of its own
cursor, with nothing done since; a DML statement must have its timeout accepted; and the commands
that run outside a savepoint fail alone only in a transaction that is aborted already. -/
def FailsAlone (t : Tracked ε ρ) : Op ε ρ → Prop
  | .nextBatch i n => ∀ cur ∈ t.session.cursors[i]?, batchEnd n cur.stream = .failed →
    match Conn.fromName dbsaciStatement t.conn.stack with
    | [] => t.conn.aborted = true
    | sp :: _ => sp.effects = t.conn.effects
  | .executeSimple (.statement _) =>
    t.conn.aborted = true ∨ TimeoutAccepted t.session.backend
  | .executeSimple (.set _) | .executeSimple (.release _) | .executeSimple (.rollbackTo _) =>
    t.conn.aborted = true
  | _ => True

namespace Undisturbed

lemma refl (c : PgConn ε) : Undisturbed c c := ⟨rfl, id⟩

/-- A command that only fails is undisturbed exactly in an aborted transaction. -/
lemma fail_iff (c : PgConn ε) : Undisturbed c c.fail ↔ c.aborted = true := by
  simp [Undisturbed]

/-- A new savepoint disturbs nothing. -/
lemma begun (c : PgConn ε) : Undisturbed c (begun c) := ⟨rfl, id⟩

end Undisturbed

variable {t : Tracked ε ρ}

/-! ### One lemma for each operation -/

lemma undisturbed_openCursor (q : QueryRun ρ) :
    Undisturbed t.conn (t.step (.openCursor q)).conn := by
  rcases openCursor_cases t.session.backend q with hq | ⟨-, -, hq⟩ | ⟨-, items, hq⟩
  all_goals simp only [Tracked.step, Session.step, hq]
  · exact .refl _
  · exact .begun _
  · exact .begun _

lemma undisturbed_nextBatch_iff (i n : ℕ) (herr : (t.session.step (.nextBatch i n)).2 = false) :
    Undisturbed t.conn (t.step (.nextBatch i n)).conn ↔ FailsAlone t (.nextBatch i n) := by
  cases hi : t.session.cursors[i]? with
  | none => simp [Session.step, hi] at herr
  | some cur =>
    obtain ⟨hb, hok⟩ := nextBatch_eq t.session.backend n cur
    have hfailed : batchEnd n cur.stream = .failed := by
      by_contra hne
      simp [Session.step, hi, hok.2 hne] at herr
    simp only [FailsAlone, hi, Option.mem_some_iff, forall_eq', hfailed, true_imp_iff,
      Tracked.step, Session.step, hb, afterBatch, Tracked.conn]
    rcases recover_cases { t.session.backend with conn := t.conn.fail } with
      ⟨hf, hr⟩ | ⟨sp, below, hf, hr⟩
    · have hf' : Conn.fromName dbsaciStatement t.session.backend.conn.stack = [] := hf
      rw [hr]
      simp only [hf']
      exact Undisturbed.fail_iff t.session.backend.conn
    · have hf' : Conn.fromName dbsaciStatement t.session.backend.conn.stack = sp :: below := hf
      rw [hr]
      simp [hf', Undisturbed]

lemma undisturbed_statement_iff (s : StatementRun ε)
    (herr : (t.session.step (.executeSimple (.statement s))).2 = false) :
    Undisturbed t.conn (t.step (.executeSimple (.statement s))).conn ↔
      FailsAlone t (.executeSimple (.statement s)) := by
  rcases executeStatement_cases t.session.backend s with ⟨ha, hs⟩ | ⟨ha, ht, hs⟩ |
    ⟨-, ht, -, st, hs⟩ | ⟨-, ht, -, hs⟩ | ⟨-, -, st, es, -, hs⟩
  all_goals simp only [Tracked.step, Session.step, executeSimple, hs, FailsAlone] at herr ⊢
  · exact ⟨fun _ => Or.inl ha, fun _ => .refl _⟩
  · simp [Undisturbed, Tracked.conn, ha, ht]
  · exact ⟨fun _ => Or.inr ht, fun _ => .begun _⟩
  · exact ⟨fun _ => Or.inr ht, fun _ => .refl _⟩
  · cases herr

lemma undisturbed_executeSimple_iff (text : SimpleText ε)
    (herr : (t.session.step (.executeSimple text)).2 = false) :
    Undisturbed t.conn (t.step (.executeSimple text)).conn ↔
      FailsAlone t (.executeSimple text) := by
  cases text with
  | commit => cases herr
  | rollback => cases herr
  | begin => cases herr
  | statement s => exact undisturbed_statement_iff s herr
  | set accepted =>
    simp only [Tracked.step, Session.step, executeSimple, run, FailsAlone] at herr ⊢
    cases ha : t.conn.aborted with
    | true => simp [Conn.execute_aborted ha, Undisturbed]
    | false =>
      cases accepted with
      | true => simp [Conn.execute_nil ha] at herr
      | false => simpa [Conn.execute_none ha, ha] using Undisturbed.fail_iff t.conn
  | savepoint name =>
    simp only [Tracked.step, Session.step, executeSimple, run, FailsAlone] at herr ⊢
    rcases Conn.savepoint_cases t.conn name .client with ⟨-, hs⟩ | ⟨-, hs⟩
    · simp [hs, Undisturbed]
    · simp [hs] at herr
  | release name =>
    simp only [Tracked.step, Session.step, executeSimple, run, FailsAlone] at herr ⊢
    rcases Conn.release_cases t.conn name with ⟨ha, hr⟩ | ⟨-, -, hr⟩ | ⟨-, sp, below, -, hr⟩
    · simp [hr, ha, Undisturbed]
    · simpa [hr] using Undisturbed.fail_iff t.conn
    · simp [hr] at herr
  | rollbackTo name =>
    simp only [Tracked.step, Session.step, executeSimple, run, FailsAlone] at herr ⊢
    rcases Conn.rollbackTo_cases t.conn name with ⟨-, hr⟩ | ⟨sp, below, -, hr⟩
    · simpa [hr] using Undisturbed.fail_iff t.conn
    · simp [hr] at herr

/-! ### Every reachable state -/

/-- **A statement answered by an error leaves the rest of the transaction alone exactly when it
fails alone**, after any run of the session. -/
theorem undisturbed_iff_failsAlone (statementTimeout : Option ℕ) (committed : List ε)
    (ops : List (Op ε ρ)) (op : Op ε ρ) (hop : op.isStatement)
    (herr : (((Tracked.start statementTimeout committed).run ops).session.step op).2 = false) :
    Undisturbed ((Tracked.start statementTimeout committed).run ops).conn
        (((Tracked.start statementTimeout committed).run ops).step op).conn ↔
      FailsAlone ((Tracked.start statementTimeout committed).run ops) op := by
  cases op with
  | openCursor q => exact ⟨fun _ => trivial, fun _ => undisturbed_openCursor q⟩
  | nextBatch i n => exact undisturbed_nextBatch_iff i n herr
  | executeSimple text => exact undisturbed_executeSimple_iff text herr
  | finish i => exact hop.elim
  | executeDdl d => exact hop.elim
  | endTransaction commit => exact hop.elim

/-- A DML statement that fails after one that succeeded. -/
theorem failingInsert_undisturbed :
    Undisturbed ((Tracked.start none [] : Tracked ℕ ℕ).run [.dml (some [7])]).conn
      (((Tracked.start none [] : Tracked ℕ ℕ).run [.dml (some [7])]).step (.dml none)).conn :=
  (undisturbed_iff_failsAlone none [] [.dml (some [7])] (.dml none) trivial rfl).2 (Or.inr nofun)

/-- A cursor whose rows end in an error is left open over a COMMIT; a DML statement follows. -/
def fetchErrorAfterCommit : List (Op ℕ ℕ) :=
  [.query [.error], .executeSimple .commit, .dml (some [7])]

/-- The failing fetch finds no savepoint to roll back to, and the transaction is aborted. -/
theorem fetchErrorAfterCommit_disturbs :
    (((Tracked.start none []).run fetchErrorAfterCommit).session.step (.nextBatch 0 1)).2 = false ∧
    ¬ Undisturbed ((Tracked.start none []).run fetchErrorAfterCommit).conn
      (((Tracked.start none []).run fetchErrorAfterCommit).step (.nextBatch 0 1)).conn := by
  refine ⟨rfl, fun h => ?_⟩
  exact absurd (h.2 rfl) (by decide)

end DbSaci.Backend
