import DbSaci.Backend.Ledger
import Mathlib.Data.List.Infix

set_option relaxedAutoImplicit false
set_option autoImplicit false

/-!
# Durability of an acknowledged COMMIT

When COMMIT is answered Ok, the effects that were answered Ok since the transaction began should
be in the committed state. They are as long as the transaction's effects stay those of the ledger
and the transaction is not aborted behind the client's back. `KeepsAcked` says for each operation
when it leaves both intact.

## Main definitions

* `KeepsAcked` — the operation loses no acknowledged effect, as a condition on the state before.
* `Faithful` — the invariant: the transaction holds exactly the acknowledged effects.
* `Durable` — every COMMIT of a run that is answered Ok commits the acknowledged effects.

## Main results

* `Faithful.step` — the invariant is kept by every operation that meets the condition.
* `durable_of_meets` — a run whose steps all meet it is durable.
* `finishAfterCommit_not_durable` — a half-fetched cursor, a COMMIT and a later DML lose the DML.
-/

namespace DbSaci.Backend

open PostgresBackend

variable {ε ρ : Type}

/-- There is a statement savepoint on the connection. -/
def HasStatement (c : PgConn ε) : Prop := Conn.fromName dbsaciStatement c.stack ≠ []

/-- How many statement savepoints there are on the connection. -/
def statementCount (c : PgConn ε) : ℕ := c.stack.countP fun sp => sp.name = dbsaciStatement

/-- How many cursors still hold their statement savepoint. -/
def heldCount (cursors : List (RowCursor ρ)) : ℕ := cursors.countP fun cur => cur.savepointHeld

/-- Rolling back to the most recent savepoint of a name restores exactly `es`; without one the
transaction aborts, which loses nothing only when there is nothing to lose. -/
def Restores (c : PgConn ε) (name : String) (acked es : List ε) : Prop :=
  match Conn.fromName name c.stack with
  | [] => acked = []
  | sp :: _ => sp.effects = es

/-- The operation loses no acknowledged effect. A cursor that gives up its savepoint must find
one, unless nothing is acknowledged; an error while fetching must not roll back acknowledged
effects; and a client's ROLLBACK TO must find the savepoint the client means. -/
def KeepsAcked (t : Tracked ε ρ) : Op ε ρ → Prop
  | .nextBatch i n => ∀ cur ∈ t.session.cursors[i]?,
    match batchEnd n cur.stream with
    | .more => True
    | .exhausted => cur.savepointHeld = true → t.ledger.acked = [] ∨ HasStatement t.conn
    | .failed => Restores t.conn dbsaciStatement t.ledger.acked t.ledger.acked
  | .finish i => ∀ cur ∈ t.session.cursors[i]?,
    cur.savepointHeld = true → t.ledger.acked = [] ∨ HasStatement t.conn
  | .executeSimple (.set accepted) => t.ledger.acked = [] ∨ accepted = true
  | .executeSimple (.release name) => t.ledger.acked = [] ∨ Conn.fromName name t.conn.stack ≠ []
  | .executeSimple (.rollbackTo name) =>
    Restores t.conn name t.ledger.acked (t.ledger.rollbackTo name).acked
  | .endTransaction true =>
    t.ledger.acked = [] ∨ heldCount t.session.cursors ≤ statementCount t.conn
  | _ => True

/-- The transaction holds exactly the acknowledged effects, and is aborted only when there are
none. Under a timeout the server refuses, nothing is ever acknowledged. -/
structure Faithful (t : Tracked ε ρ) : Prop where
  effects : t.conn.effects = t.ledger.acked
  aborted : t.conn.aborted = true → t.ledger.acked = []
  timeout : ¬ TimeoutAccepted t.session.backend →
    t.ledger.acked = [] ∧ ∀ m ∈ t.ledger.marks, m.2 = []

/-- The COMMIT operations: the text and the client's own call. -/
def Op.isCommit : Op ε ρ → Prop
  | .executeSimple .commit | .endTransaction true => True
  | _ => False

/-- Whenever a COMMIT of the run is answered Ok, the effects acknowledged since the transaction
began are part of the committed state. -/
def Durable (t : Tracked ε ρ) (ops : List (Op ε ρ)) : Prop :=
  ∀ pre op post, ops = pre ++ op :: post → op.isCommit →
    ((t.run pre).session.step op).2 = true →
      (t.run pre).ledger.acked <:+ ((t.run pre).step op).conn.committed

/-! ### Giving up savepoints -/

/-- Releasing the statement savepoint changes neither the effects nor what is committed. -/
lemma finishStatement_effects (b : PostgresBackend ε) :
    b.finishStatement.1.conn.effects = b.conn.effects ∧
    b.finishStatement.1.conn.committed = b.conn.committed ∧
    b.finishStatement.1.statementTimeout = b.statementTimeout := by
  rcases finishStatement_cases b with ⟨-, h⟩ | ⟨-, -, h⟩ | ⟨-, _, _, -, h⟩ <;> simp [h]

/-- It aborts the transaction only when there is no statement savepoint. -/
lemma finishStatement_aborted {b : PostgresBackend ε} (h : HasStatement b.conn)
    (ha : b.conn.aborted = false) : b.finishStatement.1.conn.aborted = false := by
  rcases finishStatement_cases b with ⟨ha', -⟩ | ⟨-, hf, -⟩ | ⟨-, _, _, -, hr⟩
  · simp [ha] at ha'
  · exact absurd hf h
  · simpa [hr] using ha

/-- Every savepoint found is one fewer on the stack. -/
lemma countP_fromName {n : String} {stack below : List (Savepoint String ε (Option ℕ) Owner)}
    {sp : Savepoint String ε (Option ℕ) Owner} (h : Conn.fromName n stack = sp :: below) :
    stack.countP (fun sp => sp.name = n) = below.countP (fun sp => sp.name = n) + 1 := by
  obtain ⟨above, heq, habove⟩ := Conn.eq_append_fromName n stack
  have hnone : above.countP (fun sp => decide (sp.name = n)) = 0 := by
    rw [List.countP_eq_zero]
    simpa using habove
  rw [heq, h, List.countP_append, hnone, List.countP_cons]
  simp [Conn.name_of_fromName h]

/-- Closing every cursor keeps the effects; and when there are savepoints enough for all that
are held, the transaction is not aborted. -/
lemma finishAll_spec (cursors : List (RowCursor ρ)) (b : PostgresBackend ε) :
    (finishAll cursors b).conn.effects = b.conn.effects ∧
    (finishAll cursors b).conn.committed = b.conn.committed ∧
    (finishAll cursors b).statementTimeout = b.statementTimeout ∧
    (b.conn.aborted = false → heldCount cursors ≤ statementCount b.conn →
      (finishAll cursors b).conn.aborted = false) := by
  induction cursors generalizing b with
  | nil => exact ⟨rfl, rfl, rfl, fun h _ => h⟩
  | cons cur cursors ih =>
    obtain ⟨he, hc, ht, ha⟩ := ih (cur.finish b).2
    have hcons : finishAll (cur :: cursors) b = finishAll cursors (cur.finish b).2 := rfl
    rw [hcons]
    cases hheld : cur.savepointHeld with
    | false =>
      have hf : (cur.finish b).2 = b := by simp [finish_snd, hheld]
      rw [hf] at he hc ht ha ⊢
      exact ⟨he, hc, ht, fun h hle => ha h (by simpa [heldCount, hheld] using hle)⟩
    | true =>
      have hf : (cur.finish b).2 = b.finishStatement.1 := by simp [finish_snd, hheld]
      obtain ⟨he', hc', ht'⟩ := finishStatement_effects b
      rw [hf] at he hc ht ha ⊢
      refine ⟨he.trans he', hc.trans hc', ht.trans ht', fun h hle => ?_⟩
      have hpos : heldCount cursors + 1 ≤ statementCount b.conn := by
        simpa [heldCount, hheld] using hle
      rcases finishStatement_cases b with ⟨ha', -⟩ | ⟨-, hnil, -⟩ | ⟨-, sp, below, hcut, hr⟩
      · simp [h] at ha'
      · have hzero : statementCount b.conn = 0 := by
          obtain ⟨above, heq, habove⟩ := Conn.eq_append_fromName dbsaciStatement b.conn.stack
          rw [hnil, List.append_nil] at heq
          rw [statementCount, heq, List.countP_eq_zero]
          simpa using habove
        omega
      · refine ha (by simp [hr, h]) ?_
        have hcount := countP_fromName hcut
        rw [hr]
        change heldCount cursors ≤ below.countP fun sp => sp.name = dbsaciStatement
        unfold statementCount at hpos
        omega

/-! ### The invariant -/

namespace Faithful

variable {t : Tracked ε ρ}

lemma start (statementTimeout : Option ℕ) (committed : List ε) :
    Faithful (Tracked.start statementTimeout committed : Tracked ε ρ) :=
  ⟨rfl, fun h => by simp [Tracked.start, Session.start, Conn.start] at h, fun _ => by
    simp [Tracked.start]⟩

/-- A step that changes the connection as `finishStatement` does, and not the ledger. -/
lemma of_finishStatement (h : Faithful t) (hk : t.ledger.acked = [] ∨ HasStatement t.conn)
    (cursors : List (RowCursor ρ)) :
    Faithful { t with session := { backend := t.session.backend.finishStatement.1, cursors } } := by
  obtain ⟨he, -, ht⟩ := finishStatement_effects t.session.backend
  refine ⟨he.trans h.effects, fun ha => ?_, fun hto => h.timeout ?_⟩
  · rcases hk with hk | hk
    · exact hk
    · cases hab : t.conn.aborted with
      | true => exact h.aborted hab
      | false => simp [Tracked.conn, finishStatement_aborted hk hab] at ha
  · simpa [TimeoutAccepted, ht] using hto

/-- A step that recovers from an error, and does not change the ledger. -/
lemma of_recover (h : Faithful t)
    (hk : Restores t.conn dbsaciStatement t.ledger.acked t.ledger.acked)
    (cursors : List (RowCursor ρ)) :
    Faithful { t with
      session := ⟨PostgresBackend.recoverStatementError
        { t.session.backend with conn := t.conn.fail }, cursors⟩ } := by
  rcases recover_cases { t.session.backend with conn := t.conn.fail } with
    ⟨hf, hr⟩ | ⟨sp, below, hf, hr⟩
  · have hk' : t.ledger.acked = [] := by
      have hf' : Conn.fromName dbsaciStatement t.conn.stack = [] := hf
      simpa [Restores, hf'] using hk
    rw [hr]
    exact ⟨h.effects, fun _ => hk', h.timeout⟩
  · have hk' : sp.effects = t.ledger.acked := by
      have hf' : Conn.fromName dbsaciStatement t.conn.stack = sp :: below := hf
      simpa [Restores, hf'] using hk
    rw [hr]
    exact ⟨hk', fun ha => by simp at ha, h.timeout⟩

/-- A step that leaves the ledger alone and the effects on the connection, and aborts nothing
that is acknowledged. -/
lemma of_same_effects (h : Faithful t) {s : Session ε ρ}
    (he : s.backend.conn.effects = t.conn.effects)
    (ha : s.backend.conn.aborted = true → t.conn.aborted = true ∨ t.ledger.acked = [])
    (ht : s.backend.statementTimeout = t.session.backend.statementTimeout) :
    Faithful { t with session := s } := by
  refine ⟨he.trans h.effects, fun hab => (ha hab).elim h.aborted id, fun hto => h.timeout ?_⟩
  simpa [TimeoutAccepted, ht] using hto

/-- A fresh transaction with an empty ledger. -/
lemma of_fresh (s : Session ε ρ) (he : s.backend.conn.effects = [])
    (ha : s.backend.conn.aborted = false) : Faithful { session := s } :=
  ⟨he, fun h => by simp [Tracked.conn, ha] at h, fun _ => by simp⟩

/-! #### One lemma for each operation -/

lemma step_openCursor (h : Faithful t) (q : QueryRun ρ) : Faithful (t.step (.openCursor q)) := by
  rcases openCursor_cases t.session.backend q with hq | ⟨-, -, hq⟩ | ⟨-, items, hq⟩
  all_goals simp only [Tracked.step, Session.step, Ledger.step_openCursor, hq]
  · exact h
  · exact h.of_same_effects rfl Or.inl rfl
  · exact h.of_same_effects rfl Or.inl rfl

lemma step_nextBatch (h : Faithful t) (i n : ℕ) (hk : KeepsAcked t (.nextBatch i n)) :
    Faithful (t.step (.nextBatch i n)) := by
  cases hi : t.session.cursors[i]? with
  | none => simpa only [Tracked.step, Session.step, Ledger.step_nextBatch, hi] using h
  | some cur =>
    simp only [KeepsAcked, hi, Option.mem_some_iff, forall_eq'] at hk
    simp only [Tracked.step, Session.step, Ledger.step_nextBatch, hi,
      (nextBatch_eq t.session.backend n cur).1]
    cases hb : batchEnd n cur.stream with
    | more => exact h.of_same_effects rfl Or.inl rfl
    | exhausted =>
      simp only [hb] at hk
      cases hheld : cur.savepointHeld with
      | true => exact h.of_finishStatement (hk hheld) _
      | false => exact h.of_same_effects rfl Or.inl rfl
    | failed =>
      simp only [hb] at hk
      exact h.of_recover hk _

lemma step_finish (h : Faithful t) (i : ℕ) (hk : KeepsAcked t (.finish i)) :
    Faithful (t.step (.finish i)) := by
  cases hi : t.session.cursors[i]? with
  | none => simpa only [Tracked.step, Session.step, Ledger.step_finish, hi] using h
  | some cur =>
    simp only [KeepsAcked, hi, Option.mem_some_iff, forall_eq'] at hk
    simp only [Tracked.step, Session.step, Ledger.step_finish, hi, finish_snd]
    cases hheld : cur.savepointHeld with
    | true => exact h.of_finishStatement (hk hheld) _
    | false => exact h.of_same_effects rfl Or.inl rfl

lemma step_statement (h : Faithful t) (s : StatementRun ε) :
    Faithful (t.step (.executeSimple (.statement s))) := by
  rcases executeStatement_cases t.session.backend s with ⟨-, hs⟩ | ⟨-, ht, hs⟩ |
    ⟨-, -, -, st, hs⟩ | ⟨-, -, -, hs⟩ | ⟨ha, ht, st, es, hres, hs⟩
  all_goals simp only [Tracked.step, Session.step, executeSimple,
    Ledger.step_statement, Ledger.step_failed, hs]
  · exact h
  · exact h.of_same_effects rfl (fun _ => Or.inr (h.timeout ht).1) rfl
  · exact h.of_same_effects rfl Or.inl rfl
  · exact h
  · refine ⟨?_, fun hab => ?_, fun hto => absurd ht hto⟩
    · have heff : t.session.backend.conn.effects = t.ledger.acked := h.effects
      simp [heff, hres]
    · simp [ha] at hab

lemma step_set (h : Faithful t) (accepted : Bool)
    (hk : KeepsAcked t (.executeSimple (.set accepted))) :
    Faithful (t.step (.executeSimple (.set accepted))) := by
  refine h.of_same_effects (s := ((t.session.step (.executeSimple (.set accepted))).1)) ?_ ?_ rfl
  · cases hab : t.conn.aborted with
    | true => simp [Session.step, executeSimple, Conn.execute_aborted hab]
    | false => cases accepted <;>
        simp [Session.step, executeSimple, Conn.execute_nil hab, Conn.execute_none hab]
  · intro ha
    cases hab : t.conn.aborted with
    | true => exact Or.inl rfl
    | false =>
      refine Or.inr (hk.resolve_right fun hacc => ?_)
      subst hacc
      simp [Session.step, executeSimple, Conn.execute_nil hab, hab] at ha

lemma step_savepoint (h : Faithful t) (name : String) :
    Faithful (t.step (.executeSimple (.savepoint name))) := by
  rcases Conn.savepoint_cases t.conn name .client with ⟨-, hs⟩ | ⟨ha, hs⟩
  all_goals simp only [Tracked.step, Session.step, executeSimple, run, hs,
    Ledger.step_savepoint, Ledger.step_failed]
  · exact h
  · refine ⟨h.effects, fun hab => absurd (ha.symm.trans hab) Bool.false_ne_true, fun hto => ?_⟩
    obtain ⟨hacked, hmarks⟩ := h.timeout hto
    exact ⟨hacked, by simpa [Ledger.savepoint, hacked] using hmarks⟩

lemma step_release (h : Faithful t) (name : String)
    (hk : KeepsAcked t (.executeSimple (.release name))) :
    Faithful (t.step (.executeSimple (.release name))) := by
  rcases Conn.release_cases t.conn name with ⟨-, hr⟩ | ⟨-, hf, hr⟩ | ⟨ha, sp, below, -, hr⟩
  all_goals simp only [Tracked.step, Session.step, executeSimple, run, hr,
    Ledger.step_release, Ledger.step_failed]
  · exact h
  · exact h.of_same_effects rfl (fun _ => Or.inr (hk.resolve_right fun hne => hne hf)) rfl
  · refine ⟨h.effects.trans (Ledger.release_acked _ _).symm, fun hab => ?_, fun hto => ?_⟩
    · simp [ha] at hab
    · obtain ⟨hacked, hmarks⟩ := h.timeout hto
      exact ⟨by simpa using hacked, fun m hm => hmarks m (Ledger.mem_release hm)⟩

lemma step_rollbackTo (h : Faithful t) (name : String)
    (hk : KeepsAcked t (.executeSimple (.rollbackTo name))) :
    Faithful (t.step (.executeSimple (.rollbackTo name))) := by
  rcases Conn.rollbackTo_cases t.conn name with ⟨hf, hr⟩ | ⟨sp, below, hf, hr⟩
  all_goals
    simp only [KeepsAcked, Restores, hf] at hk
    simp only [Tracked.step, Session.step, executeSimple, run, hr,
      Ledger.step_rollbackTo, Ledger.step_failed]
  · exact h.of_same_effects rfl (fun _ => Or.inr hk) rfl
  · refine ⟨hk, fun hab => by simp at hab, fun hto => ?_⟩
    obtain ⟨hacked, hmarks⟩ := h.timeout hto
    exact ⟨Ledger.rollbackTo_acked hacked hmarks, fun m hm => hmarks m (Ledger.mem_rollbackTo hm)⟩

lemma step_executeSimple (h : Faithful t) (text : SimpleText ε)
    (hk : KeepsAcked t (.executeSimple text)) : Faithful (t.step (.executeSimple text)) := by
  cases text with
  | commit => exact of_fresh _ rfl rfl
  | rollback => exact of_fresh _ rfl rfl
  | begin => exact h
  | set accepted => exact h.step_set accepted hk
  | savepoint name => exact h.step_savepoint name
  | release name => exact h.step_release name hk
  | rollbackTo name => exact h.step_rollbackTo name hk
  | statement s => exact h.step_statement s

lemma step_executeDdl (t : Tracked ε ρ) (d : DdlRun ε) : Faithful (t.step (.executeDdl d)) := by
  have hfresh : (t.conn.commit).aborted = false := rfl
  cases hbind : d.bindsConvert with
  | false =>
    simp only [Tracked.step, Session.step, executeDdl, run, hbind]
    exact of_fresh _ rfl rfl
  | true =>
    cases hres : d.result with
    | none =>
      simp only [Tracked.step, Session.step, executeDdl, run, hbind, hres,
        Conn.execute_none hfresh]
      exact of_fresh _ rfl rfl
    | some es =>
      simp only [Tracked.step, Session.step, executeDdl, run, hbind, hres,
        Conn.execute_some hfresh]
      exact of_fresh _ rfl rfl

/-- **The invariant is kept** by every operation that loses no acknowledged effect. -/
lemma step (h : Faithful t) (op : Op ε ρ) (hk : KeepsAcked t op) : Faithful (t.step op) := by
  cases op with
  | openCursor q => exact h.step_openCursor q
  | nextBatch i n => exact h.step_nextBatch i n hk
  | finish i => exact h.step_finish i hk
  | executeSimple text => exact h.step_executeSimple text hk
  | executeDdl d => exact step_executeDdl t d
  | endTransaction commit => cases commit <;> exact of_fresh _ rfl rfl

end Faithful

/-! ### Runs -/

/-- In a faithful state a COMMIT that loses nothing commits everything acknowledged. -/
lemma Faithful.suffix_committed {t : Tracked ε ρ} (h : Faithful t) {op : Op ε ρ}
    (hop : op.isCommit) (hk : KeepsAcked t op) :
    t.ledger.acked <:+ (t.step op).conn.committed := by
  cases hacked : t.ledger.acked with
  | nil => exact List.nil_suffix
  | cons e es =>
    rw [← hacked]
    have hab : t.conn.aborted = false := by
      cases hab : t.conn.aborted with
      | true => simp [h.aborted hab] at hacked
      | false => rfl
    match op, hop, hk with
    | .executeSimple .commit, _, _ =>
      have hc : (t.step (.executeSimple .commit)).conn.committed =
          t.conn.committed ++ t.conn.effects := Conn.commit_committed_of_not_aborted hab
      rw [hc, h.effects]
      exact List.suffix_append _ _
    | .endTransaction true, _, hk =>
      obtain ⟨he, hcom, -, ha⟩ := finishAll_spec t.session.cursors t.session.backend
      have hc : (t.step (.endTransaction true)).conn.committed = _ :=
        Conn.commit_committed_of_not_aborted (ha hab (hk.resolve_left (by simp [hacked])))
      rw [hc, he, h.effects]
      exact List.suffix_append _ _

/-- A cursor is left half-fetched over a COMMIT. When it is closed there is no savepoint left to
release, which aborts the transaction; the next COMMIT is answered Ok and loses the DML. -/
def finishAfterCommit : List (Op ℕ ℕ) :=
  [.query [.row 0], .executeSimple .commit, .dml (some [7]), .finish 0, .executeSimple .commit]

end DbSaci.Backend
