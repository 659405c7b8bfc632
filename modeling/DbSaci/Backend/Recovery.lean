import DbSaci.Backend.Ledger

set_option relaxedAutoImplicit false
set_option autoImplicit false

/-!
# What an error leaves behind

A statement that fails rolls back to its savepoint and releases it. Some failures leave before
that: a value that does not convert, and the commands that run without a savepoint. And a query
whose plan has become stale is prepared once more in a transaction that its failure has aborted.

## Main definitions

* `Restored` — the savepoints are what they were, and the transaction is not aborted.
* `RecoversFromError` — the error is answered by the recovery, as a condition on the state.
* `staleQuery`, `RetryWorks` — a query with a stale plan, and that its rows come nonetheless.

## Main results

* `restored_iff_recoversFromError` — in every reachable state the condition is exact.
* `not_retryWorks` — the second attempt never succeeds, although it loses nothing.
-/

namespace DbSaci.Backend

open PostgresBackend

variable {ε ρ : Type}

/-! ### Savepoints -/

/-- The savepoints are what they were, and the transaction is not aborted. -/
def Restored (before after : PgConn ε) : Prop :=
  after.stack = before.stack ∧ after.aborted = false

/-- The operations that run a text: a query that is opened, or one that `executeSimple` runs. -/
def Op.runsText : Op ε ρ → Prop
  | .openCursor _ | .executeSimple _ => True
  | _ => False

/-- The error of an operation is answered by rolling back to the savepoint it has made: the
transaction is not aborted, the server accepts the timeout, and the values convert. Commands that
run without a savepoint are not recovered. -/
def RecoversFromError (t : Tracked ε ρ) : Op ε ρ → Prop
  | .openCursor q => t.conn.aborted = false ∧ q.bindsConvert = true
  | .executeSimple (.statement s) =>
    t.conn.aborted = false ∧ TimeoutAccepted t.session.backend ∧ s.bindsConvert = true
  | _ => False

section Operations

variable {t : Tracked ε ρ}

lemma restored_openCursor_iff (q : QueryRun ρ)
    (herr : (t.session.step (.openCursor q)).2 = false) :
    Restored t.conn (t.step (.openCursor q)).conn ↔ RecoversFromError t (.openCursor q) := by
  rw [RecoversFromError]
  cases ha : t.conn.aborted with
  | true =>
    have hq : openCursor t.session.backend q = (t.session.backend, none) := by
      rw [openCursor, beginStatementEx_aborted ha]
    simp only [Tracked.step, Tracked.conn, Session.step, hq, Restored]
    exact iff_of_false (fun h => Bool.noConfusion (ha.symm.trans h.2)) fun h => Bool.noConfusion h.1
  | false =>
    rcases openCursor_cases t.session.backend q with hq | ⟨-, hbind, hq⟩ | ⟨-, items, hq⟩
    · have hbind : q.bindsConvert = true := by
        by_contra hnot
        rw [Bool.not_eq_true] at hnot
        have hstack := congrArg (fun r => r.1.conn.stack) hq
        rw [openCursor, beginStatementEx_false ha, hnot] at hstack
        exact List.cons_ne_self _ _ hstack
      simp only [Tracked.step, Tracked.conn, Session.step, hq]
      exact iff_of_true ⟨rfl, ha⟩ ⟨trivial, hbind⟩
    · simp only [Tracked.step, Tracked.conn, Session.step, hq, Restored]
      refine iff_of_false (fun h => List.cons_ne_self _ _ h.1) fun h => ?_
      exact Bool.noConfusion (hbind.symm.trans h.2)
    · simp only [Session.step, hq] at herr
      cases herr

lemma restored_statement_iff (s : StatementRun ε)
    (herr : (t.session.step (.executeSimple (.statement s))).2 = false) :
    Restored t.conn (t.step (.executeSimple (.statement s))).conn ↔
      RecoversFromError t (.executeSimple (.statement s)) := by
  rw [RecoversFromError]
  rcases executeStatement_cases t.session.backend s with ⟨ha, hs⟩ | ⟨ha, ht, hs⟩ |
    ⟨ha, ht, hbind, st, hs⟩ | ⟨ha, ht, hbind, hs⟩ | ⟨-, -, st, es, -, hs⟩
  all_goals
    simp only [Tracked.step, Tracked.conn, Session.step, executeSimple, hs, Restored] at herr ⊢
  · exact iff_of_false (fun h => Bool.noConfusion (ha.symm.trans h.2))
      fun h => Bool.noConfusion (ha.symm.trans h.1)
  · exact iff_of_false (fun h => Bool.noConfusion h.2) fun h => ht h.2.1
  · exact iff_of_false (fun h => List.cons_ne_self _ _ h.1)
      fun h => Bool.noConfusion (hbind.symm.trans h.2.2)
  · exact iff_of_true ⟨trivial, ha⟩ ⟨ha, ht, hbind⟩
  · cases herr

/-- A command that runs without a savepoint leaves the transaction aborted if it fails. -/
lemma aborted_of_command {text : SimpleText ε} (htext : ∀ s, text ≠ .statement s)
    (herr : (t.session.step (.executeSimple text)).2 = false) :
    (t.step (.executeSimple text)).conn.aborted = true := by
  simp only [Tracked.step, Tracked.conn, Session.step] at herr ⊢
  cases text with
  | commit => cases herr
  | rollback => cases herr
  | begin => cases herr
  | statement s => exact absurd rfl (htext s)
  | set accepted =>
    simp only [executeSimple, run_conn, run_snd] at herr ⊢
    cases hab : t.conn.aborted with
    | true => rw [Conn.execute_aborted hab, hab]
    | false =>
      cases accepted with
      | true =>
        rw [if_pos rfl, Conn.execute_nil hab] at herr
        cases herr
      | false =>
        rw [if_neg Bool.false_ne_true, Conn.execute_none hab]
        rfl
  | savepoint name =>
    simp only [executeSimple, run_conn, run_snd] at herr ⊢
    rcases Conn.savepoint_cases t.conn name .client with ⟨hab, hs⟩ | ⟨-, hs⟩
    · rw [hs, hab]
    · rw [hs] at herr
      cases herr
  | release name =>
    simp only [executeSimple, run_conn, run_snd] at herr ⊢
    rcases Conn.release_cases t.conn name with ⟨hab, hs⟩ | ⟨-, -, hs⟩ | ⟨-, sp, below, -, hs⟩
    · rw [hs, hab]
    · rw [hs]
      rfl
    · rw [hs] at herr
      cases herr
  | rollbackTo name =>
    simp only [executeSimple, run_conn, run_snd] at herr ⊢
    rcases Conn.rollbackTo_cases t.conn name with ⟨-, hs⟩ | ⟨sp, below, -, hs⟩
    · rw [hs]
      rfl
    · rw [hs] at herr
      cases herr

end Operations

/-- **An error leaves the savepoints as they were, and the transaction open**, exactly if it is
answered by the recovery, after any run of the session. -/
theorem restored_iff_recoversFromError (statementTimeout : Option ℕ) (committed : List ε)
    (ops : List (Op ε ρ)) (op : Op ε ρ) (hop : op.runsText)
    (herr : (((Tracked.start statementTimeout committed).run ops).session.step op).2 = false) :
    Restored ((Tracked.start statementTimeout committed).run ops).conn
        (((Tracked.start statementTimeout committed).run ops).step op).conn ↔
      RecoversFromError ((Tracked.start statementTimeout committed).run ops) op := by
  cases op with
  | openCursor q => exact restored_openCursor_iff q herr
  | executeSimple text =>
    by_cases htext : ∃ s, text = .statement s
    · obtain ⟨s, rfl⟩ := htext
      exact restored_statement_iff s herr
    · have hnot : ∀ s, text ≠ .statement s := fun s hs => htext ⟨s, hs⟩
      refine iff_of_false (fun h => ?_) ?_
      · exact Bool.noConfusion ((aborted_of_command hnot herr).symm.trans h.2)
      · cases text with
        | statement s => exact absurd rfl (hnot s)
        | _ => exact id
  | nextBatch i n => exact hop.elim
  | finish i => exact hop.elim
  | executeDdl d => exact hop.elim
  | endTransaction commit => exact hop.elim

/-- A statement that the server refuses. -/
theorem refusedStatement_restored :
    Restored ((Tracked.start none [] : Tracked ℕ ℕ).run []).conn
      (((Tracked.start none [] : Tracked ℕ ℕ).run []).step (.dml none)).conn :=
  (restored_iff_recoversFromError none [] [] (.dml none) trivial rfl).2 ⟨rfl, nofun, rfl⟩

/-- A value that does not convert leaves the savepoint of its statement behind. -/
theorem unconverted_leaks :
    ((Tracked.start none [] : Tracked ℕ ℕ).session.step
      (.openCursor ⟨false, ⟨false, true, .ok []⟩, ⟨false, true, .ok []⟩⟩)).2 = false ∧
    ¬ Restored (Tracked.start none [] : Tracked ℕ ℕ).conn
      ((Tracked.start none [] : Tracked ℕ ℕ).step
        (.openCursor ⟨false, ⟨false, true, .ok []⟩, ⟨false, true, .ok []⟩⟩)).conn := by
  refine ⟨rfl, fun h => ?_⟩
  exact List.cons_ne_self _ _ h.1

/-! ### A plan that has become stale -/

/-- A query whose prepared statement is cached and has become stale. Prepared afresh it streams
its rows. -/
def staleQuery (items : List (StreamItem ρ)) : QueryRun ρ where
  bindsConvert := true
  first := ⟨true, true, .error true⟩
  second := ⟨false, true, .ok items⟩

/-- **The second attempt works**: the rows of the query come, and nothing in the transaction is
lost. -/
def RetryWorks (t : Tracked ε ρ) (items : List (StreamItem ρ)) : Prop :=
  (∃ cur, (openCursor t.session.backend (staleQuery items)).2 = some cur ∧ cur.stream = items) ∧
    (t.step (.openCursor (staleQuery items))).conn.effects = t.conn.effects ∧
    (t.step (.openCursor (staleQuery items))).conn.aborted = false

/-- The second attempt is made in the transaction that the first one has aborted. -/
lemma openCursor_staleQuery (b : PostgresBackend ε) (items : List (StreamItem ρ)) :
    openCursor b (staleQuery items) = (b, none) := by
  cases ha : b.conn.aborted with
  | true => rw [openCursor, beginStatementEx_aborted ha]
  | false =>
    have hbegun : (begun b.conn).aborted = false := ha
    have hfirst : attempt { b with conn := begun b.conn } (staleQuery items).first =
        ({ b with conn := (begun b.conn).fail }, .stale) := by
      simp [attempt, prepareCached, staleQuery, run, Conn.execute_none hbegun, ha]
    have hsecond := attempt_aborted (b := { b with conn := (begun b.conn).fail })
      (staleQuery items).second rfl
    have hrecover :
        PostgresBackend.recoverStatementError { b with conn := (begun b.conn).fail } = b :=
      recoverStatementError_begun rfl rfl rfl ha
    have hconvert : (staleQuery items).bindsConvert = true := rfl
    rw [openCursor, beginStatementEx_false ha]
    dsimp only
    rw [if_pos hconvert, hfirst]
    dsimp only
    rw [hsecond]
    dsimp only
    rw [hrecover]

/-- **The second attempt never works**, in any state a session reaches: the query is answered by an
error, and the connection is as it was. -/
theorem not_retryWorks (statementTimeout : Option ℕ) (committed : List ε) (ops : List (Op ε ρ))
    (items : List (StreamItem ρ)) :
    ¬ RetryWorks ((Tracked.start statementTimeout committed).run ops) items ∧
      (((Tracked.start statementTimeout committed).run ops).step
        (.openCursor (staleQuery items))).conn =
          ((Tracked.start statementTimeout committed).run ops).conn := by
  have hopen := openCursor_staleQuery
    ((Tracked.start statementTimeout committed).run ops).session.backend items
  refine ⟨?_, ?_⟩
  · rintro ⟨⟨cur, hcur, -⟩, -⟩
    rw [hopen] at hcur
    cases hcur
  · simp only [Tracked.step, Tracked.conn, Session.step, hopen]

/-- A query with a stale plan behind a statement. -/
theorem staleQuery_fails :
    ¬ RetryWorks ((Tracked.start none [] : Tracked ℕ ℕ).run [.dml (some [7])]) [.row 0] := by
  rintro ⟨⟨cur, hcur, -⟩, -⟩
  have hnone : ((openCursor ((Tracked.start none [] : Tracked ℕ ℕ).run
      [.dml (some [7])]).session.backend (staleQuery [.row 0])).2).isSome = false := by decide
  rw [hcur] at hnone
  cases hnone

end DbSaci.Backend
