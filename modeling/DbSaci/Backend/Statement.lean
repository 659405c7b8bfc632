import DbSaci.Backend.Session

set_option relaxedAutoImplicit false
set_option autoImplicit false

/-!
# What each operation does to the connection

One lemma for each operation of the backend, saying everything it can do to the connection. The
properties of whole runs are derived from these lemmas and never look at the operations again.

## Main results

* `executeStatement_cases`, `openCursor_cases` — the statements that run inside the savepoint.
* `finish_cases`, `recover_cases`, `nextBatch_eq` — the ends of a cursor.
-/

namespace DbSaci.Backend

open PostgresBackend

variable {ε ρ : Type}

/-- The server accepts the configured statement timeout, if there is one. -/
def TimeoutAccepted (b : PostgresBackend ε) : Prop :=
  ∀ t ∈ b.statementTimeout, max t 1 ≤ maxTimeout

/-- The connection after the statement savepoint has been made. -/
abbrev begun (c : PgConn ε) : PgConn ε := c.push dbsaciStatement .proxy

@[simp] lemma run_conn (b : PostgresBackend ε) (f : PgConn ε → PgConn ε × Bool) :
    (b.run f).1.conn = (f b.conn).1 := rfl

@[simp] lemma run_timeout (b : PostgresBackend ε) (f : PgConn ε → PgConn ε × Bool) :
    (b.run f).1.statementTimeout = b.statementTimeout := rfl

@[simp] lemma run_snd (b : PostgresBackend ε) (f : PgConn ε → PgConn ε × Bool) :
    (b.run f).2 = (f b.conn).2 := rfl

/-! ### Beginning, finishing and recovering -/

lemma beginStatementEx_aborted {b : PostgresBackend ε} (h : b.conn.aborted = true) (a : Bool) :
    b.beginStatementEx a = (b, false) := by
  simp [beginStatementEx, run, Conn.savepoint, h]

/-- Without a timeout the statement savepoint is all that is made. -/
lemma beginStatementEx_false {b : PostgresBackend ε} (h : b.conn.aborted = false) :
    b.beginStatementEx false = ({ b with conn := begun b.conn }, true) := by
  simp [beginStatementEx, run, Conn.savepoint, h]

/-- With a timeout its setting changes, or the server refuses it and the transaction aborts. -/
lemma beginStatementEx_true {b : PostgresBackend ε} (h : b.conn.aborted = false) :
    (TimeoutAccepted b ∧ ∃ s, b.beginStatementEx true =
      ({ b with conn := { begun b.conn with settings := s } }, true)) ∨
    (¬ TimeoutAccepted b ∧
      b.beginStatementEx true = ({ b with conn := (begun b.conn).fail }, false)) := by
  cases ht : b.statementTimeout with
  | none =>
    refine Or.inl ⟨by simp [TimeoutAccepted, ht], b.conn.settings, ?_⟩
    simp [beginStatementEx, run, Conn.savepoint, h, ht, Conn.push]
  | some t =>
    by_cases hm : max t 1 ≤ maxTimeout
    · refine Or.inl ⟨by simpa [TimeoutAccepted, ht] using hm, some (max t 1), ?_⟩
      simp [beginStatementEx, run, Conn.savepoint, h, ht, setStatementTimeout, Conn.setLocal, hm]
    · refine Or.inr ⟨by simpa [TimeoutAccepted, ht] using hm, ?_⟩
      simp [beginStatementEx, run, Conn.savepoint, h, ht, setStatementTimeout, Conn.setLocal, hm]

/-- After a failure under a savepoint just made, recovery restores the connection exactly. -/
lemma recoverStatementError_begun {b : PostgresBackend ε} {c : PgConn ε}
    (hs : b.conn.stack = (begun c).stack) (hc : b.conn.committed = c.committed)
    (hb : b.conn.base = c.base) (ha : c.aborted = false) :
    b.recoverStatementError = { b with conn := c } := by
  have h := Conn.undo_push dbsaciStatement Owner.proxy b.conn hs hc hb ha
  rcases hr : b.conn.rollbackTo dbsaciStatement with ⟨d, ok⟩
  rw [hr] at h
  cases ok with
  | true => simp [recoverStatementError, run, hr, h]
  | false =>
    rcases Conn.rollbackTo_cases b.conn dbsaciStatement with ⟨hf, -⟩ | ⟨_, _, -, hr'⟩
    · simp [hs] at hf
    · simp [hr'] at hr

/-- Finishing a statement whose savepoint has just been made keeps what the statement did. -/
lemma finishStatement_begun {b : PostgresBackend ε} {c : PgConn ε}
    (hs : b.conn.stack = (begun c).stack) (ha : b.conn.aborted = false) :
    b.finishStatement = ({ b with conn := { b.conn with stack := c.stack } }, true) := by
  simp [finishStatement, run, Conn.release_push dbsaciStatement Owner.proxy b.conn hs ha]

/-- **Everything recovery can do**: without a statement savepoint the transaction is aborted;
otherwise the most recent one is restored, and it and everything above it is gone. -/
lemma recover_cases (b : PostgresBackend ε) :
    (Conn.fromName dbsaciStatement b.conn.stack = [] ∧
      b.recoverStatementError = { b with conn := b.conn.fail }) ∨
    (∃ sp below, Conn.fromName dbsaciStatement b.conn.stack = sp :: below ∧
      b.recoverStatementError = { b with conn := { b.conn with
        effects := sp.effects, settings := sp.settings, stack := below, aborted := false } }) := by
  rcases Conn.rollbackTo_cases b.conn dbsaciStatement with ⟨hf, hr⟩ | ⟨sp, below, hf, hr⟩
  · exact Or.inl ⟨hf, by simp [recoverStatementError, run, hr]⟩
  · refine Or.inr ⟨sp, below, hf, ?_⟩
    have hn : sp.name = dbsaciStatement := Conn.name_of_fromName hf
    simp [recoverStatementError, run, hr, Conn.release, Conn.fromName, hn]

/-- **Everything releasing the statement savepoint can do.** -/
lemma finishStatement_cases (b : PostgresBackend ε) :
    (b.conn.aborted = true ∧ b.finishStatement = (b, false)) ∨
    (b.conn.aborted = false ∧ Conn.fromName dbsaciStatement b.conn.stack = [] ∧
      b.finishStatement = ({ b with conn := b.conn.fail }, false)) ∨
    (b.conn.aborted = false ∧ ∃ sp below,
      Conn.fromName dbsaciStatement b.conn.stack = sp :: below ∧
      b.finishStatement = ({ b with conn := { b.conn with stack := below } }, true)) := by
  rcases Conn.release_cases b.conn dbsaciStatement with ⟨ha, hr⟩ | ⟨ha, hf, hr⟩ |
    ⟨ha, sp, below, hf, hr⟩
  · exact Or.inl ⟨ha, by simp [finishStatement, run, hr]⟩
  · exact Or.inr (Or.inl ⟨ha, hf, by simp [finishStatement, run, hr]⟩)
  · exact Or.inr (Or.inr ⟨ha, sp, below, hf, by simp [finishStatement, run, hr]⟩)

/-! ### Statements -/

/-- Outside an aborted transaction preparing changes nothing, or fails. -/
lemma prepareCached_cases {b : PostgresBackend ε} (h : b.conn.aborted = false)
    (cached prepares : Bool) :
    prepareCached b cached prepares = (b, true) ∨
    prepareCached b cached prepares = ({ b with conn := b.conn.fail }, false) := by
  cases cached <;> cases prepares <;>
    simp [prepareCached, run, Conn.execute_nil h, Conn.execute_none h]

/-- Inside its savepoint a statement fails and is recovered, or succeeds and is finished. -/
lemma runStatement_cases {b : PostgresBackend ε} (h : b.conn.aborted = false)
    (s : StatementRun ε) :
    runStatement b s =
      (PostgresBackend.recoverStatementError { b with conn := b.conn.fail }, false) ∨
    ∃ es, s.result = some es ∧ runStatement b s = PostgresBackend.finishStatement
      { b with conn := { b.conn with effects := b.conn.effects ++ es } } := by
  rcases prepareCached_cases h s.cached s.prepares with hp | hp
  · cases hres : s.result with
    | none => exact Or.inl (by simp [runStatement, hp, hres, run, Conn.execute_none h])
    | some es =>
      exact Or.inr ⟨es, rfl, by simp [runStatement, hp, hres, run, Conn.execute_some h]⟩
  · exact Or.inl (by simp [runStatement, hp])

/-- **Everything a statement can do.** In an aborted transaction nothing happens; a timeout the
server refuses aborts the transaction; a bind value that does not convert leaves the statement
savepoint behind; a statement that fails is undone exactly; one that succeeds adds its effects. -/
lemma executeStatement_cases (b : PostgresBackend ε) (s : StatementRun ε) :
    (b.conn.aborted = true ∧ executeStatement b s = (b, false)) ∨
    (b.conn.aborted = false ∧ ¬ TimeoutAccepted b ∧
      executeStatement b s = ({ b with conn := (begun b.conn).fail }, false)) ∨
    (b.conn.aborted = false ∧ TimeoutAccepted b ∧ s.bindsConvert = false ∧
      ∃ st, executeStatement b s =
        ({ b with conn := { begun b.conn with settings := st } }, false)) ∨
    (b.conn.aborted = false ∧ TimeoutAccepted b ∧ s.bindsConvert = true ∧
      executeStatement b s = (b, false)) ∨
    (b.conn.aborted = false ∧ TimeoutAccepted b ∧ ∃ st es, s.result = some es ∧
      executeStatement b s =
        ({ b with conn := { b.conn with effects := b.conn.effects ++ es, settings := st } },
          true)) := by
  cases ha : b.conn.aborted with
  | true => exact Or.inl ⟨rfl, by simp [executeStatement, beginStatementEx_aborted ha]⟩
  | false =>
    refine Or.inr ?_
    rcases beginStatementEx_true ha with ⟨ht, st, hb⟩ | ⟨ht, hb⟩
    · refine Or.inr ?_
      cases hbind : s.bindsConvert with
      | false => exact Or.inl ⟨rfl, ht, rfl, st, by simp [executeStatement, hb, hbind]⟩
      | true =>
        refine Or.inr ?_
        obtain ⟨b₁, hb₁⟩ : ∃ b₁ : PostgresBackend ε,
          b₁ = { b with conn := { begun b.conn with settings := st } } := ⟨_, rfl⟩
        have hexec : executeStatement b s = runStatement b₁ s := by
          simp [executeStatement, hb, hbind, hb₁]
        have hstack : b₁.conn.stack = (begun b.conn).stack := by rw [hb₁]
        have hbegun : b₁.conn.aborted = false := by rw [hb₁]; exact ha
        rcases runStatement_cases hbegun s with hr | ⟨es, hres, hr⟩
        · refine Or.inl ⟨rfl, ht, rfl, ?_⟩
          have hrec := recoverStatementError_begun (b := { b₁ with conn := b₁.conn.fail })
            (c := b.conn) hstack (by rw [hb₁]; rfl) (by rw [hb₁]; rfl) ha
          rw [hexec, hr, hrec, hb₁]
        · refine Or.inr ⟨rfl, ht, st, es, hres, ?_⟩
          have hfin := finishStatement_begun (c := b.conn)
            (b := { b₁ with conn := { b₁.conn with effects := b₁.conn.effects ++ es } })
            hstack hbegun
          rw [hexec, hr, hfin, hb₁]
          rfl
    · exact Or.inl ⟨rfl, ht, by simp [executeStatement, hb]⟩

/-- An attempt to open a cursor streams rows, or the server raises an error. -/
lemma attempt_cases {b : PostgresBackend ε} (a : Attempt ρ) (h : b.conn.aborted = false) :
    (∃ items, attempt b a = (b, .stream items)) ∨
    attempt b a = ({ b with conn := b.conn.fail }, .stale) ∨
    attempt b a = ({ b with conn := b.conn.fail }, .failed) := by
  rcases prepareCached_cases h a.cached a.prepares with hp | hp
  · cases hres : a.result with
    | ok items => exact Or.inl ⟨items, by simp [attempt, hp, hres, run, Conn.execute_nil h]⟩
    | error isStalePlan =>
      refine Or.inr ?_
      cases isStalePlan <;> simp [attempt, hp, hres, run, Conn.execute_none h, h]
  · exact Or.inr (Or.inr (by simp [attempt, hp]))

/-- In an aborted transaction a statement that is not cached cannot be prepared. -/
lemma attempt_aborted {b : PostgresBackend ε} (a : Attempt ρ) (h : b.conn.aborted = true) :
    attempt b { a with cached := false } = (b, .failed) := by
  simp [attempt, prepareCached, run, Conn.execute, h]

/-- **Everything opening a cursor can do.** In an aborted transaction nothing happens; a bind
value that does not convert leaves the statement savepoint behind; a query that fails is undone
exactly; one that succeeds holds its statement savepoint. -/
lemma openCursor_cases (b : PostgresBackend ε) (q : QueryRun ρ) :
    openCursor b q = (b, none) ∨
    (b.conn.aborted = false ∧ q.bindsConvert = false ∧
      openCursor b q = ({ b with conn := begun b.conn }, none)) ∨
    (b.conn.aborted = false ∧ ∃ items,
      openCursor b q = ({ b with conn := begun b.conn }, some { stream := items })) := by
  cases ha : b.conn.aborted with
  | true => exact Or.inl (by simp [openCursor, beginStatementEx_aborted ha])
  | false =>
    have hrec : PostgresBackend.recoverStatementError { b with conn := (begun b.conn).fail } = b :=
      recoverStatementError_begun rfl rfl rfl ha
    cases hbind : q.bindsConvert with
    | false =>
      exact Or.inr (Or.inl ⟨rfl, rfl, by simp [openCursor, beginStatementEx_false ha, hbind]⟩)
    | true =>
      have hbegun : (begun b.conn).aborted = false := ha
      have hfirst := attempt_cases (b := { b with conn := begun b.conn }) q.first hbegun
      rcases hfirst with ⟨items, hf⟩ | hf | hf
      · refine Or.inr (Or.inr ⟨rfl, items, ?_⟩)
        simp [openCursor, beginStatementEx_false ha, hbind, hf]
      · -- the retry runs in the transaction the stale plan has aborted
        have hsecond := attempt_aborted (b := { b with conn := (begun b.conn).fail }) q.second rfl
        refine Or.inl ?_
        simp [openCursor, beginStatementEx_false ha, hbind, hf, hsecond, hrec]
      · exact Or.inl (by simp [openCursor, beginStatementEx_false ha, hbind, hf, hrec])

/-! ### Cursors -/

/-- Where a batch of `n` rows ends. -/
inductive BatchEnd
  | more
  | exhausted
  | failed
  deriving DecidableEq, Repr

/-- Where the next `n` rows of a stream end. -/
def batchEnd : ℕ → List (StreamItem ρ) → BatchEnd
  | 0, _ => .more
  | n + 1, .row _ :: rest => batchEnd n rest
  | _ + 1, .error :: _ => .failed
  | _ + 1, [] => .exhausted

/-- The backend after a batch, by where the batch ends. -/
def afterBatch (b : PostgresBackend ε) (held : Bool) : BatchEnd → PostgresBackend ε
  | .more => b
  | .exhausted => if held then b.finishStatement.1 else b
  | .failed => PostgresBackend.recoverStatementError { b with conn := b.conn.fail }

/-- **Everything fetching a batch can do** to the backend, and when it is answered Ok. -/
lemma nextBatch_eq (b : PostgresBackend ε) (n : ℕ) (cur : RowCursor ρ) :
    (cur.nextBatch b n).2.1 = afterBatch b cur.savepointHeld (batchEnd n cur.stream) ∧
    ((cur.nextBatch b n).2.2.isOk = true ↔ batchEnd n cur.stream ≠ .failed) := by
  induction n generalizing cur with
  | zero => exact ⟨rfl, by simp [RowCursor.nextBatch, batchEnd, Except.isOk, Except.toBool]⟩
  | succ n ih =>
    obtain ⟨stream, exhausted, held⟩ := cur
    rcases stream with _ | ⟨_ | _, rest⟩
    · cases held <;> simp [RowCursor.nextBatch, RowCursor.finish, batchEnd, afterBatch,
        Except.isOk, Except.toBool]
    · obtain ⟨hb, hok⟩ := ih { stream := rest, exhausted, savepointHeld := held }
      refine ⟨hb, ?_⟩
      rw [batchEnd, ← hok]
      simp only [RowCursor.nextBatch]
      cases (RowCursor.nextBatch b n _).2.2 <;> rfl
    · simp [RowCursor.nextBatch, batchEnd, afterBatch, run, Except.isOk, Except.toBool]

/-- Finishing a cursor releases the statement savepoint if the cursor still holds one. -/
lemma finish_snd (b : PostgresBackend ε) (cur : RowCursor ρ) :
    (cur.finish b).2 = if cur.savepointHeld then b.finishStatement.1 else b := by
  cases h : cur.savepointHeld <;> simp [RowCursor.finish, h]

end DbSaci.Backend
