import DbSaci.Backend.Ledger
import DbSaci.Library.Runs

set_option relaxedAutoImplicit false
set_option autoImplicit false

/-!
# The timeout of a statement, and the queries behind it

A statement that is no query sets its timeout for the transaction. Releasing the savepoint of the
statement keeps the setting, and what is streamed later in the transaction runs under it.

## Main definitions

* `noteTimeout` — which statements of a transaction have set their timeout, from the answers.
* `Timed`, `Timed.step` — a session with that account.
* `StreamsFreely` — a query is opened, or a batch fetched, while no timeout is in force.

## Main results

* `Accounted.step` — a timeout that is in force was set by a statement of the account.
* `streamsFreely_of_guarded` — queries run freely if they come before the statements.
-/

namespace DbSaci.Backend

open PostgresBackend

variable {ε ρ : Type}

/-! ### The account -/

/-- Which statements have set their timeout in the transaction, and before which savepoints of the
client. A statement that has failed is undone with its setting, unless its values did not
convert. Savepoints with the name of the savepoint of a statement do not count. -/
def noteTimeout (l : Ledger Unit) (op : Op ε ρ) (ok : Bool) : Ledger Unit :=
  match op with
  | .executeSimple (.statement s) =>
    if ok = true ∨ s.bindsConvert = false then { l with acked := l.acked ++ [()] } else l
  | .executeSimple (.savepoint name) =>
    if ok = true ∧ name ≠ dbsaciStatement then l.savepoint name else l
  | .executeSimple (.release name) =>
    if ok = true ∧ name ≠ dbsaciStatement then l.release name else l
  | .executeSimple (.rollbackTo name) =>
    if ok = true ∧ name ≠ dbsaciStatement then l.rollbackTo name else l
  | .executeSimple .commit | .executeSimple .rollback | .executeDdl _ | .endTransaction _ => {}
  | _ => l

section NoteTimeout

variable (l : Ledger Unit) (ok : Bool) (name : String)

@[simp] lemma noteTimeout_openCursor (q : QueryRun ρ) :
    noteTimeout l (.openCursor q : Op ε ρ) ok = l := rfl

@[simp] lemma noteTimeout_nextBatch (i n : ℕ) :
    noteTimeout l (.nextBatch i n : Op ε ρ) ok = l := rfl

@[simp] lemma noteTimeout_finish (i : ℕ) : noteTimeout l (.finish i : Op ε ρ) ok = l := rfl

@[simp] lemma noteTimeout_executeDdl (d : DdlRun ε) :
    noteTimeout l (.executeDdl d : Op ε ρ) ok = {} := rfl

@[simp] lemma noteTimeout_set (accepted : Bool) :
    noteTimeout l (.executeSimple (.set accepted) : Op ε ρ) ok = l := rfl

@[simp] lemma noteTimeout_statement (s : StatementRun ε) :
    noteTimeout l (.executeSimple (.statement s) : Op ε ρ) ok =
      if ok = true ∨ s.bindsConvert = false then { l with acked := l.acked ++ [()] } else l := rfl

@[simp] lemma noteTimeout_savepoint :
    noteTimeout l (.executeSimple (.savepoint name) : Op ε ρ) ok =
      if ok = true ∧ name ≠ dbsaciStatement then l.savepoint name else l := rfl

@[simp] lemma noteTimeout_release :
    noteTimeout l (.executeSimple (.release name) : Op ε ρ) ok =
      if ok = true ∧ name ≠ dbsaciStatement then l.release name else l := rfl

@[simp] lemma noteTimeout_rollbackTo :
    noteTimeout l (.executeSimple (.rollbackTo name) : Op ε ρ) ok =
      if ok = true ∧ name ≠ dbsaciStatement then l.rollbackTo name else l := rfl

end NoteTimeout

/-- A session with the account of its timeouts. -/
structure Timed (ε ρ : Type) where
  session : Session ε ρ
  timeouts : Ledger Unit := {}

/-- The connection of the session. -/
abbrev Timed.conn (t : Timed ε ρ) : PgConn ε := t.session.backend.conn

/-- Run one operation and note its timeout. -/
def Timed.step (t : Timed ε ρ) (op : Op ε ρ) : Timed ε ρ where
  session := (t.session.step op).1
  timeouts := noteTimeout t.timeouts op (t.session.step op).2

/-- The steps of a session. -/
def Timed.Step (t : Timed ε ρ) (op : Op ε ρ) (u : Timed ε ρ) : Prop := u = t.step op

/-- A session that has just connected. -/
def Timed.start (statementTimeout : Option ℕ) (committed : List ε) : Timed ε ρ where
  session := Session.start statementTimeout committed

/-- The operations that run a query: it is opened, or rows of it are fetched. -/
def Op.streams : Op ε ρ → Prop
  | .openCursor _ | .nextBatch _ _ => True
  | _ => False

/-- **No timeout is in force** while a query is opened or a batch is fetched. -/
def StreamsFreely (t : Timed ε ρ) (op : Op ε ρ) : Prop := op.streams → t.conn.settings = none

/-- A query comes before the statements of the transaction, but for those that have been undone. -/
def BeforeStatements (t : Timed ε ρ) (op : Op ε ρ) : Prop := op.streams → t.timeouts.acked = []

/-! ### Savepoints and marks -/

/-- A savepoint of the connection that has a timeout to restore was made behind a statement of the
account. The savepoints of the client are among the marks, unless they have the name of the
savepoint of a statement. -/
inductive Covers : List (String × List Unit) → List (Savepoint String ε (Option ℕ) Owner) →
    List Unit → Prop
  | nil (acked : List Unit) : Covers [] [] acked
  | gone {marks stack acked} (name : String) (h : Covers marks stack acked) :
    Covers ((name, acked) :: marks) stack acked
  | both {marks stack acked} (sp : Savepoint String ε (Option ℕ) Owner)
    (h : Covers marks stack acked) (hsp : sp.settings ≠ none → acked ≠ []) :
    Covers ((sp.name, acked) :: marks) (sp :: stack) acked
  | unmarked {marks stack acked} (sp : Savepoint String ε (Option ℕ) Owner)
    (h : Covers marks stack acked) (hname : sp.name = dbsaciStatement)
    (hsp : sp.settings ≠ none → acked ≠ []) : Covers marks (sp :: stack) acked
  | more {marks stack acked} (h : Covers marks stack acked) : Covers marks stack (acked ++ [()])

namespace Covers

variable {marks : List (String × List Unit)} {name : String}
  {stack above below : List (Savepoint String ε (Option ℕ) Owner)} {acked : List Unit}
  {sp : Savepoint String ε (Option ℕ) Owner}

lemma tail (h : Covers marks (sp :: below) acked) : Covers marks below acked := by
  generalize hstack : sp :: below = stack at h
  induction h with
  | nil acked => cases hstack
  | gone name h ih => exact .gone name (ih hstack)
  | both sp' h hsp ih =>
    obtain ⟨rfl, rfl⟩ := List.cons.inj hstack
    exact .gone _ h
  | unmarked sp' h hname hsp ih =>
    obtain ⟨rfl, rfl⟩ := List.cons.inj hstack
    exact h
  | more h ih => exact .more (ih hstack)

lemma of_append (h : Covers marks (above ++ below) acked) : Covers marks below acked := by
  induction above with
  | nil => exact h
  | cons sp above ih => exact ih h.tail

lemma fromName (h : Covers marks stack acked) (name : String) :
    Covers marks (Conn.fromName name stack) acked := by
  obtain ⟨above, heq, -⟩ := Conn.eq_append_fromName name stack
  rw [heq] at h
  exact h.of_append

/-- A timeout to restore was set by a statement of the account. -/
lemma acked_ne_nil (h : Covers marks stack acked) (hmem : sp ∈ stack) (hsp : sp.settings ≠ none) :
    acked ≠ [] := by
  induction h with
  | nil acked => cases hmem
  | gone name h ih => exact ih hmem
  | both sp' h hsp' ih =>
    rcases List.mem_cons.1 hmem with rfl | hmem
    · exact hsp' hsp
    · exact ih hmem
  | unmarked sp' h hname hsp' ih =>
    rcases List.mem_cons.1 hmem with rfl | hmem
    · exact hsp' hsp
    · exact ih hmem
  | more h ih => exact List.append_ne_nil_of_right_ne_nil _ (List.cons_ne_nil _ _)

/-- Rolling back to a savepoint of the client rolls the account back to a mark of that name, the
same one or a later one. -/
lemma rollbackTo (h : Covers marks stack acked) (hname : name ≠ dbsaciStatement)
    (hf : Conn.fromName name stack = sp :: below) :
    ∃ m ms, Ledger.fromMark name marks = m :: ms ∧ Covers (m :: ms) (sp :: below) m.2 := by
  induction h with
  | nil acked => cases hf
  | gone name' h ih =>
    rw [Ledger.fromMark]
    split_ifs with heq
    · exact ⟨_, _, rfl, .gone _ (hf ▸ h.fromName name)⟩
    · exact ih hf
  | both sp' h hsp ih =>
    rw [Ledger.fromMark]
    rw [Conn.fromName] at hf
    split_ifs at hf ⊢ with heq
    · obtain ⟨rfl, rfl⟩ := List.cons.inj hf
      exact ⟨_, _, rfl, .both _ h hsp⟩
    · exact ih hf
  | unmarked sp' h hname' hsp ih =>
    rw [Conn.fromName_cons_of_ne (hname' ▸ hname.symm)] at hf
    exact ih hf
  | more h ih => exact ih hf

/-- Releasing a savepoint of the client takes a mark of that name from the account. -/
lemma release (h : Covers marks stack acked) (hname : name ≠ dbsaciStatement)
    (hf : Conn.fromName name stack = sp :: below) :
    ∃ m ms, Ledger.fromMark name marks = m :: ms ∧ Covers ms below acked := by
  induction h with
  | nil acked => cases hf
  | gone name' h ih =>
    rw [Ledger.fromMark]
    split_ifs with heq
    · exact ⟨_, _, rfl, (hf ▸ h.fromName name).tail⟩
    · exact ih hf
  | both sp' h hsp ih =>
    rw [Ledger.fromMark]
    rw [Conn.fromName] at hf
    split_ifs at hf ⊢ with heq
    · obtain ⟨rfl, rfl⟩ := List.cons.inj hf
      exact ⟨_, _, rfl, h⟩
    · exact ih hf
  | unmarked sp' h hname' hsp ih =>
    rw [Conn.fromName_cons_of_ne (hname' ▸ hname.symm)] at hf
    exact ih hf
  | more h ih =>
    obtain ⟨m, ms, hm, hms⟩ := ih hf
    exact ⟨m, ms, hm, .more hms⟩

end Covers

/-! ### The invariant -/

/-- A timeout that is in force, or that a savepoint restores, was set by a statement of the
account. -/
structure Accounted (l : Ledger Unit) (c : PgConn ε) : Prop where
  covers : Covers l.marks c.stack l.acked
  settings : c.settings ≠ none → l.acked ≠ []
  base : c.base = none

namespace Accounted

variable {l : Ledger Unit} {c d : PgConn ε} {b : PostgresBackend ε}

/-- What has changed is neither a setting nor a savepoint. -/
lemma congr (h : Accounted l c) (hstack : d.stack = c.stack) (hsettings : d.settings = c.settings)
    (hbase : d.base = c.base) : Accounted l d := by
  refine ⟨?_, ?_, hbase.trans h.base⟩
  · rw [hstack]
    exact h.covers
  · rw [hsettings]
    exact h.settings

/-- The savepoint of a statement is made. -/
lemma begun (h : Accounted l c) : Accounted l (begun c) :=
  ⟨.unmarked _ h.covers rfl h.settings, h.settings, h.base⟩

/-- Savepoints are released from one of a name on. -/
lemma popped (h : Accounted l c) {name : String} {sp : Savepoint String ε (Option ℕ) Owner}
    {below : List (Savepoint String ε (Option ℕ) Owner)}
    (hf : Conn.fromName name c.stack = sp :: below) : Accounted l { c with stack := below } :=
  ⟨(hf ▸ h.covers.fromName name).tail, h.settings, h.base⟩

/-- A savepoint of a name is restored. -/
lemma restored (h : Accounted l c) {name : String} {sp : Savepoint String ε (Option ℕ) Owner}
    {below : List (Savepoint String ε (Option ℕ) Owner)}
    (hf : Conn.fromName name c.stack = sp :: below) :
    Accounted l { c with effects := sp.effects, settings := sp.settings, stack := sp :: below,
                         aborted := false } :=
  ⟨hf ▸ h.covers.fromName name,
    fun hsp => (hf ▸ h.covers.fromName name).acked_ne_nil List.mem_cons_self hsp, h.base⟩

/-- A statement has set its timeout. -/
lemma noted (h : Accounted l c) (settings : Option ℕ) (effects : List ε) :
    Accounted { l with acked := l.acked ++ [()] } { c with settings, effects } :=
  ⟨h.covers.more, fun _ => List.append_ne_nil_of_right_ne_nil _ (List.cons_ne_nil _ _), h.base⟩

lemma finishStatement (h : Accounted l b.conn) : Accounted l b.finishStatement.1.conn := by
  rcases finishStatement_cases b with ⟨-, hb⟩ | ⟨-, -, hb⟩ | ⟨-, sp, below, hf, hb⟩
  · rw [hb]
    exact h
  · rw [hb]
    exact h.congr rfl rfl rfl
  · rw [hb]
    exact h.popped hf

lemma recoverStatementError (h : Accounted l b.conn) :
    Accounted l b.recoverStatementError.conn := by
  rcases recover_cases b with ⟨-, hb⟩ | ⟨sp, below, hf, hb⟩
  · rw [hb]
    exact h.congr rfl rfl rfl
  · rw [hb]
    have hsp : Conn.fromName sp.name (sp :: below) = sp :: below := by
      rw [Conn.fromName, if_pos rfl]
    exact (h.restored hf).popped hsp

lemma finish (h : Accounted l b.conn) (cur : RowCursor ρ) : Accounted l (cur.finish b).2.conn := by
  rw [finish_snd]
  split_ifs
  · exact h.finishStatement
  · exact h

lemma finishAll (h : Accounted l b.conn) (cursors : List (RowCursor ρ)) :
    Accounted l (finishAll cursors b).conn := by
  induction cursors generalizing b with
  | nil => exact h
  | cons cur cursors ih => exact ih (h.finish cur)

end Accounted

/-! ### One lemma for each operation -/

section Steps

variable {t : Timed ε ρ}

lemma accounted_openCursor (h : Accounted t.timeouts t.conn) (q : QueryRun ρ) :
    Accounted (t.step (.openCursor q)).timeouts (t.step (.openCursor q)).conn := by
  rcases openCursor_cases t.session.backend q with hq | ⟨-, -, hq⟩ | ⟨-, items, hq⟩
  all_goals simp only [Timed.step, Timed.conn, Session.step, noteTimeout_openCursor, hq]
  · exact h
  · exact h.begun
  · exact h.begun

lemma accounted_nextBatch (h : Accounted t.timeouts t.conn) (i n : ℕ) :
    Accounted (t.step (.nextBatch i n)).timeouts (t.step (.nextBatch i n)).conn := by
  cases hi : t.session.cursors[i]? with
  | none =>
    simp only [Timed.step, Timed.conn, Session.step, noteTimeout_nextBatch, hi]
    exact h
  | some cur =>
    simp only [Timed.step, Timed.conn, Session.step, noteTimeout_nextBatch, hi,
      (nextBatch_eq t.session.backend n cur).1]
    cases batchEnd n cur.stream with
    | more => exact h
    | exhausted =>
      rw [afterBatch]
      split_ifs
      · exact h.finishStatement
      · exact h
    | failed =>
      exact Accounted.recoverStatementError (b := { t.session.backend with conn := t.conn.fail })
        (h.congr rfl rfl rfl)

lemma accounted_finish (h : Accounted t.timeouts t.conn) (i : ℕ) :
    Accounted (t.step (.finish i)).timeouts (t.step (.finish i)).conn := by
  cases hi : t.session.cursors[i]? with
  | none =>
    simp only [Timed.step, Timed.conn, Session.step, noteTimeout_finish, hi]
    exact h
  | some cur =>
    simp only [Timed.step, Timed.conn, Session.step, noteTimeout_finish, hi]
    exact h.finish cur

lemma accounted_statement (h : Accounted t.timeouts t.conn) (s : StatementRun ε) :
    Accounted (t.step (.executeSimple (.statement s))).timeouts
      (t.step (.executeSimple (.statement s))).conn := by
  have hkeep : ∀ {c : PgConn ε}, Accounted t.timeouts c →
      Accounted (noteTimeout t.timeouts (.executeSimple (.statement s) : Op ε ρ) false) c := by
    intro c hc
    rw [noteTimeout_statement]
    by_cases hbind : false = true ∨ s.bindsConvert = false
    · rw [if_pos hbind]
      exact hc.noted c.settings c.effects
    · rw [if_neg hbind]
      exact hc
  rcases executeStatement_cases t.session.backend s with ⟨-, hs⟩ | ⟨-, -, hs⟩ |
    ⟨-, -, hbind, st, hs⟩ | ⟨-, -, -, hs⟩ | ⟨-, -, st, es, -, hs⟩
  all_goals simp only [Timed.step, Timed.conn, Session.step, executeSimple, hs]
  · exact hkeep h
  · exact hkeep (h.begun.congr rfl rfl rfl)
  · rw [noteTimeout_statement, if_pos (.inr hbind)]
    exact h.begun.noted st t.conn.effects
  · exact hkeep h
  · rw [noteTimeout_statement, if_pos (.inl rfl)]
    exact h.noted st _

lemma accounted_set (h : Accounted t.timeouts t.conn) (accepted : Bool) :
    Accounted (t.step (.executeSimple (.set accepted))).timeouts
      (t.step (.executeSimple (.set accepted))).conn := by
  simp only [Timed.step, Timed.conn, Session.step, executeSimple, noteTimeout_set, run_conn]
  cases hab : t.conn.aborted with
  | true =>
    rw [Conn.execute_aborted hab]
    exact h
  | false =>
    cases accepted with
    | true =>
      rw [if_pos rfl, Conn.execute_nil hab]
      exact h
    | false =>
      rw [if_neg Bool.false_ne_true, Conn.execute_none hab]
      exact h.congr rfl rfl rfl

lemma accounted_savepoint (h : Accounted t.timeouts t.conn) (name : String) :
    Accounted (t.step (.executeSimple (.savepoint name))).timeouts
      (t.step (.executeSimple (.savepoint name))).conn := by
  rcases Conn.savepoint_cases t.conn name .client with ⟨-, hs⟩ | ⟨-, hs⟩
  all_goals simp only [Timed.step, Timed.conn, Session.step, executeSimple, run, hs, noteTimeout_savepoint]
  · rw [if_neg fun hc => Bool.false_ne_true hc.1]
    exact h
  · split_ifs with hname
    · exact ⟨.both ⟨name, .client, _, _⟩ h.covers h.settings, h.settings, h.base⟩
    · have heq : name = dbsaciStatement := by
        by_contra hne
        exact hname ⟨trivial, hne⟩
      exact ⟨.unmarked _ h.covers heq h.settings, h.settings, h.base⟩

lemma accounted_release (h : Accounted t.timeouts t.conn) (name : String) :
    Accounted (t.step (.executeSimple (.release name))).timeouts
      (t.step (.executeSimple (.release name))).conn := by
  rcases Conn.release_cases t.conn name with ⟨-, hs⟩ | ⟨-, -, hs⟩ | ⟨-, sp, below, hf, hs⟩
  all_goals simp only [Timed.step, Timed.conn, Session.step, executeSimple, run, hs, noteTimeout_release]
  · rw [if_neg fun hc => Bool.false_ne_true hc.1]
    exact h
  · rw [if_neg fun hc => Bool.false_ne_true hc.1]
    exact h.congr rfl rfl rfl
  · split_ifs with hname
    · obtain ⟨m, ms, hm, hms⟩ := h.covers.release hname.2 hf
      rw [Ledger.release, hm]
      exact ⟨hms, h.settings, h.base⟩
    · exact h.popped hf

lemma accounted_rollbackTo (h : Accounted t.timeouts t.conn) (name : String) :
    Accounted (t.step (.executeSimple (.rollbackTo name))).timeouts
      (t.step (.executeSimple (.rollbackTo name))).conn := by
  rcases Conn.rollbackTo_cases t.conn name with ⟨-, hs⟩ | ⟨sp, below, hf, hs⟩
  all_goals simp only [Timed.step, Timed.conn, Session.step, executeSimple, run, hs, noteTimeout_rollbackTo]
  · rw [if_neg fun hc => Bool.false_ne_true hc.1]
    exact h.congr rfl rfl rfl
  · split_ifs with hname
    · obtain ⟨m, ms, hm, hms⟩ := h.covers.rollbackTo hname.2 hf
      rw [Ledger.rollbackTo, hm]
      exact ⟨hms, fun hsp => hms.acked_ne_nil List.mem_cons_self hsp, h.base⟩
    · exact h.restored hf

lemma accounted_executeDdl (h : Accounted t.timeouts t.conn) (d : DdlRun ε) :
    Accounted (t.step (.executeDdl d)).timeouts (t.step (.executeDdl d)).conn := by
  have hfresh : (t.conn.commit).aborted = false := rfl
  have hbase : t.session.backend.conn.base = none := h.base
  cases hbind : d.bindsConvert with
  | false =>
    simp only [Timed.step, Timed.conn, Session.step, executeDdl, run, hbind, noteTimeout_executeDdl]
    exact ⟨.nil [], fun hsp => absurd hbase hsp, hbase⟩
  | true =>
    cases hres : d.result with
    | none =>
      simp only [Timed.step, Timed.conn, Session.step, executeDdl, run, hbind, hres,
        Conn.execute_none hfresh, noteTimeout_executeDdl]
      exact ⟨.nil [], fun hsp => absurd hbase hsp, hbase⟩
    | some es =>
      simp only [Timed.step, Timed.conn, Session.step, executeDdl, run, hbind, hres,
        Conn.execute_some hfresh, noteTimeout_executeDdl]
      exact ⟨.nil [], fun hsp => absurd hbase hsp, hbase⟩

lemma accounted_endTransaction (h : Accounted t.timeouts t.conn) (commit : Bool) :
    Accounted (t.step (.endTransaction commit)).timeouts (t.step (.endTransaction commit)).conn := by
  have hbase := (h.finishAll (b := t.session.backend) t.session.cursors).base
  cases commit <;> exact ⟨.nil [], fun hsp => absurd hbase hsp, hbase⟩

/-- **A timeout in force was set by a statement of the account**, after each operation. -/
theorem Accounted.step (h : Accounted t.timeouts t.conn) (op : Op ε ρ) :
    Accounted (t.step op).timeouts (t.step op).conn := by
  cases op with
  | openCursor q => exact accounted_openCursor h q
  | nextBatch i n => exact accounted_nextBatch h i n
  | finish i => exact accounted_finish h i
  | executeDdl d => exact accounted_executeDdl h d
  | endTransaction commit => exact accounted_endTransaction h commit
  | executeSimple text =>
    cases text with
    | commit => exact ⟨.nil [], fun hsp => absurd h.base hsp, h.base⟩
    | rollback => exact ⟨.nil [], fun hsp => absurd h.base hsp, h.base⟩
    | begin => exact h
    | set accepted => exact accounted_set h accepted
    | savepoint name => exact accounted_savepoint h name
    | release name => exact accounted_release h name
    | rollbackTo name => exact accounted_rollbackTo h name
    | statement s => exact accounted_statement h s

end Steps

/-! ### Runs -/

/-- **No query runs under the timeout of a statement** in a run in which queries are opened and
fetched before the statements of their transaction, or after those have been undone. -/
theorem streamsFreely_of_guarded (statementTimeout : Option ℕ) (committed : List ε)
    (ops : List (Op ε ρ)) (t u : Timed ε ρ) (op : Op ε ρ)
    (hrun : Run (Guarded Timed.Step BeforeStatements) (.start statementTimeout committed) ops t)
    (hstep : Guarded Timed.Step BeforeStatements t op u) : StreamsFreely t op := by
  have haccounted : Accounted t.timeouts t.conn := by
    refine hrun.invariant (P := fun s => Accounted s.timeouts s.conn)
      ⟨.nil [], fun hsp => absurd rfl hsp, rfl⟩ ?_
    rintro s a _ hs ⟨rfl, -⟩
    exact hs.step a
  intro hstreams
  by_contra hset
  exact haccounted.settings hset (hstep.2 hstreams)

/-- A query in the transaction behind a statement that has been committed. -/
theorem queryBehindCommit_free :
    StreamsFreely
      (((Timed.start (some 5) [] : Timed ℕ ℕ).step (.dml (some [7]))).step (.executeSimple .commit))
      (.query [.row 0]) :=
  streamsFreely_of_guarded (some 5) [] [.dml (some [7]), .executeSimple .commit] _ _ _
    (.cons ⟨rfl, False.elim⟩ (.cons ⟨rfl, False.elim⟩ (.nil _))) ⟨rfl, fun _ => rfl⟩

/-- A query behind a statement runs under the timeout of that statement. -/
theorem queryBehindStatement_timed : ∃ t u : Timed ℕ ℕ,
    Run Timed.Step (.start (some 5) []) [.dml (some [7])] t ∧
      Timed.Step t (.query [.row 0]) u ∧ ¬ StreamsFreely t (.query [.row 0]) := by
  refine ⟨_, _, .cons rfl (.nil _), rfl, fun hfree => ?_⟩
  have hset : (((Timed.start (some 5) [] : Timed ℕ ℕ).step (.dml (some [7]))).conn).settings =
      some 5 := by decide
  cases hset.symm.trans (hfree trivial)

end DbSaci.Backend
