import DbSaci.Backend.Ledger
import Mathlib.Data.List.TakeWhile

set_option relaxedAutoImplicit false
set_option autoImplicit false

/-!
# Client savepoints

A savepoint the client was told it has should stay on the connection until the client gives it
up. The statement savepoint of a cursor stays below every savepoint the client makes while the
cursor is open, and releasing it takes those along.

## Main definitions

* `clientNames` — the names of the client's savepoints on the connection.
* `KeepsClient` — the operation destroys no client savepoint, as a condition on the state before.
* `SavepointsKept` — the client's savepoints on the connection are those of the ledger.

## Main results

* `SavepointsKept.step` — kept by every operation that meets the condition.
* `savepointsKept_of_meets` — it holds in every state of a run whose steps all meet it.
* `finishBelowSavepoint_loses` — closing a cursor destroys a savepoint made while it was open.
-/

namespace DbSaci.Backend

open PostgresBackend

variable {ε ρ : Type}

/-- The names of the client's savepoints, the most recent one first. -/
def clientNames (stack : List (Savepoint String ε (Option ℕ) Owner)) : List String :=
  (stack.filter fun sp => sp.owner = .client).map fun sp => sp.name

/-- Releasing the most recent statement savepoint takes no client savepoint along. -/
def ReleasesOnlyProxy (c : PgConn ε) : Prop :=
  ∀ sp below, Conn.fromName dbsaciStatement c.stack = sp :: below →
    clientNames below = clientNames c.stack

/-- The most recent savepoint of a name, if there is one, was made by the client. -/
def NamesClient (c : PgConn ε) (name : String) : Prop :=
  ∀ sp below, Conn.fromName name c.stack = sp :: below → sp.owner = .client

/-- The operation destroys no client savepoint but those it means to. A cursor that gives up the
statement savepoint must have no client savepoint above it, unless the transaction is aborted and
the server refuses; and the client must not name the proxy's savepoint. -/
def KeepsClient (t : Tracked ε ρ) : Op ε ρ → Prop
  | .nextBatch i n => ∀ cur ∈ t.session.cursors[i]?,
    match batchEnd n cur.stream with
    | .more => True
    | .exhausted => cur.savepointHeld = true → t.conn.aborted = false → ReleasesOnlyProxy t.conn
    | .failed => ReleasesOnlyProxy t.conn
  | .finish i => ∀ cur ∈ t.session.cursors[i]?,
    cur.savepointHeld = true → t.conn.aborted = false → ReleasesOnlyProxy t.conn
  | .executeSimple (.release name) => t.conn.aborted = false → NamesClient t.conn name
  | .executeSimple (.rollbackTo name) => NamesClient t.conn name
  | _ => True

/-- The client's savepoints on the connection are those it was told it has. -/
def SavepointsKept (t : Tracked ε ρ) : Prop :=
  clientNames t.conn.stack = t.ledger.marks.map Prod.fst

instance (t : Tracked ε ρ) : Decidable (SavepointsKept t) := inferInstanceAs (Decidable (_ = _))

/-! ### Names on the stack -/

section Names

variable (stack above below : List (Savepoint String ε (Option ℕ) Owner))

@[simp] lemma clientNames_nil :
    clientNames ([] : List (Savepoint String ε (Option ℕ) Owner)) = [] := rfl

@[simp] lemma clientNames_client (n : String) (es : List ε) (s : Option ℕ) :
    clientNames (⟨n, .client, es, s⟩ :: stack) = n :: clientNames stack := rfl

@[simp] lemma clientNames_proxy (n : String) (es : List ε) (s : Option ℕ) :
    clientNames (⟨n, .proxy, es, s⟩ :: stack) = clientNames stack := rfl

@[simp] lemma clientNames_append :
    clientNames (above ++ below) = clientNames above ++ clientNames below := by
  simp [clientNames]

/-- A mark is found by its name alone. -/
lemma map_fst_fromMark (name : String) (marks : List (String × List ε)) :
    (Ledger.fromMark name marks).map Prod.fst =
      (marks.map Prod.fst).dropWhile fun n => n ≠ name := by
  induction marks with
  | nil => rfl
  | cons m marks ih => by_cases h : m.1 = name <;> simp [Ledger.fromMark, h, ih]

/-- The client's most recent savepoint of a name, on the stack and among the marks. -/
lemma map_fst_fromMark_of_fromName {name : String} {marks : List (String × List ε)}
    {stack below : List (Savepoint String ε (Option ℕ) Owner)}
    {sp : Savepoint String ε (Option ℕ) Owner}
    (h : clientNames stack = marks.map Prod.fst)
    (hf : Conn.fromName name stack = sp :: below) (hsp : sp.owner = .client) :
    ∃ m ms, Ledger.fromMark name marks = m :: ms ∧ m.1 = name ∧
      ms.map Prod.fst = clientNames below := by
  obtain ⟨above, heq, habove⟩ := Conn.eq_append_fromName name stack
  have hname : sp.name = name := Conn.name_of_fromName hf
  have hcons : clientNames (sp :: below) = name :: clientNames below := by
    simp [clientNames, hsp, hname]
  have hne : ∀ n ∈ clientNames above, n ≠ name := by
    simp only [clientNames, List.mem_map, List.mem_filter]
    rintro n ⟨sp', ⟨hmem, -⟩, rfl⟩
    exact habove sp' hmem
  have hmark : (Ledger.fromMark name marks).map Prod.fst = name :: clientNames below := by
    rw [map_fst_fromMark, ← h, heq, hf, clientNames_append, hcons,
      List.dropWhile_append_of_pos (by simpa using hne)]
    simp
  obtain ⟨m, ms, hm, hfst, hms⟩ := List.map_eq_cons_iff.1 hmark
  exact ⟨m, ms, hm, hfst, hms⟩

end Names

/-! ### The invariant -/

namespace SavepointsKept

variable {t : Tracked ε ρ}

lemma start (statementTimeout : Option ℕ) (committed : List ε) :
    SavepointsKept (Tracked.start statementTimeout committed : Tracked ε ρ) := rfl

/-- A step that leaves the ledger alone, and the client's savepoints on the connection. -/
lemma of_clientNames (h : SavepointsKept t) {s : Session ε ρ}
    (hs : clientNames s.backend.conn.stack = clientNames t.conn.stack) :
    SavepointsKept { t with session := s } := hs.trans h

/-- Giving up the statement savepoint. -/
lemma finishStatement_clientNames {b : PostgresBackend ε}
    (hk : b.conn.aborted = false → ReleasesOnlyProxy b.conn) :
    clientNames b.finishStatement.1.conn.stack = clientNames b.conn.stack := by
  rcases finishStatement_cases b with ⟨-, h⟩ | ⟨-, -, h⟩ | ⟨ha, sp, below, hf, h⟩
  · rw [h]
  · rw [h]; rfl
  · rw [h]; exact hk ha sp below hf

/-- Rolling back to the statement savepoint and giving it up. -/
lemma recover_clientNames {b : PostgresBackend ε} (hk : ReleasesOnlyProxy b.conn) :
    clientNames b.recoverStatementError.conn.stack = clientNames b.conn.stack := by
  rcases recover_cases b with ⟨-, h⟩ | ⟨sp, below, hf, h⟩
  · rw [h]; rfl
  · rw [h]; exact hk sp below hf

/-! #### One lemma for each operation -/

lemma step_openCursor (h : SavepointsKept t) (q : QueryRun ρ) :
    SavepointsKept (t.step (.openCursor q)) := by
  rcases openCursor_cases t.session.backend q with hq | ⟨-, -, hq⟩ | ⟨-, items, hq⟩
  all_goals simp only [Tracked.step, Session.step, Ledger.step_openCursor, hq]
  · exact h
  · exact h.of_clientNames rfl
  · exact h.of_clientNames rfl

lemma step_nextBatch (h : SavepointsKept t) (i n : ℕ) (hk : KeepsClient t (.nextBatch i n)) :
    SavepointsKept (t.step (.nextBatch i n)) := by
  cases hi : t.session.cursors[i]? with
  | none => simpa only [Tracked.step, Session.step, Ledger.step_nextBatch, hi] using h
  | some cur =>
    simp only [KeepsClient, hi, Option.mem_some_iff, forall_eq'] at hk
    simp only [Tracked.step, Session.step, Ledger.step_nextBatch, hi,
      (nextBatch_eq t.session.backend n cur).1]
    refine h.of_clientNames ?_
    cases hb : batchEnd n cur.stream with
    | more => rfl
    | exhausted =>
      simp only [hb] at hk
      cases hheld : cur.savepointHeld with
      | true => exact finishStatement_clientNames (hk hheld)
      | false => rfl
    | failed =>
      simp only [hb] at hk
      exact recover_clientNames (b := { t.session.backend with conn := t.conn.fail }) hk

lemma step_finish (h : SavepointsKept t) (i : ℕ) (hk : KeepsClient t (.finish i)) :
    SavepointsKept (t.step (.finish i)) := by
  cases hi : t.session.cursors[i]? with
  | none => simpa only [Tracked.step, Session.step, Ledger.step_finish, hi] using h
  | some cur =>
    simp only [KeepsClient, hi, Option.mem_some_iff, forall_eq'] at hk
    simp only [Tracked.step, Session.step, Ledger.step_finish, hi, finish_snd]
    refine h.of_clientNames ?_
    cases hheld : cur.savepointHeld with
    | true => exact finishStatement_clientNames (hk hheld)
    | false => rfl

lemma step_statement (h : SavepointsKept t) (s : StatementRun ε) :
    SavepointsKept (t.step (.executeSimple (.statement s))) := by
  rcases executeStatement_cases t.session.backend s with ⟨-, hs⟩ | ⟨-, -, hs⟩ |
    ⟨-, -, -, st, hs⟩ | ⟨-, -, -, hs⟩ | ⟨-, -, st, es, -, hs⟩
  all_goals
    simp only [Tracked.step, Session.step, executeSimple,
      Ledger.step_statement, Ledger.step_failed, hs]
    exact h

lemma step_set (h : SavepointsKept t) (accepted : Bool) :
    SavepointsKept (t.step (.executeSimple (.set accepted))) := by
  refine h.of_clientNames (s := (t.session.step (.executeSimple (.set accepted))).1) ?_
  cases hab : t.conn.aborted with
  | true => simp [Session.step, executeSimple, Conn.execute_aborted hab]
  | false => cases accepted <;>
      simp [Session.step, executeSimple, Conn.execute_nil hab, Conn.execute_none hab]

lemma step_savepoint (h : SavepointsKept t) (name : String) :
    SavepointsKept (t.step (.executeSimple (.savepoint name))) := by
  rcases Conn.savepoint_cases t.conn name .client with ⟨-, hs⟩ | ⟨-, hs⟩
  all_goals simp only [Tracked.step, Session.step, executeSimple, run, hs,
    Ledger.step_savepoint, Ledger.step_failed]
  · exact h
  · exact congrArg (name :: ·) h

lemma step_release (h : SavepointsKept t) (name : String)
    (hk : KeepsClient t (.executeSimple (.release name))) :
    SavepointsKept (t.step (.executeSimple (.release name))) := by
  rcases Conn.release_cases t.conn name with ⟨-, hr⟩ | ⟨-, -, hr⟩ | ⟨ha, sp, below, hf, hr⟩
  all_goals simp only [Tracked.step, Session.step, executeSimple, run, hr,
    Ledger.step_release, Ledger.step_failed]
  · exact h
  · exact h
  · obtain ⟨m, ms, hm, -, hms⟩ := map_fst_fromMark_of_fromName h hf (hk ha sp below hf)
    simpa [SavepointsKept, Ledger.release, hm] using hms.symm

lemma step_rollbackTo (h : SavepointsKept t) (name : String)
    (hk : KeepsClient t (.executeSimple (.rollbackTo name))) :
    SavepointsKept (t.step (.executeSimple (.rollbackTo name))) := by
  rcases Conn.rollbackTo_cases t.conn name with ⟨-, hr⟩ | ⟨sp, below, hf, hr⟩
  all_goals simp only [Tracked.step, Session.step, executeSimple, run, hr,
    Ledger.step_rollbackTo, Ledger.step_failed]
  · exact h
  · have hsp : sp.owner = .client := hk sp below hf
    have hname : sp.name = name := Conn.name_of_fromName hf
    obtain ⟨m, ms, hm, hfst, hms⟩ := map_fst_fromMark_of_fromName h hf hsp
    simp [SavepointsKept, Ledger.rollbackTo, hm, hms, hfst, clientNames, hsp, hname]

lemma step_executeSimple (h : SavepointsKept t) (text : SimpleText ε)
    (hk : KeepsClient t (.executeSimple text)) :
    SavepointsKept (t.step (.executeSimple text)) := by
  cases text with
  | commit => rfl
  | rollback => rfl
  | begin => exact h
  | set accepted => exact h.step_set accepted
  | savepoint name => exact h.step_savepoint name
  | release name => exact h.step_release name hk
  | rollbackTo name => exact h.step_rollbackTo name hk
  | statement s => exact h.step_statement s

lemma step_executeDdl (t : Tracked ε ρ) (d : DdlRun ε) :
    SavepointsKept (t.step (.executeDdl d)) := by
  have hfresh : (t.conn.commit).aborted = false := rfl
  cases hbind : d.bindsConvert with
  | false =>
    simp only [Tracked.step, Session.step, executeDdl, run, hbind]
    rfl
  | true =>
    cases hres : d.result with
    | none =>
      simp only [Tracked.step, Session.step, executeDdl, run, hbind, hres,
        Conn.execute_none hfresh]
      rfl
    | some es =>
      simp only [Tracked.step, Session.step, executeDdl, run, hbind, hres,
        Conn.execute_some hfresh]
      rfl

/-- **The client's savepoints are kept** by every operation that meets the condition. -/
lemma step (h : SavepointsKept t) (op : Op ε ρ) (hk : KeepsClient t op) :
    SavepointsKept (t.step op) := by
  cases op with
  | openCursor q => exact h.step_openCursor q
  | nextBatch i n => exact h.step_nextBatch i n hk
  | finish i => exact h.step_finish i hk
  | executeSimple text => exact h.step_executeSimple text hk
  | executeDdl d => exact step_executeDdl t d
  | endTransaction commit => cases commit <;> rfl

end SavepointsKept

/-! ### Runs -/

/-- **In a run whose steps all meet the condition, every state has all the savepoints the client
was told it has.** -/
theorem savepointsKept_of_meets (statementTimeout : Option ℕ) (committed : List ε)
    (pre post : List (Op ε ρ))
    (h : Tracked.Meets KeepsClient (.start statementTimeout committed) (pre ++ post)) :
    SavepointsKept ((Tracked.start statementTimeout committed).run pre) :=
  Tracked.run_induction (SavepointsKept.start _ _) (fun _ op hs hk => hs.step op hk) pre
    h.of_append

/-- A savepoint made before a cursor is opened survives the cursor. -/
theorem savepointBelowCursor_kept :
    SavepointsKept ((Tracked.start none [] : Tracked ℕ ℕ).run
      [.executeSimple (.savepoint "s"), .query [.row 0], .finish 0]) :=
  savepointsKept_of_meets none [] _ [] <| by
    simp only [List.append_nil, Tracked.meets_cons, Tracked.meets_nil, and_true]
    refine ⟨trivial, trivial, ?_⟩
    rintro cur ⟨⟩ - - sp below ⟨⟩
    rfl

/-- A savepoint made while a cursor is open is destroyed when the cursor is closed, although the
client has not given it up. -/
theorem finishBelowSavepoint_loses :
    ¬ SavepointsKept ((Tracked.start none [] : Tracked ℕ ℕ).run
      [.query [.row 0], .executeSimple (.savepoint "s"), .finish 0]) := by
  decide

end DbSaci.Backend
