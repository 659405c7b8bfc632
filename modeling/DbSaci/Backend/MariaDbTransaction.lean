import DbSaci.Backend.MariaDb

set_option relaxedAutoImplicit false
set_option autoImplicit false

/-!
# Work that can still be rolled back, in MariaDB

A client counts on its changes not being committed before it says so. They are not as long as the
session stays inside of a transaction and no operation but COMMIT, SET TRANSACTION and DDL commits.

## Main definitions

* `MariaOp.isPoint` — the operations that may commit.
* `Kept` — what the client counts on, for one operation.
* `KeepsTransaction` — when an operation keeps it, as a condition on its replies.

## Main results

* `kept_iff` — inside of a transaction the condition is exact.
* `each_kept_iff` — a run keeps the transaction exactly if each of its steps meets the condition.
* `ddl_not_kept` — DDL that cannot be prepared leaves no transaction open.
* `run_committed` — a ROLLBACK goes back to the last operation that may commit.
-/

namespace DbSaci.Backend.Maria

open MariaConn

variable {ε : Type}

/-! ### The property -/

/-- The session is inside of an open transaction. -/
def Inside (c : MariaConn ε) : Prop := c.up = true ∧ c.db.work.isSome = true

/-- The operations that may commit. -/
def MariaOp.isPoint : MariaOp ε → Prop
  | .executeSimple (.commit _ _) | .executeSimple (.setTransaction _ _ _) | .executeDdl _ => True
  | _ => False

/-- The operation is a ROLLBACK. -/
def MariaOp.isRollback : MariaOp ε → Prop
  | .executeSimple (.rollback _ _) => True
  | _ => False

/-- **What the client counts on**: only the operations that may commit do, a ROLLBACK that is
answered Ok restores what is committed, and the session is inside of a transaction again. -/
structure Kept (c : MariaConn ε) (op : MariaOp ε) : Prop where
  committed : ¬ op.isPoint → (c.step op).1.db.committed = c.db.committed
  rollback : op.isRollback → (c.step op).2 = none → (c.step op).1.db.visible = c.db.committed
  inside : Inside (c.step op).1

/-- What follows on a command holds if it is done, and the link does not break. -/
def Reply.link (r : Reply) (next : Prop) : Prop :=
  match r with
  | .ok => next
  | .refused _ => True
  | .lost _ _ => False

/-- What follows on a statement holds if it is done, and the link does not break. -/
def Outcome.link (o : Outcome ε) (next : Prop) : Prop :=
  match o with
  | .done _ => next
  | .refused _ _ => True
  | .lost _ _ => False

/-- What follows on several statements. -/
def linkAll : List (Outcome ε) → Prop → Prop
  | [], next => next
  | o :: os, next => o.link (linkAll os next)

/-- A statement keeps the transaction `d` is in: a block that is done must have had nothing to
commit. -/
def Body.keeps (d : Db String ε) : Body ε → Prop
  | .batch savepoint os release => savepoint.link (linkAll os (release.link True))
  | .program o start =>
    match o with
    | .done es => start.link (d.pending = [] ∧ es = [])
    | .refused _ _ => True
    | .lost _ _ => False
  | .single savepoint o release rollbackTo releaseAfter =>
    savepoint.link (match o with
      | .done _ => release.link True
      | .refused _ _ => rollbackTo.link True ∧ releaseAfter.link True
      | .lost _ _ => False)

/-- A text keeps the transaction `d` is in: after what ends one, one is begun. -/
def SimpleText.keeps (d : Db String ε) : SimpleText ε → Prop
  | .unknownSequence | .begin => True
  | .insteadOf o => o.link True
  | .commit r start | .rollback r start => r.link (start = .ok)
  | .setTransaction r set start => r.link (set = .ok ∧ start = .ok)
  | .savepoint _ r | .release _ r | .rollbackTo _ r => r.link True
  | .statement mode prepares body => mode.link (prepares = true → body.keeps d)

/-- DDL leaves a transaction open: after its COMMIT it can be prepared, and one is begun. -/
def DdlRun.keeps (q : DdlRun ε) : Prop :=
  q.commit.link (if q.insteadOf then q.start = .ok else
    q.prepares = true ∧ linkAll q.statements True ∧ q.commitAfter.link True ∧ q.start = .ok)

/-- The link holds over a statement with RETURNING. -/
def ReturningRun.keeps (q : ReturningRun ε) : Prop :=
  q.mode.link (q.prepares = true → match q.body with
    | .nothing | .noSelect => True
    | .one o => o.link True
    | .two o r => o.link (r.link True))

/-- What follows on rows that are there, or on the link breaking. -/
def Fetch.link (q : Fetch) (next : Prop) (lost : List Char → Prop) : Prop :=
  match q.mode with
  | .ok => q.prepares = true → match q.query with
    | .ok => next
    | .refused _ => True
    | .lost _ detail => lost detail
  | .refused _ => True
  | .lost _ detail => lost detail

/-- The link holds over a look at the columns. -/
def QueryRun.looks (q : QueryRun) : Prop := q.lookup.elim True fun r => r.link True

/-- The link holds over a query, or a new one does. -/
def QueryRun.keeps (q : QueryRun) : Prop :=
  q.known = true → q.first.link q.looks fun detail =>
    isConnectionLost (mariadbError (.lost detail)) = true ∧ q.established = true ∧
      q.second.link q.looks fun _ => False

/-- The link holds over a probe, or a new one does. -/
def pingKeeps (first : Reply) (established : Bool) (second : Reply) : Prop :=
  match first with
  | .ok => True
  | .refused detail =>
    isConnectionLost (pingError (.refused detail)) = true → established = true → second.link True
  | .lost _ detail =>
    isConnectionLost (pingError (.lost detail)) = true ∧ established = true ∧ second.link True

/-- **The operation keeps the transaction**, as a condition on the replies and on what is
pending. -/
def KeepsTransaction (c : MariaConn ε) : MariaOp ε → Prop
  | .executeSimple t => t.keeps c.db
  | .executeDdl q => q.keeps
  | .executeReturning q => q.keeps
  | .openCursor q => q.keeps
  | .ping first established second => pingKeeps first established second

/-! ### Commands that keep the transaction -/

/-- Nothing is committed, and a transaction is open if the link is up. -/
structure Stays (c c' : MariaConn ε) : Prop where
  committed : c'.db.committed = c.db.committed
  inside : c'.up = true → c'.db.work.isSome = true

/-- A command that keeps an open transaction. -/
def Keeps (f : Db String ε → Option (Db String ε)) : Prop :=
  ∀ d d', d.work.isSome = true → f d = some d' →
    d'.work.isSome = true ∧ d'.committed = d.committed

namespace Stays

lemma refl {c : MariaConn ε} (h : Inside c) : Stays c c := ⟨rfl, fun _ => h.2⟩

lemma drop (c : MariaConn ε) {d : Db String ε} (h : d.committed = c.db.committed) :
    Stays c (MariaConn.drop ⟨d, true⟩) := ⟨h, fun hup => by cases hup⟩

/-- What a command leads to, if the link is up. -/
lemma send {c : MariaConn ε} (h : c.up = true → c.db.work.isSome = true) (r : Reply)
    {f : Db String ε → Option (Db String ε)} (hf : Keeps f) : Stays c (c.send r f).1 := by
  unfold MariaConn.send
  split_ifs with hup
  · have hopen := h hup
    cases r with
    | ok =>
      cases hd : f c.db with
      | none => exact ⟨rfl, h⟩
      | some d =>
        obtain ⟨hwork, hcommitted⟩ := hf _ _ hopen hd
        exact ⟨hcommitted, fun _ => hwork⟩
    | refused detail => exact ⟨rfl, h⟩
    | lost applied detail =>
      refine drop c ?_
      cases applied with
      | false => rfl
      | true =>
        cases hd : f c.db with
        | none => simp
        | some d => simpa using (hf _ _ hopen hd).2
  · cases r <;> exact ⟨rfl, h⟩

lemma perform {c : MariaConn ε} (h : c.up = true → c.db.work.isSome = true) (o : Outcome ε) :
    Stays c (c.perform o Db.dml).1 := by
  unfold MariaConn.perform
  split_ifs with hup
  · have hopen := h hup
    cases o with
    | done es => exact ⟨Db.dml_committed _ es hopen, fun _ => (Db.dml_work _ es).trans hopen⟩
    | refused es detail =>
      exact ⟨Db.dml_committed _ es hopen, fun _ => (Db.dml_work _ es).trans hopen⟩
    | lost es detail => exact drop c (Db.dml_committed _ es hopen)
  · cases o <;> exact ⟨rfl, h⟩

lemma trans {c c' c'' : MariaConn ε} (h : Stays c c') (h' : Stays c' c'') : Stays c c'' :=
  ⟨h'.committed.trans h.committed, h'.inside⟩

lemma andThen {c : MariaConn ε} {p : MariaConn ε × Option Fault}
    {k : MariaConn ε → MariaConn ε × Option Fault} (h : Stays c p.1)
    (hk : ∀ c' : MariaConn ε, (c'.up = true → c'.db.work.isSome = true) → Stays c' (k c').1) :
    Stays c (Maria.andThen p k).1 := by
  obtain ⟨c', _ | e⟩ := p
  · exact h.trans (hk c' h.inside)
  · exact h

end Stays

lemma keeps_some : Keeps (some : Db String ε → Option (Db String ε)) := by
  rintro d d' hopen hd
  obtain rfl := Option.some.inj hd
  exact ⟨hopen, rfl⟩

lemma keeps_savepoint (name : String) :
    Keeps (fun d : Db String ε => some (d.savepoint name)) := by
  rintro d d' hopen hd
  obtain rfl := Option.some.inj hd
  exact ⟨(Db.savepoint_work d name).trans hopen, Db.savepoint_committed d name⟩

lemma keeps_release (name : String) : Keeps (fun d : Db String ε => d.release name) := by
  rintro d d' - hd
  obtain ⟨sp, below, -, rfl⟩ := Db.release_eq_some hd
  exact ⟨rfl, rfl⟩

lemma keeps_rollbackTo (name : String) : Keeps (fun d : Db String ε => d.rollbackTo name) := by
  rintro d d' - hd
  obtain ⟨sp, below, -, -, rfl⟩ := Db.rollbackTo_eq_some hd
  exact ⟨rfl, rfl⟩

section Statements

variable {c : MariaConn ε} (h : c.up = true → c.db.work.isSome = true)

include h

lemma stays_performAll (os : List (Outcome ε)) : Stays c (performAll Db.dml c os).1 := by
  induction os generalizing c with
  | nil => exact ⟨rfl, h⟩
  | cons o os ih => exact (Stays.perform h o).andThen fun c' h' => ih h'

lemma stays_runBatch (savepoint : Reply) (os : List (Outcome ε)) (release : Reply) :
    Stays c (runBatch c savepoint os release).1 :=
  (Stays.send h savepoint (keeps_savepoint _)).andThen fun _ h' =>
    (stays_performAll h' os).andThen fun _ h'' => Stays.send h'' release (keeps_release _)

lemma stays_runSingle (savepoint : Reply) (o : Outcome ε) (release rollbackTo after : Reply) :
    Stays c (runSingle c savepoint o release rollbackTo after).1 := by
  refine (Stays.send h savepoint (keeps_savepoint _)).andThen fun c' h' => ?_
  have hrun := Stays.perform h' o
  rcases hp : c'.perform o Db.dml with ⟨c'', _ | e⟩
  · rw [hp] at hrun
    exact hrun.trans (Stays.send hrun.inside release (keeps_release _))
  · rw [hp] at hrun
    have hback := Stays.send hrun.inside rollbackTo (keeps_rollbackTo dbsaciStatement)
    exact hrun.trans (hback.trans (Stays.send hback.inside after (keeps_release _)))

lemma stays_executeReturning (q : ReturningRun ε) : Stays c (executeReturning c q).1 := by
  refine (Stays.send h q.mode keeps_some).andThen fun c' h' => ?_
  cases q.prepares with
  | false => exact ⟨rfl, h'⟩
  | true =>
    cases q.body with
    | nothing => exact ⟨rfl, h'⟩
    | noSelect => exact ⟨rfl, h'⟩
    | one o => exact (Stays.perform h' o).andThen fun _ hdone => ⟨rfl, hdone⟩
    | two o r =>
      exact (Stays.perform h' o).andThen fun _ hdone =>
        (Stays.send hdone r keeps_some).andThen fun _ hrows => ⟨rfl, hrows⟩

lemma stays_fetchAll (q : Fetch) : Stays c (fetchAll c q).1 := by
  refine (Stays.send h q.mode keeps_some).andThen fun c' h' => ?_
  split_ifs
  · exact Stays.send h' q.query keeps_some
  · exact ⟨rfl, h'⟩

lemma stays_reconnect (established : Bool) : Stays c (reconnect c established).1 := by
  cases established with
  | true => exact ⟨rfl, fun _ => rfl⟩
  | false => exact ⟨rfl, h⟩

lemma stays_fetchRetrying (q : QueryRun) : Stays c (fetchRetrying c q).1 := by
  unfold fetchRetrying
  have hfetch := stays_fetchAll h q.first
  rcases hp : fetchAll c q.first with ⟨c', _ | e⟩
  · rwa [hp] at hfetch
  · rw [hp] at hfetch
    dsimp only
    split_ifs
    · exact hfetch.trans ((stays_reconnect hfetch.inside q.established).andThen
        fun _ hnew => stays_fetchAll hnew q.second)
    · exact hfetch

lemma stays_openCursor (q : QueryRun) : Stays c (openCursor c q).1 := by
  unfold openCursor
  cases q.known with
  | false => exact ⟨rfl, h⟩
  | true =>
    refine (stays_fetchRetrying h q).andThen fun c' h' => ?_
    cases q.lookup with
    | none => exact ⟨rfl, h'⟩
    | some r => exact Stays.send h' r keeps_some

lemma stays_ping (first : Reply) (established : Bool) (second : Reply) :
    Stays c (ping c first established second).1 := by
  unfold ping
  have hsend := Stays.send h first (keeps_some (ε := ε))
  rcases hp : c.send first some with ⟨c', _ | e⟩
  · rwa [hp] at hsend
  · rw [hp] at hsend
    dsimp only
    split_ifs
    · exact hsend.trans ((stays_reconnect hsend.inside established).andThen
        fun _ h'' => Stays.send h'' second keeps_some)
    · exact hsend

end Statements

/-! ### The link -/

section Link

variable {c : MariaConn ε} (hup : c.up = true)

include hup

lemma up_send (r : Reply) (f : Db String ε → Option (Db String ε)) :
    (c.send r f).1.up = true ↔ r.link True := by
  unfold MariaConn.send
  rw [if_pos hup]
  cases r with
  | ok => cases f c.db <;> simp [Reply.link, hup]
  | refused detail => simp [Reply.link, hup]
  | lost applied detail => simp [Reply.link, MariaConn.drop]

lemma up_perform (o : Outcome ε) (f : Db String ε → List ε → Db String ε) :
    (c.perform o f).1.up = true ↔ o.link True := by
  unfold MariaConn.perform
  rw [if_pos hup]
  cases o with
  | done es => simp [Outcome.link]
  | refused es detail => simp [Outcome.link]
  | lost es detail => simp [Outcome.link, MariaConn.drop]

/-- A command, and what is done after it. -/
lemma up_send_andThen (r : Reply) {f : Db String ε → Db String ε}
    {k : MariaConn ε → MariaConn ε × Option Fault} {P : Prop}
    (hk : ∀ c' : MariaConn ε, c'.up = true → ((k c').1.up = true ↔ P)) :
    (andThen (c.send r fun d => some (f d)) k).1.up = true ↔ r.link P := by
  unfold MariaConn.send
  rw [if_pos hup]
  cases r with
  | ok => exact hk _ rfl
  | refused detail => simp [Reply.link, andThen, hup]
  | lost applied detail => simp [Reply.link, andThen, MariaConn.drop]

/-- A statement, and what is done after it. -/
lemma up_perform_andThen (o : Outcome ε) {f : Db String ε → List ε → Db String ε}
    {k : MariaConn ε → MariaConn ε × Option Fault} {P : Prop}
    (hk : ∀ c' : MariaConn ε, c'.up = true → ((k c').1.up = true ↔ P)) :
    (andThen (c.perform o f) k).1.up = true ↔ o.link P := by
  unfold MariaConn.perform
  rw [if_pos hup]
  cases o with
  | done es => exact hk _ rfl
  | refused es detail => simp [Outcome.link, andThen]
  | lost es detail => simp [Outcome.link, andThen, MariaConn.drop]

/-- Several statements, and what is done after them. -/
lemma up_performAll_andThen (os : List (Outcome ε)) {f : Db String ε → List ε → Db String ε}
    {k : MariaConn ε → MariaConn ε × Option Fault} {P : Prop}
    (hk : ∀ c' : MariaConn ε, c'.up = true → ((k c').1.up = true ↔ P)) :
    (andThen (performAll f c os) k).1.up = true ↔ linkAll os P := by
  induction os generalizing c with
  | nil => exact hk c hup
  | cons o os ih =>
    rw [performAll, andThen_andThen]
    exact up_perform_andThen hup o fun c' hup' => ih hup'

lemma up_performAll (os : List (Outcome ε)) (f : Db String ε → List ε → Db String ε) :
    (performAll f c os).1.up = true ↔ linkAll os True := by
  have hthen := up_performAll_andThen hup os (f := f) (k := fun c' => (c', none)) (P := True)
    fun c' hup' => iff_of_true hup' trivial
  rwa [andThen_fst] at hthen

lemma up_runBatch (savepoint : Reply) (os : List (Outcome ε)) (release : Reply) (d : Db String ε) :
    (runBatch c savepoint os release).1.up = true ↔
      (Body.batch savepoint os release).keeps d :=
  up_send_andThen hup savepoint fun _ hup' =>
    up_performAll_andThen hup' os fun _ hend => up_send hend release _

lemma up_runSingle (savepoint : Reply) (o : Outcome ε) (release rollbackTo after : Reply)
    (d : Db String ε) :
    (runSingle c savepoint o release rollbackTo after).1.up = true ↔
      (Body.single savepoint o release rollbackTo after).keeps d := by
  refine up_send_andThen hup savepoint fun c' hup' => ?_
  unfold MariaConn.perform
  rw [if_pos hup']
  cases o with
  | done es => exact up_send rfl release _
  | lost es detail => exact iff_of_false (by simp [endSingle_of_down, MariaConn.drop]) id
  | refused es detail =>
    let c'' : MariaConn ε := ⟨c'.db.dml es, true⟩
    have hback := up_send (c := c'') rfl rollbackTo fun d => d.rollbackTo dbsaciStatement
    change ((c''.send rollbackTo fun d => d.rollbackTo dbsaciStatement).1.send after
      fun d => d.release dbsaciStatement).1.up = true ↔ _
    cases hlink : (c''.send rollbackTo fun d => d.rollbackTo dbsaciStatement).1.up with
    | true => rw [up_send hlink after, and_iff_right (hback.1 hlink)]
    | false =>
      rw [send_down hlink, hlink]
      simp only [Bool.false_eq_true, false_iff, not_and]
      exact fun h => absurd (hback.2 h) (by simp [hlink])

lemma up_executeReturning (q : ReturningRun ε) :
    (executeReturning c q).1.up = true ↔ q.keeps := by
  refine up_send_andThen hup q.mode fun c' hup' => ?_
  cases q.prepares with
  | false => simp [hup']
  | true =>
    simp only [if_true, forall_const]
    cases q.body with
    | nothing => simp [hup']
    | noSelect => simp [hup']
    | one o => exact up_perform_andThen hup' o fun _ hdone => by simp [hdone]
    | two o r =>
      exact up_perform_andThen hup' o fun _ hdone =>
        up_send_andThen hdone r fun _ hrows => by simp [hrows]

/-- The ends of a query: rows, an error that is none of the link, and a broken link. -/
lemma fetchAll_cases (q : Fetch) :
    (∃ c', fetchAll c q = (c', none) ∧ c'.up = true ∧ ∀ P L, q.link P L ↔ P) ∨
    (∃ c' e, fetchAll c q = (c', some e) ∧ isConnectionLost (mariadbError e) = false ∧
      c'.up = true ∧ ∀ P L, q.link P L) ∨
    ∃ c' detail, fetchAll c q = (c', some (.lost detail)) ∧ c'.up = false ∧
      ∀ P L, q.link P L ↔ L detail := by
  obtain ⟨mode, prepares, query⟩ := q
  unfold fetchAll MariaConn.send
  simp only [if_pos hup]
  cases mode with
  | lost applied detail => exact .inr (.inr ⟨_, detail, rfl, rfl, fun _ _ => Iff.rfl⟩)
  | refused detail => exact .inr (.inl ⟨_, _, rfl, rfl, hup, fun _ _ => trivial⟩)
  | ok =>
    cases prepares with
    | false => exact .inr (.inl ⟨_, _, rfl, rfl, rfl, fun _ _ h => by cases h⟩)
    | true =>
      cases query with
      | ok => exact .inl ⟨_, rfl, rfl, fun P _ => by simp [Fetch.link]⟩
      | refused detail =>
        exact .inr (.inl ⟨_, _, rfl, rfl, rfl, fun _ _ => by simp [Fetch.link]⟩)
      | lost applied detail =>
        exact .inr (.inr ⟨_, detail, rfl, rfl, fun _ L => by simp [Fetch.link]⟩)

/-- A query that is not tried again, and what is done after it. -/
lemma up_fetchAll_andThen (q : Fetch) {k : MariaConn ε → MariaConn ε × Option Fault} {P : Prop}
    (hk : ∀ c' : MariaConn ε, c'.up = true → ((k c').1.up = true ↔ P)) :
    (andThen (fetchAll c q) k).1.up = true ↔ q.link P fun _ => False := by
  rcases fetchAll_cases hup q with ⟨c', hfetch, hup', hlink⟩ |
    ⟨c', e, hfetch, -, hup', hlink⟩ | ⟨c', detail, hfetch, hdown, hlink⟩
  · rw [hfetch, hlink]
    exact hk c' hup'
  · rw [hfetch]
    exact iff_of_true hup' (hlink _ _)
  · rw [hfetch, hlink]
    exact iff_of_false (by simp [andThen, hdown]) id

lemma up_fetchRetrying_andThen (q : QueryRun) {k : MariaConn ε → MariaConn ε × Option Fault}
    {P : Prop} (hk : ∀ c' : MariaConn ε, c'.up = true → ((k c').1.up = true ↔ P)) :
    (andThen (fetchRetrying c q) k).1.up = true ↔ q.first.link P fun detail =>
      isConnectionLost (mariadbError (.lost detail)) = true ∧ q.established = true ∧
        q.second.link P fun _ => False := by
  unfold fetchRetrying
  rcases fetchAll_cases hup q.first with ⟨c', hfetch, hup', hlink⟩ |
    ⟨c', e, hfetch, hanswer, hup', hlink⟩ | ⟨c', detail, hfetch, hdown, hlink⟩
  · rw [hfetch, hlink]
    exact hk c' hup'
  · rw [hfetch]
    dsimp only
    rw [if_neg (by simp [hanswer])]
    exact iff_of_true hup' (hlink _ _)
  · rw [hfetch, hlink]
    dsimp only
    cases hlost : isConnectionLost (mariadbError (.lost detail)) with
    | false => simp [andThen, hdown]
    | true =>
      cases hnew : q.established with
      | false => simp [reconnect, andThen, hdown]
      | true =>
        simp only [if_true, true_and, andThen_andThen]
        exact up_fetchAll_andThen rfl q.second hk

lemma up_openCursor (q : QueryRun) : (openCursor c q).1.up = true ↔ q.keeps := by
  unfold openCursor QueryRun.keeps
  cases q.known with
  | false => simp [hup]
  | true =>
    simp only [if_true, forall_const]
    refine up_fetchRetrying_andThen hup q fun c' hup' => ?_
    unfold QueryRun.looks
    cases q.lookup with
    | none => simp [hup']
    | some r => exact up_send hup' r some

lemma up_ping (first : Reply) (established : Bool) (second : Reply) :
    (ping c first established second).1.up = true ↔ pingKeeps first established second := by
  unfold ping pingKeeps
  cases first with
  | ok => simp [MariaConn.send, hup]
  | refused detail =>
    simp only [MariaConn.send, if_pos hup]
    cases hlost : isConnectionLost (pingError (.refused detail)) with
    | false => simp [hup]
    | true =>
      cases established with
      | false => simp [reconnect, andThen, hup]
      | true =>
        simp only [if_true, forall_const]
        exact up_send (c := MariaConn.establish c.db.committed) rfl second some
  | lost applied detail =>
    simp only [MariaConn.send, if_pos hup]
    cases hlost : isConnectionLost (pingError (.lost detail)) with
    | false => simp [MariaConn.drop]
    | true =>
      cases established with
      | false => simp [reconnect, andThen, MariaConn.drop]
      | true =>
        simp only [if_true, true_and]
        exact up_send (c := MariaConn.establish _) rfl second some

end Link

/-! ### One operation -/

section Operation

variable {c : MariaConn ε} (h : Inside c)

/-- An operation that keeps the transaction does so if the link is up after it. -/
lemma Stays.kept_iff {op : MariaOp ε} (hs : Stays c (c.step op).1) (hpoint : ¬ op.isRollback) :
    Kept c op ↔ (c.step op).1.up = true :=
  ⟨fun hkept => hkept.inside.1, fun hup =>
    ⟨fun _ => hs.committed, fun hroll => absurd hroll hpoint, hup, hs.inside hup⟩⟩

/-- An operation that may commit only has to leave a transaction open. -/
lemma kept_iff_inside {op : MariaOp ε} (hpoint : op.isPoint) (hroll : ¬ op.isRollback) :
    Kept c op ↔ Inside (c.step op).1 :=
  ⟨Kept.inside, fun hinside =>
    ⟨fun hno => absurd hpoint hno, fun hyes => absurd hyes hroll, hinside⟩⟩

include h

/-- A command inside of a transaction, and what is done after it. -/
lemma inside_send_andThen (r : Reply) {f : Db String ε → Db String ε}
    {k : MariaConn ε → MariaConn ε × Option Fault} {P : Prop}
    (hk : Inside (k ⟨f c.db, true⟩).1 ↔ P) :
    Inside (andThen (c.send r fun d => some (f d)) k).1 ↔ r.link P := by
  unfold MariaConn.send
  rw [if_pos h.1]
  cases r with
  | ok => exact hk
  | refused detail => simp [Reply.link, andThen, h]
  | lost applied detail => simp [Reply.link, andThen, Inside, MariaConn.drop]

omit h

/-- A command outside of a transaction, and what is done after it. -/
lemma inside_outside_andThen {d : Db String ε} (hwork : d.work = none) (r : Reply)
    {k : MariaConn ε → MariaConn ε × Option Fault} {P : Prop}
    (hk : Inside (k ⟨d, true⟩).1 ↔ P) :
    Inside (andThen (MariaConn.send ⟨d, true⟩ r some) k).1 ↔ r = .ok ∧ P := by
  unfold MariaConn.send
  rw [if_pos rfl]
  cases r with
  | ok => exact hk.trans (and_iff_right rfl).symm
  | refused detail => simp [andThen, Inside, hwork]
  | lost applied detail => simp [andThen, Inside, MariaConn.drop]

lemma inside_start (hwork : c.db.work = none) (start : Reply) :
    Inside (c.send start fun d => some d.start).1 ↔ c.up = true ∧ start = .ok := by
  unfold MariaConn.send
  split_ifs with hup
  · cases start <;> simp [Inside, Db.start, MariaConn.drop, hup, hwork]
  · cases start <;> simp [Inside, hup]

/-- Statements that change the schema leave no transaction. -/
lemma work_performAll_ddl (hwork : c.db.work = none) (os : List (Outcome ε)) :
    (performAll Db.ddl c os).1.db.work = none := by
  induction os generalizing c with
  | nil => exact hwork
  | cons o os ih =>
    unfold performAll MariaConn.perform
    split_ifs with hup
    · cases o with
      | done es => exact ih rfl
      | refused es detail => rfl
      | lost es detail => rfl
    · cases o <;> exact hwork

lemma work_send_commit (hwork : c.db.work = none) (r : Reply) :
    (c.send r fun d => some d.commit).1.db.work = none := by
  unfold MariaConn.send
  split_ifs with hup
  · cases r with
    | ok => rfl
    | refused detail => exact hwork
    | lost applied detail => rfl
  · cases r <;> exact hwork

include h

lemma inside_executeDdl (q : DdlRun ε) : Inside (executeDdl c q).1 ↔ q.keeps := by
  refine inside_send_andThen h q.commit ?_
  cases q.insteadOf with
  | true => exact (inside_start rfl q.start).trans (and_iff_right rfl)
  | false =>
    cases q.prepares with
    | false => simp [Inside, Db.commit]
    | true =>
      simp only [Bool.false_eq_true, if_false, if_true, true_and]
      have hall := up_performAll (c := ⟨c.db.commit, true⟩) rfl q.statements Db.ddl
      have hwork := work_performAll_ddl (c := ⟨c.db.commit, true⟩) rfl q.statements
      rcases hrun : performAll Db.ddl ⟨c.db.commit, true⟩ q.statements with ⟨c', result⟩
      rw [hrun] at hall hwork
      simp only [andThen_fst, inside_start (work_send_commit hwork q.commitAfter) q.start]
      rw [← hall, ← and_assoc]
      refine and_congr_left' ?_
      cases hup : c'.up with
      | true => simp [up_send hup]
      | false => simp [send_down hup, hup]

lemma kept_rollback (r start : Reply) :
    Kept c (.executeSimple (.rollback r start)) ↔ r.link (start = .ok) := by
  refine ⟨fun hkept => ?_, fun hlink => ?_⟩
  · exact (inside_send_andThen h r ((inside_start rfl start).trans (and_iff_right rfl))).1
      hkept.inside
  · have hinside : Inside (c.step (.executeSimple (.rollback r start))).1 :=
      (inside_send_andThen h r ((inside_start rfl start).trans (and_iff_right rfl))).2 hlink
    cases r with
    | ok =>
      obtain rfl : start = .ok := hlink
      refine ⟨fun _ => ?_, fun _ _ => ?_, hinside⟩
      · simp [MariaConn.step, executeSimple, MariaConn.send, andThen, h.1, Db.start]
      · simp [MariaConn.step, executeSimple, MariaConn.send, andThen, h.1]
    | refused detail =>
      refine ⟨fun _ => ?_, fun _ hok => ?_, hinside⟩
      · simp [MariaConn.step, executeSimple, MariaConn.send, andThen, h.1]
      · simp [MariaConn.step, executeSimple, MariaConn.send, andThen, h.1] at hok
    | lost applied detail => exact absurd hlink id

/-- A block that is done is committed by the transaction that follows it. -/
lemma kept_program (o : Outcome ε) (start : Reply) :
    (Inside (runProgram c o start).1 ∧ (runProgram c o start).1.db.committed = c.db.committed) ↔
      (Body.program o start).keeps c.db := by
  have hopen := h.2
  unfold runProgram MariaConn.perform
  rw [if_pos h.1]
  cases o with
  | refused es detail =>
    simp [andThen, Body.keeps, Inside, Db.dml_work, Db.dml_committed, hopen]
  | lost es detail => simp [andThen, Body.keeps, Inside, MariaConn.drop]
  | done es =>
    cases start with
    | refused detail =>
      simp [andThen, MariaConn.send, Body.keeps, Reply.link, Inside, Db.dml_work,
        Db.dml_committed, hopen]
    | lost applied detail =>
      simp [andThen, MariaConn.send, Body.keeps, Reply.link, Inside, MariaConn.drop]
    | ok =>
      have hvisible : (c.db.dml es).visible = c.db.committed ++ (c.db.pending ++ es) := by
        rw [Db.dml_visible, Db.visible, List.append_assoc]
      simp only [andThen, MariaConn.send, Body.keeps, Reply.link, Inside, Db.start, hvisible]
      simp

/-- A statement keeps the transaction if its body does. -/
lemma kept_runBody (body : Body ε) :
    (Inside (runBody c body).1 ∧ (runBody c body).1.db.committed = c.db.committed) ↔
      body.keeps c.db := by
  have hopen : c.up = true → c.db.work.isSome = true := fun _ => h.2
  cases body with
  | batch savepoint os release =>
    have hs := stays_runBatch hopen savepoint os release
    rw [← up_runBatch h.1 savepoint os release]
    exact ⟨fun hkept => hkept.1.1, fun hup => ⟨⟨hup, hs.inside hup⟩, hs.committed⟩⟩
  | program o start => exact kept_program h o start
  | single savepoint o release rollbackTo after =>
    have hs := stays_runSingle hopen savepoint o release rollbackTo after
    rw [← up_runSingle h.1 savepoint o release rollbackTo after]
    exact ⟨fun hkept => hkept.1.1, fun hup => ⟨⟨hup, hs.inside hup⟩, hs.committed⟩⟩

lemma kept_statement (mode : Reply) (prepares : Bool) (body : Body ε) :
    Kept c (.executeSimple (.statement mode prepares body)) ↔
      mode.link (prepares = true → body.keeps c.db) := by
  have hkept : Kept c (.executeSimple (.statement mode prepares body)) ↔
      Inside (executeSimple c (.statement mode prepares body)).1 ∧
        (executeSimple c (.statement mode prepares body)).1.db.committed = c.db.committed :=
    ⟨fun hkept => ⟨hkept.inside, hkept.committed id⟩, fun hboth =>
      ⟨fun _ => hboth.2, fun hroll => absurd hroll id, hboth.1⟩⟩
  rw [hkept]
  obtain ⟨d, up⟩ := c
  obtain rfl : up = true := h.1
  cases mode with
  | refused detail => exact iff_of_true ⟨h, rfl⟩ trivial
  | lost applied detail => exact iff_of_false (fun hboth => by cases hboth.1.1) id
  | ok =>
    cases prepares with
    | false => exact iff_of_true ⟨h, rfl⟩ fun hno => by cases hno
    | true => exact (kept_runBody h body).trans ⟨fun hbody _ => hbody, fun hbody => hbody rfl⟩

/-- **One operation**: inside of a transaction the condition is exact. -/
theorem kept_iff (op : MariaOp ε) : Kept c op ↔ KeepsTransaction c op := by
  have hopen : c.up = true → c.db.work.isSome = true := fun _ => h.2
  cases op with
  | executeDdl q =>
    exact (@kept_iff_inside _ _ (.executeDdl q) trivial id).trans (inside_executeDdl h q)
  | executeReturning q =>
    exact (Stays.kept_iff (stays_executeReturning hopen q) id).trans (up_executeReturning h.1 q)
  | openCursor q =>
    exact (Stays.kept_iff (stays_openCursor hopen q) id).trans (up_openCursor h.1 q)
  | ping first established second =>
    exact (Stays.kept_iff (stays_ping hopen first established second) id).trans
      (up_ping h.1 first established second)
  | executeSimple t =>
    cases t with
    | unknownSequence => exact (Stays.kept_iff (Stays.refl h) id).trans (iff_of_true h.1 trivial)
    | begin => exact (Stays.kept_iff (Stays.refl h) id).trans (iff_of_true h.1 trivial)
    | insteadOf o => exact (Stays.kept_iff (Stays.perform hopen o) id).trans (up_perform h.1 o _)
    | commit r start =>
      exact (@kept_iff_inside _ _ (.executeSimple (.commit r start)) trivial id).trans
        (inside_send_andThen h r ((inside_start rfl start).trans (and_iff_right rfl)))
    | setTransaction r set start =>
      exact (@kept_iff_inside _ _ (.executeSimple (.setTransaction r set start)) trivial id).trans
        (inside_send_andThen h r
          (inside_outside_andThen rfl set ((inside_start rfl start).trans (and_iff_right rfl))))
    | rollback r start => exact kept_rollback h r start
    | savepoint name r =>
      exact (Stays.kept_iff (Stays.send hopen r (keeps_savepoint name)) id).trans
        (up_send h.1 r _)
    | release name r =>
      exact (Stays.kept_iff (Stays.send hopen r (keeps_release name)) id).trans (up_send h.1 r _)
    | rollbackTo name r =>
      exact (Stays.kept_iff (Stays.send hopen r (keeps_rollbackTo name)) id).trans
        (up_send h.1 r _)
    | statement mode prepares body => exact kept_statement h mode prepares body

end Operation

/-! ### Runs -/

lemma inside_establish (committed : List ε) : Inside (MariaConn.establish committed) := ⟨rfl, rfl⟩

/-- A run inside of a transaction keeps it exactly if each of its operations does. -/
lemma each_kept_of_inside {c : MariaConn ε} (h : Inside c) (ops : List (MariaOp ε)) :
    Each Kept c ops ↔ Each KeepsTransaction c ops := by
  induction ops generalizing c with
  | nil => exact Iff.rfl
  | cons op ops ih =>
    calc Kept c op ∧ Each Kept (c.step op).1 ops
        ↔ Kept c op ∧ Each KeepsTransaction (c.step op).1 ops :=
          and_congr_right fun hkept => ih hkept.inside
      _ ↔ KeepsTransaction c op ∧ Each KeepsTransaction (c.step op).1 ops :=
          and_congr_left' (kept_iff h op)

/-- **A run keeps the transaction** exactly if each of its operations meets the condition. -/
theorem each_kept_iff (committed : List ε) (ops : List (MariaOp ε)) :
    Each Kept (MariaConn.establish committed) ops ↔
      Each KeepsTransaction (MariaConn.establish committed) ops :=
  each_kept_of_inside (inside_establish committed) ops

/-- DDL that is committed before it turns out that it cannot be prepared leaves no transaction
open: what is done after it is committed at once, and a ROLLBACK that is answered Ok keeps it. -/
theorem ddl_not_kept :
    let ddl : MariaOp ℕ := .executeDdl ⟨.ok, false, false, [], .ok, .ok⟩
    let insert : MariaOp ℕ :=
      .executeSimple (.statement .ok true (.single .ok (.done [7]) .ok .ok .ok))
    let rollback : MariaOp ℕ := .executeSimple (.rollback .ok .ok)
    let c := MariaConn.establish []
    (c.step ddl).2 = some .other ∧ (c.step ddl).1.db.work = none ∧
      (c.run [ddl, insert]).db.committed = [7] ∧
      (c.run [ddl, insert, rollback]).db.visible = [7] ∧
      ¬ Each Kept c [ddl, insert, rollback] := by
  refine ⟨rfl, rfl, rfl, rfl, fun hrun => ?_⟩
  exact Bool.noConfusion (show false = true from hrun.1.inside.2)

/-- Between the operations that may commit nothing is committed, so that a ROLLBACK goes back to
the last of them. -/
theorem run_committed {c : MariaConn ε} {ops : List (MariaOp ε)} (hkept : Each Kept c ops)
    (hpoint : ∀ op ∈ ops, ¬ op.isPoint) : (c.run ops).db.committed = c.db.committed := by
  induction ops generalizing c with
  | nil => rfl
  | cons op ops ih =>
    have hrest := ih hkept.2 fun op' hmem => hpoint op' (List.mem_cons_of_mem _ hmem)
    exact hrest.trans (hkept.1.committed (hpoint op List.mem_cons_self))

end DbSaci.Backend.Maria
