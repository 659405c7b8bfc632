import DbSaci.Backend.MariaDbAtomicity
import DbSaci.Backend.MariaDbTransaction

set_option relaxedAutoImplicit false
set_option autoImplicit false

/-!
# Work across a reconnect, in MariaDB

A client keeps account of what was answered by Ok, and expects a COMMIT that is answered by Ok to
commit it. A query or a probe that meets a broken link goes on with a new connection, and nothing
tells the client that the work of the old one is gone.

## Main definitions

* `Book` — the client's account, with its savepoints; `Book.next` keeps it.
* `NoLoss` — what the client counts on, for one operation.
* `KeepsWork` — when an operation loses nothing, as a condition on its replies.
* `EachBook` — a property of each step of a run, and of the account.
* `Sound` — the invariant: what is accounted for is there, also at each savepoint.

## Main results

* `sound_step` — an operation that meets the condition keeps the invariant.
* `each_noLoss_iff` — a run loses nothing exactly if each of its steps meets the condition.
* `reconnect_loses` — a query reconnects, and a COMMIT that is answered by Ok commits nothing.
-/

namespace DbSaci.Backend.Maria

open MariaConn

variable {ε : Type}

/-! ### The account -/

/-- What is done by a statement that is answered by Ok. -/
def Outcome.effects : Outcome ε → List ε
  | .done es => es
  | _ => []

def Body.effects : Body ε → List ε
  | .batch _ os _ => os.flatMap Outcome.effects
  | .program o _ => o.effects
  | .single _ o _ _ _ => o.effects

/-- What is done by an operation that is answered by Ok. -/
def MariaOp.effects : MariaOp ε → List ε
  | .executeSimple (.insteadOf o) => o.effects
  | .executeSimple (.statement _ _ body) => body.effects
  | .executeReturning ⟨_, _, .one o, _⟩ => o.effects
  | .executeReturning ⟨_, _, .two o _, _⟩ => o.effects
  | _ => []

/-- The command by which an operation ends the transaction, if it is one that does. -/
def MariaOp.ends : MariaOp ε → Option Reply
  | .executeSimple (.commit r _) => some r
  | .executeSimple (.rollback r _) => some r
  | .executeSimple (.setTransaction r _ _) => some r
  | .executeDdl q => some q.commit
  | _ => none

def Reply.isRefused : Reply → Bool
  | .refused _ => true
  | _ => false

/-- The client's account: what was committed when its transaction began, what was answered by Ok
since, and that as it was at each of its savepoints. -/
structure Book (ε : Type) where
  base : List ε
  acked : List ε
  marks : List (String × List ε)

/-- The account after an operation. One that ends the transaction begins it anew, unless it is
refused. -/
def Book.next (b : Book ε) (c : MariaConn ε) (op : MariaOp ε) : Book ε :=
  match op.ends with
  | some r => if c.up && r.isRefused then b else ⟨(c.step op).1.db.committed, [], []⟩
  | none =>
    if (c.step op).2.isSome then b else
      match op with
      | .executeSimple (.savepoint name _) => { b with marks := (name, b.acked) :: b.marks }
      | .executeSimple (.rollbackTo name _) =>
        { b with acked := (b.marks.lookup name).getD b.acked }
      | op => { b with acked := b.acked ++ op.effects }

/-- What the client has been told is among what is there since `base`. -/
def Within (base acked seen : List ε) : Prop := ∃ x, seen = base ++ x ∧ acked.Sublist x

/-- The operation is a COMMIT. -/
def MariaOp.isCommit : MariaOp ε → Prop
  | .executeSimple (.commit _ _) => True
  | _ => False

/-- **What the client counts on**: a COMMIT that is answered by Ok commits all that was answered by
Ok since the transaction began, and as long as there is a connection it is all there. -/
structure NoLoss (b : Book ε) (c : MariaConn ε) (op : MariaOp ε) : Prop where
  durable : op.isCommit → (c.step op).2 = none →
    Within b.base b.acked (c.step op).1.db.committed
  intact : (c.step op).1.up = true →
    Within (b.next c op).base (b.next c op).acked (c.step op).1.db.visible

/-- A property of each step of a run, and of the account the client keeps of it. -/
def EachBook (P : Book ε → MariaConn ε → MariaOp ε → Prop) :
    Book ε → MariaConn ε → List (MariaOp ε) → Prop
  | _, _, [] => True
  | b, c, op :: ops => P b c op ∧ EachBook P (b.next c op) (c.step op).1 ops

/-! ### The condition -/

/-- A query meets a broken link, with an error of which `lost` holds. -/
def Fetch.breaks (q : Fetch) (up : Bool) (lost : List Char → Prop) : Prop :=
  if up then
    match q.mode with
    | .ok => q.prepares = true ∧ match q.query with
      | .lost _ detail => lost detail
      | _ => False
    | .refused _ => False
    | .lost _ detail => lost detail
  else
    match q.mode with
    | .lost _ detail => lost detail
    | _ => lost []

/-- A query goes on with a new connection, which is there after it. -/
def QueryRun.replaces (q : QueryRun) (up : Bool) : Prop :=
  q.known = true ∧
  q.first.breaks up (fun detail => isConnectionLost (mariadbError (.lost detail)) = true) ∧
  q.established = true ∧ q.second.link q.looks fun _ => False

/-- A probe goes on with a new connection, which is there after it. -/
def pingReplaces (up : Bool) (first : Reply) (established : Bool) (second : Reply) : Prop :=
  (match first, up with
    | .ok, true => False
    | .refused detail, true => isConnectionLost (pingError (.refused detail)) = true
    | .lost _ detail, _ => isConnectionLost (pingError (.lost detail)) = true
    | _, false => isConnectionLost (pingError (.lost [])) = true) ∧
  established = true ∧ second.link True

/-- **The operation loses nothing**, as a condition on its replies and on what is there before. A
new connection must find everything committed, and a ROLLBACK to the savepoint of a statement must
go back to one at which everything was there. -/
def KeepsWork (b : Book ε) (c : MariaConn ε) : MariaOp ε → Prop
  | .openCursor q => q.replaces c.up → Within b.base b.acked c.db.committed
  | .ping first established second =>
    pingReplaces c.up first established second → Within b.base b.acked c.db.committed
  | .executeSimple (.rollbackTo name .ok) =>
    name = dbsaciStatement → c.up = true → ∀ d, c.db.rollbackTo name = some d →
      Within b.base ((b.marks.lookup name).getD b.acked) d.visible
  | _ => True

/-! ### The invariant -/

/-- What is accounted for is there, also at each savepoint of the client. -/
structure Sound (b : Book ε) (d : Db String ε) : Prop where
  intact : Within b.base b.acked d.visible
  marks : ∀ sp ∈ d.savepoints, sp.1 ≠ dbsaciStatement →
    ∃ acked, b.marks.lookup sp.1 = some acked ∧ Within b.base acked (d.committed ++ sp.2)

/-- More may be there, and no savepoint is new. -/
structure Extends (d d' : Db String ε) : Prop where
  visible : ∃ y, d'.visible = d.visible ++ y
  savepoints : ∀ sp ∈ d'.savepoints, sp.1 ≠ dbsaciStatement →
    sp ∈ d.savepoints ∧ d'.committed = d.committed

lemma Within.append {base acked seen : List ε} (h : Within base acked seen) (es : List ε) :
    Within base acked (seen ++ es) := by
  obtain ⟨x, rfl, hsub⟩ := h
  exact ⟨x ++ es, by simp, hsub.trans (List.sublist_append_left x es)⟩

lemma Within.append_both {base acked seen : List ε} (h : Within base acked seen) (es : List ε) :
    Within base (acked ++ es) (seen ++ es) := by
  obtain ⟨x, rfl, hsub⟩ := h
  exact ⟨x ++ es, by simp, hsub.append_right es⟩

lemma within_nil (base es : List ε) : Within base [] (base ++ es) := ⟨es, rfl, List.nil_sublist es⟩

namespace Extends

lemma refl (d : Db String ε) : Extends d d := ⟨⟨[], by simp⟩, fun _ hsp _ => ⟨hsp, rfl⟩⟩

lemma trans {d d' d'' : Db String ε} (h : Extends d d') (h' : Extends d' d'') :
    Extends d d'' := by
  obtain ⟨y, hy⟩ := h.visible
  obtain ⟨y', hy'⟩ := h'.visible
  refine ⟨⟨y ++ y', by simp [hy', hy]⟩, fun sp hsp hne => ?_⟩
  obtain ⟨hmem', hcommitted'⟩ := h'.savepoints sp hsp hne
  obtain ⟨hmem, hcommitted⟩ := h.savepoints sp hmem' hne
  exact ⟨hmem, hcommitted'.trans hcommitted⟩

lemma dml (d : Db String ε) (es : List ε) : Extends d (d.dml es) := by
  refine ⟨⟨es, Db.dml_visible d es⟩, fun sp hsp _ => ?_⟩
  obtain ⟨committed, _ | w⟩ := d
  · cases hsp
  · exact ⟨hsp, rfl⟩

lemma savepoint (d : Db String ε) : Extends d (d.savepoint dbsaciStatement) :=
  ⟨⟨[], by simp⟩, fun _ hsp hne => ⟨Db.mem_savepoint d _ hsp hne, Db.savepoint_committed d _⟩⟩

lemma during (d : Db String ε) (es : List ε) : Extends d (during d es) :=
  (savepoint d).trans (dml _ es)

lemma start (d : Db String ε) : Extends d d.start :=
  ⟨⟨[], by simp⟩, fun sp hsp => by simp at hsp⟩

lemma release {d d' : Db String ε} {name : String} (h : d.release name = some d') :
    Extends d d' := by
  refine ⟨⟨[], by simp [Db.release_visible h]⟩, fun sp hsp _ => ⟨Db.mem_release h hsp, ?_⟩⟩
  obtain ⟨-, -, -, rfl⟩ := Db.release_eq_some h
  rfl

end Extends

/-- More may be there. -/
lemma Sound.extends {b : Book ε} {d d' : Db String ε} (h : Sound b d) (hext : Extends d d') :
    Sound b d' := by
  obtain ⟨y, hy⟩ := hext.visible
  refine ⟨by rw [hy]; exact h.intact.append y, fun sp hsp hne => ?_⟩
  obtain ⟨hmem, hcommitted⟩ := hext.savepoints sp hsp hne
  rw [hcommitted]
  exact h.marks sp hmem hne

/-- What is answered by Ok is there. -/
lemma Sound.acked {b : Book ε} {d d' : Db String ε} (h : Sound b d) (hext : Extends d d')
    {es : List ε} (hvisible : d'.visible = d.visible ++ es) :
    Sound { b with acked := b.acked ++ es } d' :=
  ⟨by rw [hvisible]; exact h.intact.append_both es, (h.extends hext).marks⟩

/-! ### Statements -/

/-- What `p` comes to from `c`, if the link is up: more may be there, and that is `es` if the answer
is Ok. -/
def Grows (c : MariaConn ε) (p : MariaConn ε × Option Fault) (es : List ε) : Prop :=
  p.1.up = true → c.up = true ∧ Extends c.db p.1.db ∧
    (p.2 = none → p.1.db.visible = c.db.visible ++ es)

namespace Grows

variable {c : MariaConn ε}

/-- Nothing is done. -/
lemma same (o : Option Fault) : Grows c (c, o) [] := fun hup =>
  ⟨hup, Extends.refl _, fun _ => (List.append_nil _).symm⟩

/-- Nothing is done, and the answer is an error. -/
lemma fails (e : Fault) (es : List ε) : Grows c (c, some e) es := fun hup =>
  ⟨hup, Extends.refl _, fun hok => by cases hok⟩

lemma send (r : Reply) {f : Db String ε → Option (Db String ε)}
    (hf : ∀ d d', f d = some d' → Extends d d' ∧ d'.visible = d.visible) :
    Grows c (c.send r f) [] := by
  obtain ⟨d, _ | _⟩ := c
  · obtain ⟨e, hsend⟩ := send_of_down (c := ⟨d, false⟩) rfl r f
    rw [hsend]
    exact same _
  · cases r with
    | refused detail => exact same _
    | lost applied detail => exact fun hup => by cases hup
    | ok =>
      simp only [MariaConn.send, if_true]
      cases hd : f d with
      | none => exact same _
      | some d' =>
        obtain ⟨hext, hvisible⟩ := hf d d' hd
        exact fun _ => ⟨rfl, hext, fun _ => by simpa using hvisible⟩

lemma perform (o : Outcome ε) : Grows c (c.perform o Db.dml) o.effects := by
  obtain ⟨d, _ | _⟩ := c
  · obtain ⟨e, hperform⟩ := perform_of_down (c := ⟨d, false⟩) rfl o Db.dml
    rw [hperform]
    exact fails e _
  · cases o with
    | done es => exact fun _ => ⟨rfl, Extends.dml d es, fun _ => Db.dml_visible d es⟩
    | refused es detail => exact fun _ => ⟨rfl, Extends.dml d es, fun hok => by cases hok⟩
    | lost es detail => exact fun hup => by cases hup

lemma andThen {p : MariaConn ε × Option Fault} {k : MariaConn ε → MariaConn ε × Option Fault}
    {es es' : List ε} (h : Grows c p es) (hk : ∀ c', Grows c' (k c') es') :
    Grows c (Maria.andThen p k) (es ++ es') := by
  obtain ⟨c', _ | e⟩ := p
  · intro hup
    obtain ⟨hup', hext', hvisible'⟩ := hk c' hup
    obtain ⟨hupc, hext, hvisible⟩ := h hup'
    refine ⟨hupc, hext.trans hext', fun hok => ?_⟩
    exact (hvisible' hok).trans (by rw [hvisible rfl, List.append_assoc])
  · exact fun hup => ⟨(h hup).1, (h hup).2.1, fun hok => by cases hok⟩

lemma performAll (os : List (Outcome ε)) :
    Grows c (performAll Db.dml c os) (os.flatMap Outcome.effects) := by
  induction os generalizing c with
  | nil => exact same none
  | cons o os ih => exact (perform o).andThen fun c' => ih

end Grows

section Commands

variable (c : MariaConn ε)

lemma grows_release (r : Reply) (name : String) : Grows c (c.send r fun d => d.release name) [] :=
  Grows.send r fun _ _ h => ⟨Extends.release h, Db.release_visible h⟩

lemma grows_statementSavepoint (r : Reply) :
    Grows c (c.send r fun d => some (d.savepoint dbsaciStatement)) [] := by
  refine Grows.send r fun d d' h => ?_
  obtain rfl := Option.some.inj h
  exact ⟨Extends.savepoint d, Db.savepoint_visible d _⟩

lemma grows_start (r : Reply) : Grows c (c.send r fun d => some d.start) [] := by
  refine Grows.send r fun d d' h => ?_
  obtain rfl := Option.some.inj h
  exact ⟨Extends.start d, Db.start_visible d⟩

lemma grows_some (r : Reply) : Grows c (c.send r some) [] := by
  refine Grows.send r fun d d' h => ?_
  obtain rfl := Option.some.inj h
  exact ⟨Extends.refl d, rfl⟩

lemma grows_runBatch (savepoint : Reply) (os : List (Outcome ε)) (release : Reply) :
    Grows c (runBatch c savepoint os release) (os.flatMap Outcome.effects) := by
  have hstatements := fun c' : MariaConn ε => (Grows.performAll (c := c') os).andThen
    fun c => grows_release c release dbsaciStatement
  have hbatch := (grows_statementSavepoint c savepoint).andThen hstatements
  rw [List.append_nil] at hbatch
  exact hbatch

lemma grows_runProgram (o : Outcome ε) (start : Reply) :
    Grows c (runProgram c o start) o.effects := by
  have hprogram := (Grows.perform (c := c) o).andThen fun c' => grows_start c' start
  rw [List.append_nil] at hprogram
  exact hprogram

/-- A statement that has failed is undone, or not. -/
lemma extends_undone (d : Db String ε) (es : List ε) (e : Fault)
    (release rollbackTo releaseAfter : Reply) :
    let p := endSingle (⟨during d es, true⟩, some e) release rollbackTo releaseAfter
    p.1.up = true → Extends d p.1.db := by
  intro p hup
  have hrelease : ∀ es', Grows ⟨during d es', true⟩
      (MariaConn.send ⟨during d es', true⟩ releaseAfter fun d => d.release dbsaciStatement) [] :=
    fun es' => grows_release _ releaseAfter dbsaciStatement
  cases rollbackTo with
  | refused detail => exact (Extends.during d es).trans (hrelease es hup).2.1
  | lost applied detail =>
    have hdown : p.1.up = false := congrArg MariaConn.up (send_down rfl releaseAfter _)
    simp [hdown] at hup
  | ok =>
    have hp : p.1 = (MariaConn.send ⟨during d (if d.work.isSome then [] else es), true⟩ releaseAfter
        fun d => d.release dbsaciStatement).1 := by
      simp only [p, endSingle, MariaConn.send, if_true, rollbackTo_during]
      cases d.work.isSome <;> rfl
    rw [hp] at hup ⊢
    exact (Extends.during d _).trans (hrelease _ hup).2.1

lemma grows_runSingle (savepoint : Reply) (o : Outcome ε)
    (release rollbackTo releaseAfter : Reply) :
    Grows c (runSingle c savepoint o release rollbackTo releaseAfter) o.effects := by
  obtain ⟨d, _ | _⟩ := c
  · obtain ⟨e, hsend⟩ := send_of_down (c := ⟨d, false⟩) rfl savepoint
      fun d => some (d.savepoint dbsaciStatement)
    unfold runSingle
    rw [hsend]
    exact Grows.fails e _
  · cases savepoint with
    | refused detail => exact Grows.fails _ _
    | lost applied detail => exact fun hup => by cases hup
    | ok =>
      cases o with
      | done es =>
        intro hup
        obtain ⟨-, hext, hvisible⟩ := grows_release ⟨during d es, true⟩ release dbsaciStatement hup
        refine ⟨rfl, (Extends.during d es).trans hext, fun hok => ?_⟩
        exact (hvisible hok).trans (by simp [during, Outcome.effects])
      | refused es detail =>
        exact fun hup => ⟨rfl, extends_undone d es _ release rollbackTo releaseAfter hup,
          fun hok => by cases hok⟩
      | lost es detail =>
        intro hup
        change (endSingle (MariaConn.drop ⟨during d es, true⟩, some (.lost detail)) release
          rollbackTo releaseAfter).1.up = true at hup
        rw [endSingle_of_down rfl] at hup
        cases hup

lemma grows_runBody (body : Body ε) : Grows c (runBody c body) body.effects := by
  cases body with
  | batch savepoint os release => exact grows_runBatch c savepoint os release
  | program o start => exact grows_runProgram c o start
  | single savepoint o release rollbackTo releaseAfter =>
    exact grows_runSingle c savepoint o release rollbackTo releaseAfter

lemma grows_statement (mode : Reply) (prepares : Bool) (body : Body ε) :
    Grows c (executeSimple c (.statement mode prepares body)) body.effects := by
  have hbody : ∀ c', Grows c' (if prepares then runBody c' body else (c', some .other))
      body.effects := fun c' => by
    cases prepares with
    | true => exact grows_runBody c' body
    | false => exact Grows.fails _ _
  exact (grows_some c mode).andThen hbody

lemma grows_executeReturning (q : ReturningRun ε) :
    Grows c (executeReturning c q) (MariaOp.executeReturning q).effects := by
  obtain ⟨mode, prepares, body, encodes⟩ := q
  refine (grows_some c mode).andThen fun c' => ?_
  cases prepares with
  | false => exact Grows.fails _ _
  | true =>
    cases body with
    | nothing => exact Grows.same none
    | noSelect => exact Grows.same _
    | one o =>
      have hone := (Grows.perform (c := c') o).andThen fun c =>
        Grows.same (c := c) (if encodes then none else some .other)
      rw [List.append_nil] at hone
      exact hone
    | two o select =>
      have htwo := (Grows.perform (c := c') o).andThen fun c => (grows_some c select).andThen
        fun c => Grows.same (c := c) (if encodes then none else some .other)
      rw [List.append_nil, List.append_nil] at htwo
      exact htwo

end Commands

/-! ### Queries and probes -/

section Queries

variable {c : MariaConn ε}

/-- A command that does nothing leaves the connection as it is, if it leaves it. -/
lemma same_send {r : Reply} (hup : (c.send r some).1.up = true) : (c.send r some).1 = c := by
  obtain ⟨d, _ | _⟩ := c
  · exact send_down rfl r some
  · cases r with
    | ok => rfl
    | refused detail => rfl
    | lost applied detail => cases hup

/-- The ends of a query: the connection is what it was, or the link is broken. -/
lemma fetchAll_ends (c : MariaConn ε) (q : Fetch) :
    (∃ o, fetchAll c q = (c, o) ∧ (∀ e, o = some e → isConnectionLost (mariadbError e) = false) ∧
      ∀ L, ¬ q.breaks c.up L) ∨
    ∃ c' detail, fetchAll c q = (c', some (.lost detail)) ∧ c'.up = false ∧
      c'.db.committed = c.db.committed ∧ ∀ L, q.breaks c.up L ↔ L detail := by
  obtain ⟨mode, prepares, query⟩ := q
  obtain ⟨d, _ | _⟩ := c
  · cases mode with
    | ok => exact .inr ⟨_, [], rfl, rfl, rfl, fun _ => Iff.rfl⟩
    | refused detail => exact .inr ⟨_, [], rfl, rfl, rfl, fun _ => Iff.rfl⟩
    | lost applied detail => exact .inr ⟨_, detail, rfl, rfl, rfl, fun _ => Iff.rfl⟩
  · cases mode with
    | refused detail =>
      exact .inl ⟨_, rfl, fun e he => by obtain rfl := Option.some.inj he; rfl, fun _ => id⟩
    | lost applied detail =>
      cases applied <;> exact .inr ⟨_, detail, rfl, rfl, rfl, fun _ => Iff.rfl⟩
    | ok =>
      cases prepares with
      | false =>
        exact .inl ⟨_, rfl, fun e he => by obtain rfl := Option.some.inj he; rfl,
          fun _ h => by cases h.1⟩
      | true =>
        cases query with
        | ok => exact .inl ⟨_, rfl, nofun, fun _ h => h.2⟩
        | refused detail =>
          exact .inl ⟨_, rfl, fun e he => by obtain rfl := Option.some.inj he; rfl,
            fun _ h => h.2⟩
        | lost applied detail =>
          cases applied <;> exact .inr ⟨_, detail, rfl, rfl, rfl, fun _ => and_iff_right rfl⟩

/-- What is done after a query that is not tried again. -/
lemma same_fetchAll_andThen {q : Fetch} {k : MariaConn ε → MariaConn ε × Option Fault}
    (hk : (k c).1.up = true → (k c).1 = c) (hup : (andThen (fetchAll c q) k).1.up = true) :
    (andThen (fetchAll c q) k).1 = c := by
  rcases fetchAll_ends c q with ⟨o, hfetch, -, -⟩ | ⟨c', detail, hfetch, hdown, -, -⟩
  · rw [hfetch] at hup ⊢
    cases o with
    | none => exact hk hup
    | some e => rfl
  · rw [hfetch] at hup
    exact absurd hup (by simp [andThen, hdown])

/-- What is looked up about the columns. -/
def lookUp (q : QueryRun) (c : MariaConn ε) : MariaConn ε × Option Fault :=
  (q.lookup.elim c fun r => (c.send r some).1, if q.encodes then none else some .other)

lemma same_lookUp {q : QueryRun} (hup : (lookUp q c).1.up = true) : (lookUp q c).1 = c := by
  unfold lookUp at hup ⊢
  cases hlookup : q.lookup with
  | none => rfl
  | some r =>
    rw [hlookup] at hup
    exact same_send hup

lemma up_lookUp {q : QueryRun} (hup : c.up = true) : (lookUp q c).1.up = true ↔ q.looks := by
  unfold lookUp QueryRun.looks
  cases q.lookup with
  | none => exact iff_of_true hup trivial
  | some r => exact up_send hup r some

/-- **A query** leaves the connection as it is, or replaces it by a new one. -/
lemma openCursor_ends (c : MariaConn ε) (q : QueryRun) :
    (q.replaces c.up ∧ (openCursor c q).1 = MariaConn.establish c.db.committed) ∨
    (¬ q.replaces c.up ∧ ((openCursor c q).1.up = true → (openCursor c q).1 = c)) := by
  unfold QueryRun.replaces
  cases hknown : q.known with
  | false => exact .inr ⟨fun h => Bool.noConfusion h.1, fun _ => by simp [openCursor, hknown]⟩
  | true =>
    have hopen : openCursor c q = andThen (fetchRetrying c q) (lookUp q) := by
      unfold openCursor lookUp
      rw [if_pos hknown]
    rw [hopen]
    unfold fetchRetrying
    rcases fetchAll_ends c q.first with ⟨o, hfetch, hanswer, hbreaks⟩ |
      ⟨c', detail, hfetch, hdown, hcommitted, hbreaks⟩
    · refine .inr ⟨fun h => hbreaks _ h.2.1, ?_⟩
      rw [hfetch]
      cases o with
      | none => exact same_lookUp
      | some e =>
        dsimp only
        rw [if_neg (by simp [hanswer e rfl])]
        exact fun _ => rfl
    · rw [hfetch, hbreaks]
      dsimp only
      cases hlost : isConnectionLost (mariadbError (.lost detail)) with
      | false =>
        exact .inr ⟨fun h => Bool.noConfusion h.2.1, fun hup => by simp [andThen, hdown] at hup⟩
      | true =>
        cases hnew : q.established with
        | false =>
          exact .inr ⟨fun h => Bool.noConfusion h.2.2.1,
            fun hup => by simp [andThen, reconnect, hdown] at hup⟩
        | true =>
          simp only [if_true, reconnect, andThen_andThen, true_and, hcommitted]
          set new : MariaConn ε := MariaConn.establish c.db.committed
          have hlink := up_fetchAll_andThen (c := new) rfl q.second (k := lookUp q)
            fun c' hup => up_lookUp hup
          by_cases hup : (andThen (fetchAll new q.second) (lookUp q)).1.up = true
          · exact .inl ⟨hlink.1 hup, same_fetchAll_andThen same_lookUp hup⟩
          · exact .inr ⟨fun h => hup (hlink.2 h), fun h => absurd h hup⟩

/-- What follows on an error of a probe. -/
lemma ping_failed {c' : MariaConn ε} (hcommitted : c'.db.committed = c.db.committed)
    (hsame : c'.up = true → c' = c) (e : Fault) (established : Bool) (second : Reply) :
    let p := if isConnectionLost (pingError e) then
      andThen (reconnect c' established) fun c => c.send second some else (c', some e)
    ((isConnectionLost (pingError e) = true ∧ established = true ∧ second.link True) ∧
      p.1 = MariaConn.establish c.db.committed) ∨
    (¬ (isConnectionLost (pingError e) = true ∧ established = true ∧ second.link True) ∧
      (p.1.up = true → p.1 = c)) := by
  intro p
  cases hlost : isConnectionLost (pingError e) with
  | false => exact .inr ⟨fun h => Bool.noConfusion h.1, by simpa [p, hlost] using hsame⟩
  | true =>
    cases hnew : established with
    | false =>
      refine .inr ⟨fun h => Bool.noConfusion h.2.1, ?_⟩
      simpa [p, hlost, hnew, reconnect, andThen] using hsame
    | true =>
      set new : MariaConn ε := MariaConn.establish c.db.committed
      have hp : p = new.send second some := by
        simp [p, hlost, hnew, reconnect, andThen, hcommitted, new]
      rw [hp]
      have hlink := up_send (c := new) rfl second some
      by_cases hup : (new.send second some).1.up = true
      · exact .inl ⟨⟨rfl, rfl, hlink.1 hup⟩, same_send hup⟩
      · exact .inr ⟨fun h => hup (hlink.2 h.2.2), fun h => absurd h hup⟩

/-- **A probe** leaves the connection as it is, or replaces it by a new one. -/
lemma ping_ends (c : MariaConn ε) (first : Reply) (established : Bool) (second : Reply) :
    (pingReplaces c.up first established second ∧
      (ping c first established second).1 = MariaConn.establish c.db.committed) ∨
    (¬ pingReplaces c.up first established second ∧
      ((ping c first established second).1.up = true →
        (ping c first established second).1 = c)) := by
  obtain ⟨d, _ | _⟩ := c
  · cases first with
    | ok => exact ping_failed (c := ⟨d, false⟩) rfl (fun _ => rfl) (.lost []) established second
    | refused detail =>
      exact ping_failed (c := ⟨d, false⟩) rfl (fun _ => rfl) (.lost []) established second
    | lost applied detail =>
      exact ping_failed (c := ⟨d, false⟩) rfl (fun _ => rfl) (.lost detail) established second
  · cases first with
    | ok => exact .inr ⟨fun h => h.1, fun _ => rfl⟩
    | refused detail =>
      exact ping_failed (c := ⟨d, true⟩) rfl (fun _ => rfl) (.refused detail) established second
    | lost applied detail =>
      have hfailed := @ping_failed _ ⟨d, true⟩ (MariaConn.drop ⟨d, true⟩) rfl
        (fun hup => by cases hup) (.lost detail) established second
      cases applied <;> exact hfailed

end Queries

/-! ### Ends of a transaction -/

section Ends

variable {c : MariaConn ε}

lemma savepoints_send (h : c.db.savepoints = []) (r : Reply) {f : Db String ε → Db String ε}
    (hf : ∀ d, d.savepoints = [] → (f d).savepoints = []) :
    (c.send r fun d => some (f d)).1.db.savepoints = [] := by
  unfold MariaConn.send
  split_ifs with hup
  · cases r with
    | ok => exact hf _ h
    | refused detail => exact h
    | lost applied detail => rfl
  · cases r <;> exact h

lemma savepoints_performAll_ddl (h : c.db.savepoints = []) (os : List (Outcome ε)) :
    (performAll Db.ddl c os).1.db.savepoints = [] := by
  induction os generalizing c with
  | nil => exact h
  | cons o os ih =>
    unfold performAll MariaConn.perform
    split_ifs with hup
    · cases o with
      | done es => exact ih rfl
      | refused es detail => rfl
      | lost es detail => rfl
    · cases o <;> exact h

/-- The command that ends the transaction is refused, or leaves no savepoint. -/
lemma ended {r : Reply} {f : Db String ε → Db String ε}
    {k : MariaConn ε → MariaConn ε × Option Fault} (hf : ∀ d, (f d).savepoints = [])
    (hk : ∀ c' : MariaConn ε, c'.db.savepoints = [] → (k c').1.db.savepoints = [])
    (hup : (andThen (c.send r fun d => some (f d)) k).1.up = true) :
    c.up = true ∧ (r.isRefused = true → (andThen (c.send r fun d => some (f d)) k).1 = c) ∧
      (r.isRefused = false → (andThen (c.send r fun d => some (f d)) k).1.db.savepoints = []) := by
  obtain ⟨d, _ | _⟩ := c
  · obtain ⟨e, hsend⟩ := send_of_down (c := ⟨d, false⟩) rfl r fun d => some (f d)
    rw [hsend] at hup
    cases hup
  · cases r with
    | ok => exact ⟨rfl, nofun, fun _ => hk _ (hf d)⟩
    | refused detail => exact ⟨rfl, fun _ => rfl, nofun⟩
    | lost applied detail => cases hup

lemma savepoints_andThen {p : MariaConn ε × Option Fault}
    {k : MariaConn ε → MariaConn ε × Option Fault} (hp : p.1.db.savepoints = [])
    (hk : ∀ c' : MariaConn ε, c'.db.savepoints = [] → (k c').1.db.savepoints = []) :
    (andThen p k).1.db.savepoints = [] := by
  obtain ⟨c', _ | e⟩ := p
  · exact hk c' hp
  · exact hp

/-- The ends of a transaction. -/
lemma step_ended {op : MariaOp ε} {r : Reply} (hends : op.ends = some r)
    (hup : (c.step op).1.up = true) :
    c.up = true ∧ (r.isRefused = true → (c.step op).1 = c) ∧
      (r.isRefused = false → (c.step op).1.db.savepoints = []) := by
  cases op with
  | executeReturning q => cases hends
  | openCursor q => cases hends
  | ping first established second => cases hends
  | executeDdl q =>
    obtain rfl := Option.some.inj hends
    refine ended (fun _ => rfl) (fun c' h => ?_) hup
    cases q.insteadOf with
    | true => exact savepoints_send h q.start fun _ _ => rfl
    | false =>
      cases q.prepares with
      | false => exact h
      | true =>
        simp only [Bool.false_eq_true, if_false, if_true, andThen_fst]
        exact savepoints_send (savepoints_send (savepoints_performAll_ddl h q.statements)
          q.commitAfter fun _ _ => rfl) q.start fun _ _ => rfl
  | executeSimple t =>
    cases t with
    | commit r' start =>
      obtain rfl := Option.some.inj hends
      exact ended (fun _ => rfl) (fun c' h => savepoints_send h start fun _ _ => rfl) hup
    | rollback r' start =>
      obtain rfl := Option.some.inj hends
      exact ended (fun _ => rfl) (fun c' h => savepoints_send h start fun _ _ => rfl) hup
    | setTransaction r' set start =>
      obtain rfl := Option.some.inj hends
      exact ended (fun _ => rfl) (fun c' h => savepoints_andThen
        (savepoints_send h set (f := id) fun _ h => h)
        fun c'' h' => savepoints_send h' start fun _ _ => rfl) hup
    | unknownSequence => cases hends
    | insteadOf o => cases hends
    | begin => cases hends
    | savepoint name r' => cases hends
    | release name r' => cases hends
    | rollbackTo name r' => cases hends
    | statement mode prepares body => cases hends

end Ends

/-! ### One operation -/

section Operation

variable {b : Book ε} {c : MariaConn ε}

/-- An operation that is accounted for by its effects. -/
lemma sound_grows (h : c.up = true → Sound b c.db) {op : MariaOp ε}
    (hgrows : Grows c (c.step op) op.effects)
    (hnext : b.next c op = if (c.step op).2.isSome then b else
      { b with acked := b.acked ++ op.effects }) (hup : (c.step op).1.up = true) :
    Sound (b.next c op) (c.step op).1.db := by
  obtain ⟨hupc, hext, hvisible⟩ := hgrows hup
  rw [hnext]
  cases hanswer : (c.step op).2 with
  | some e => exact (h hupc).extends hext
  | none => exact (h hupc).acked hext (hvisible hanswer)

/-- An operation that ends the transaction. -/
lemma sound_ended (h : c.up = true → Sound b c.db) {op : MariaOp ε} {r : Reply}
    (hends : op.ends = some r) (hup : (c.step op).1.up = true) :
    Sound (b.next c op) (c.step op).1.db := by
  obtain ⟨hupc, hrefused, hdone⟩ := step_ended hends hup
  have hnext : b.next c op =
      if c.up && r.isRefused then b else ⟨(c.step op).1.db.committed, [], []⟩ := by
    simp only [Book.next, hends]
  rw [hnext, hupc, Bool.true_and]
  cases href : r.isRefused with
  | true =>
    rw [hrefused href]
    exact h hupc
  | false =>
    refine ⟨within_nil _ _, fun sp hsp => ?_⟩
    rw [hdone href] at hsp
    cases hsp

/-- A query and a probe are not accounted for. -/
lemma next_of_effects_nil (op : MariaOp ε) (heffects : op.effects = [])
    (hnext : b.next c op = if (c.step op).2.isSome then b else
      { b with acked := b.acked ++ op.effects }) : b.next c op = b := by
  rw [hnext, heffects, List.append_nil]
  exact ite_self b

/-- A new connection that finds everything committed. -/
lemma sound_establish (h : Within b.base b.acked c.db.committed) :
    Sound b (MariaConn.establish c.db.committed).db :=
  ⟨h.append [], fun _ hsp => by cases hsp⟩

lemma sound_savepoint (h : c.up = true → Sound b c.db) (name : String) (r : Reply)
    (hup : (c.step (.executeSimple (.savepoint name r))).1.up = true) :
    Sound (b.next c (.executeSimple (.savepoint name r)))
      (c.step (.executeSimple (.savepoint name r))).1.db := by
  obtain ⟨d, _ | _⟩ := c
  · have hdown := send_down (c := ⟨d, false⟩) rfl r fun d => some (d.savepoint name)
    exact absurd ((congrArg MariaConn.up hdown).symm.trans hup) Bool.false_ne_true
  · cases r with
    | refused detail => exact h rfl
    | lost applied detail => cases hup
    | ok =>
      obtain ⟨hintact, hmarks⟩ := h rfl
      refine ⟨(Db.savepoint_visible d name).symm ▸ hintact, fun sp hsp hne => ?_⟩
      change ∃ acked, List.lookup sp.1 ((name, b.acked) :: b.marks) = some acked ∧
        Within b.base acked ((d.savepoint name).committed ++ sp.2)
      rw [Db.savepoint_committed]
      by_cases hname : sp.1 = name
      · refine ⟨b.acked, by simp [hname], ?_⟩
        rw [Db.mem_savepoint_self d name hsp hname]
        exact hintact
      · obtain ⟨acked, hlookup, hwithin⟩ := hmarks sp (Db.mem_savepoint d name hsp hname) hne
        refine ⟨acked, ?_, hwithin⟩
        rw [List.lookup_cons, beq_false_of_ne hname]
        exact hlookup

/-- Going back to a savepoint: to what was accounted for there. -/
lemma sound_rollbackTo (h : c.up = true → Sound b c.db) (name : String) (r : Reply)
    (hkeeps : KeepsWork b c (.executeSimple (.rollbackTo name r)))
    (hup : (c.step (.executeSimple (.rollbackTo name r))).1.up = true) :
    Sound (b.next c (.executeSimple (.rollbackTo name r)))
      (c.step (.executeSimple (.rollbackTo name r))).1.db := by
  obtain ⟨d, _ | _⟩ := c
  · have hdown := send_down (c := ⟨d, false⟩) rfl r fun d => d.rollbackTo name
    exact absurd ((congrArg MariaConn.up hdown).symm.trans hup) Bool.false_ne_true
  · cases r with
    | refused detail => exact h rfl
    | lost applied detail => cases hup
    | ok =>
      obtain ⟨hintact, hmarks⟩ := h rfl
      cases hback : d.rollbackTo name with
      | none =>
        have hstep : MariaConn.step ⟨d, true⟩ (.executeSimple (.rollbackTo name .ok)) =
            (⟨d, true⟩, some (.refused [])) := by
          simp [MariaConn.step, executeSimple, MariaConn.send, hback]
        simp only [Book.next, MariaOp.ends, hstep, Option.isSome_some, if_true]
        exact h rfl
      | some d' =>
        have hstep : MariaConn.step ⟨d, true⟩ (.executeSimple (.rollbackTo name .ok)) =
            (⟨d', true⟩, none) := by
          simp [MariaConn.step, executeSimple, MariaConn.send, hback]
        simp only [Book.next, MariaOp.ends, hstep, Option.isSome_none, Bool.false_eq_true, if_false]
        obtain ⟨sp, below, hdrop, hname, rfl⟩ := Db.rollbackTo_eq_some hback
        have hsub : ∀ sp' ∈ sp :: below, sp' ∈ d.savepoints := fun sp' hmem =>
          (List.dropWhile_sublist _).subset (hdrop ▸ hmem)
        refine ⟨?_, fun sp' hmem hne => hmarks sp' (hsub sp' hmem) hne⟩
        by_cases hstatement : name = dbsaciStatement
        · exact hkeeps hstatement rfl _ hback
        · obtain ⟨acked, hlookup, hwithin⟩ :=
            hmarks sp (hsub sp List.mem_cons_self) (hname ▸ hstatement)
          rw [← hname, hlookup]
          exact hwithin

/-- **One operation** that meets the condition keeps what is accounted for. -/
theorem sound_step (h : c.up = true → Sound b c.db) {op : MariaOp ε} (hkeeps : KeepsWork b c op)
    (hup : (c.step op).1.up = true) : Sound (b.next c op) (c.step op).1.db := by
  cases op with
  | executeDdl q => exact sound_ended h rfl hup
  | executeReturning q => exact sound_grows h (grows_executeReturning c q) rfl hup
  | openCursor q =>
    rw [next_of_effects_nil (.openCursor q) rfl rfl]
    rcases openCursor_ends c q with ⟨hreplaces, hnew⟩ | ⟨-, hsame⟩
    · exact hnew.symm ▸ sound_establish (hkeeps hreplaces)
    · have hstep : (c.step (.openCursor q)).1 = c := hsame hup
      rw [hstep] at hup ⊢
      exact h hup
  | ping first established second =>
    rw [next_of_effects_nil (.ping first established second) rfl rfl]
    rcases ping_ends c first established second with ⟨hreplaces, hnew⟩ | ⟨-, hsame⟩
    · exact hnew.symm ▸ sound_establish (hkeeps hreplaces)
    · have hstep : (c.step (.ping first established second)).1 = c := hsame hup
      rw [hstep] at hup ⊢
      exact h hup
  | executeSimple t =>
    cases t with
    | unknownSequence => exact sound_grows h (Grows.same _) rfl hup
    | begin => exact sound_grows h (Grows.same _) rfl hup
    | insteadOf o => exact sound_grows h (Grows.perform o) rfl hup
    | commit r start => exact sound_ended h rfl hup
    | rollback r start => exact sound_ended h rfl hup
    | setTransaction r set start => exact sound_ended h rfl hup
    | savepoint name r => exact sound_savepoint h name r hup
    | release name r => exact sound_grows h (grows_release c r name) rfl hup
    | rollbackTo name r => exact sound_rollbackTo h name r hkeeps hup
    | statement mode prepares body =>
      exact sound_grows h (grows_statement c mode prepares body) rfl hup

/-- A COMMIT that is answered by Ok commits what the session sees. -/
lemma commit_ok {r start : Reply}
    (hok : (c.step (.executeSimple (.commit r start))).2 = none) :
    c.up = true ∧ (c.step (.executeSimple (.commit r start))).1.db.committed = c.db.visible := by
  obtain ⟨d, _ | _⟩ := c
  · obtain ⟨e, hsend⟩ := send_of_down (c := ⟨d, false⟩) rfl r fun d => some d.commit
    simp [MariaConn.step, executeSimple, hsend, andThen] at hok
  · cases r with
    | refused detail => cases hok
    | lost applied detail => cases hok
    | ok =>
      cases start with
      | refused detail => cases hok
      | lost applied detail => cases hok
      | ok => exact ⟨rfl, Db.commit_visible d⟩

lemma noLoss_of_keepsWork (h : c.up = true → Sound b c.db) {op : MariaOp ε}
    (hkeeps : KeepsWork b c op) : NoLoss b c op := by
  refine ⟨fun hcommit hok => ?_, fun hup => (sound_step h hkeeps hup).intact⟩
  cases op with
  | executeDdl q => exact absurd hcommit id
  | executeReturning q => exact absurd hcommit id
  | openCursor q => exact absurd hcommit id
  | ping first established second => exact absurd hcommit id
  | executeSimple t =>
    cases t with
    | commit r start =>
      obtain ⟨hup, hcommitted⟩ := commit_ok hok
      rw [hcommitted]
      exact (h hup).intact
    | _ => exact absurd hcommit id

/-- What is there after a query or a probe that goes on with a new connection is committed. -/
lemma within_of_replaced {op : MariaOp ε} (hnext : b.next c op = b)
    (hnew : (c.step op).1 = MariaConn.establish c.db.committed) (hloss : NoLoss b c op) :
    Within b.base b.acked c.db.committed := by
  have hintact := hloss.intact (by rw [hnew]; rfl)
  rw [hnext, hnew] at hintact
  simpa [MariaConn.establish, Db.visible, Db.pending] using hintact

lemma keepsWork_of_noLoss {op : MariaOp ε} (hloss : NoLoss b c op) : KeepsWork b c op := by
  cases op with
  | executeDdl q => trivial
  | executeReturning q => trivial
  | openCursor q =>
    intro hreplaces
    rcases openCursor_ends c q with ⟨-, hnew⟩ | ⟨hno, -⟩
    · exact within_of_replaced (next_of_effects_nil (.openCursor q) rfl rfl) hnew hloss
    · exact absurd hreplaces hno
  | ping first established second =>
    intro hreplaces
    rcases ping_ends c first established second with ⟨-, hnew⟩ | ⟨hno, -⟩
    · exact within_of_replaced
        (next_of_effects_nil (.ping first established second) rfl rfl) hnew hloss
    · exact absurd hreplaces hno
  | executeSimple t =>
    cases t with
    | rollbackTo name r =>
      cases r with
      | refused detail => trivial
      | lost applied detail => trivial
      | ok =>
        rintro - hup d hback
        have hstep : c.step (.executeSimple (.rollbackTo name .ok)) = (⟨d, true⟩, none) := by
          simp [MariaConn.step, executeSimple, MariaConn.send, hup, hback]
        have hintact := hloss.intact (by rw [hstep])
        simpa only [Book.next, MariaOp.ends, hstep, Option.isSome_none, Bool.false_eq_true,
          if_false] using hintact
    | _ => trivial

/-- **One operation**: if what is accounted for is there, the condition is exact. -/
theorem noLoss_iff (h : c.up = true → Sound b c.db) (op : MariaOp ε) :
    NoLoss b c op ↔ KeepsWork b c op :=
  ⟨keepsWork_of_noLoss, noLoss_of_keepsWork h⟩

end Operation

/-! ### Runs -/

/-- A run that begins with everything accounted for. -/
lemma each_noLoss_of_sound {b : Book ε} {c : MariaConn ε} (h : c.up = true → Sound b c.db)
    (ops : List (MariaOp ε)) : EachBook NoLoss b c ops ↔ EachBook KeepsWork b c ops := by
  induction ops generalizing b c with
  | nil => exact Iff.rfl
  | cons op ops ih =>
    calc NoLoss b c op ∧ EachBook NoLoss (b.next c op) (c.step op).1 ops
        ↔ KeepsWork b c op ∧ EachBook NoLoss (b.next c op) (c.step op).1 ops :=
          and_congr_left' (noLoss_iff h op)
      _ ↔ KeepsWork b c op ∧ EachBook KeepsWork (b.next c op) (c.step op).1 ops :=
          and_congr_right fun hkeeps => ih fun hup => sound_step h hkeeps hup

/-- **A run loses nothing** exactly if each of its operations meets the condition. -/
theorem each_noLoss_iff (committed : List ε) (ops : List (MariaOp ε)) :
    EachBook NoLoss ⟨committed, [], []⟩ (MariaConn.establish committed) ops ↔
      EachBook KeepsWork ⟨committed, [], []⟩ (MariaConn.establish committed) ops :=
  each_noLoss_of_sound (fun _ => sound_establish (b := ⟨committed, [], []⟩)
    (c := MariaConn.establish committed) ⟨[], (List.append_nil _).symm, List.Sublist.refl _⟩) ops

/-- An INSERT is answered by Ok, a query meets a broken link and goes on with a new connection, and
a COMMIT is answered by Ok: nothing is committed. -/
theorem reconnect_loses :
    let insert : MariaOp ℕ :=
      .executeSimple (.statement .ok true (.single .ok (.done [7]) .ok .ok .ok))
    let query : MariaOp ℕ := .openCursor
      ⟨true, ⟨.lost false "early eof".toList, true, .ok⟩, true,
        ⟨.ok, true, .ok⟩, none, true⟩
    let commit : MariaOp ℕ := .executeSimple (.commit .ok .ok)
    let c := MariaConn.establish []
    (c.step insert).2 = none ∧ ((c.run [insert]).step query).2 = none ∧
      ((c.run [insert, query]).step commit).2 = none ∧
      (c.run [insert, query, commit]).db.committed = [] ∧
      ¬ EachBook NoLoss ⟨[], [], []⟩ c [insert, query, commit] := by
  intro insert query commit c
  have hempty : (c.run [insert, query, commit]).db.committed = [] := by decide +kernel +zetaReduce
  have hok : ((c.run [insert, query]).step commit).2 = none := by decide +kernel +zetaReduce
  refine ⟨by decide +kernel +zetaReduce, by decide +kernel +zetaReduce, hok, hempty,
    fun hrun => ?_⟩
  obtain ⟨-, -, hcommit, -⟩ := hrun
  obtain ⟨x, hcommitted, hsub⟩ := hcommit.durable trivial hok
  obtain ⟨-, rfl⟩ := List.append_eq_nil_iff.1 (hcommitted.symm.trans hempty)
  have hacked : (((Book.mk [] [] []).next c insert).next (c.run [insert]) query).acked = [7] := by
    decide +kernel +zetaReduce
  exact absurd ((List.sublist_nil.1 hsub).symm.trans hacked) (List.cons_ne_nil 7 []).symm

end DbSaci.Backend.Maria
