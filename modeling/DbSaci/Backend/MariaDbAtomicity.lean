import DbSaci.Backend.MariaDb

set_option relaxedAutoImplicit false
set_option autoImplicit false

/-!
# Statements that fail, in MariaDB

A client counts on a statement that is answered by an error having done nothing, and on the
savepoint it was run under being gone. Only one of the ways a statement is run goes back to its
savepoint; the others leave at the error with what was done before it.

## Main definitions

* `Restored` — the data are what they were, and no savepoint is left.
* `Atomic` — what the client counts on, for one operation.
* `AtomicWhen` — when an operation is atomic, as a condition on its replies.

## Main results

* `atomic_iff` — the condition is exact, in every state.
* `each_atomic_iff` — a run is atomic exactly if each of its steps meets the condition.
* `batch_not_atomic` — several statements in one text, of which the second is refused.
-/

namespace DbSaci.Backend.Maria

open MariaConn

variable {ε : Type}

/-! ### The property -/

/-- There is a savepoint of a statement. -/
def Held (d : Db String ε) : Prop := ∃ sp ∈ d.savepoints, sp.1 = dbsaciStatement

/-- The session sees what it saw, and no savepoint of a statement is left. -/
structure Restored (d d' : Db String ε) : Prop where
  visible : d'.visible = d.visible
  savepoint : Held d' → Held d

/-- After an error everything is restored. -/
def Answers (d : Db String ε) (p : MariaConn ε × Option Fault) : Prop :=
  ∀ e, p.2 = some e → Restored d p.1.db

/-- The operations that change the data by a statement. -/
def MariaOp.isDml : MariaOp ε → Prop
  | .executeSimple .unknownSequence | .executeSimple (.insteadOf _) => True
  | .executeSimple (.statement _ _ (.batch ..)) => True
  | .executeSimple (.statement _ _ (.single ..)) => True
  | .executeReturning _ => True
  | _ => False

/-- **What the client counts on**: a statement that is answered by an error has done nothing. -/
def Atomic (c : MariaConn ε) (op : MariaOp ε) : Prop := op.isDml → Answers c.db (c.step op)

/-! ### The condition -/

/-- The link may break after `es` was done: there was no work that is lost, and outside of a
transaction nothing stays. -/
def LinkLost (d : Db String ε) (es : List ε) : Prop :=
  match d.work with
  | none => es = []
  | some w => w.effects = []

/-- A statement may be left after `es` was done: that is nothing, and its savepoint has taken the
place of another one. -/
def Left (d : Db String ε) (es : List ε) : Prop := es = [] ∧ (d.work.isSome = true → Held d)

/-- A command that comes before anything is done. -/
def Reply.first (r : Reply) (d : Db String ε) (next : Prop) : Prop :=
  match r with
  | .ok => next
  | .refused _ => True
  | .lost _ _ => LinkLost d []

/-- The savepoint is released after `es` was done, which is an error where there is none. -/
def Reply.released (r : Reply) (d : Db String ε) (es : List ε) : Prop :=
  match r with
  | .ok => d.work.isSome = true ∨ es = []
  | .refused _ => Left d es
  | .lost _ _ => LinkLost d es

/-- The savepoint is released after an error, when `es` is still done. -/
def Reply.releasedAfter (r : Reply) (d : Db String ε) (es : List ε) : Prop :=
  match r with
  | .ok => es = []
  | .refused _ => Left d es
  | .lost _ _ => LinkLost d es

/-- The statements of a batch, after `es` was done. -/
def batchAtomic (d : Db String ε) (release : Reply) : List ε → List (Outcome ε) → Prop
  | es, [] => release.released d es
  | es, .done e :: os => batchAtomic d release (es ++ e) os
  | es, .refused e _ :: _ => Left d (es ++ e)
  | es, .lost e _ :: _ => LinkLost d (es ++ e)

/-- The statement is undone by going back to its savepoint. -/
def undoneAtomic (d : Db String ε) (es : List ε) (rollbackTo releaseAfter : Reply) : Prop :=
  match rollbackTo with
  | .ok => releaseAfter.releasedAfter d (if d.work.isSome then [] else es)
  | .refused _ => releaseAfter.releasedAfter d es
  | .lost _ _ => LinkLost d es

/-- The ways a statement is run. -/
def Body.atomic (d : Db String ε) : Body ε → Prop
  | .batch savepoint os release => savepoint.first d (batchAtomic d release [] os)
  | .program _ _ => True
  | .single savepoint o release rollbackTo releaseAfter =>
    savepoint.first d (match o with
      | .done es => release.released d es
      | .refused es _ => undoneAtomic d es rollbackTo releaseAfter
      | .lost es _ => LinkLost d es)

/-- A statement without a savepoint, and what may follow on it. -/
def Outcome.bare (o : Outcome ε) (d : Db String ε) (next : List ε → Prop) : Prop :=
  match o with
  | .done es => next es
  | .refused es _ => es = []
  | .lost es _ => LinkLost d es

/-- A statement with RETURNING. -/
def Returning.atomic (d : Db String ε) (encodes : Bool) : Returning ε → Prop
  | .nothing | .noSelect => True
  | .one o => o.bare d fun es => encodes = true ∨ es = []
  | .two o select => o.bare d fun es =>
    match select with
    | .ok => encodes = true ∨ es = []
    | .refused _ => es = []
    | .lost _ _ => LinkLost d es

/-- **The operation is atomic**, as a condition on the replies and on the transaction before. -/
def AtomicWhen (c : MariaConn ε) (op : MariaOp ε) : Prop :=
  op.isDml → c.up = true → match op with
    | .executeSimple (.insteadOf o) => o.bare c.db fun _ => True
    | .executeSimple (.statement mode prepares body) =>
      mode.first c.db (prepares = true → body.atomic c.db)
    | .executeReturning q => q.mode.first c.db (q.prepares = true → q.body.atomic c.db q.encodes)
    | _ => True

/-! ### In the middle of a statement -/

section During

/-- The database under the savepoint of a statement, after `es` was done. -/
def during (d : Db String ε) (es : List ε) : Db String ε := (d.savepoint dbsaciStatement).dml es

variable (d : Db String ε) (es : List ε)

lemma dml_nil : d.dml [] = d := by
  obtain ⟨committed, _ | w⟩ := d <;> simp [Db.dml]

lemma dml_dml (es' : List ε) : (d.dml es).dml es' = d.dml (es ++ es') := by
  obtain ⟨committed, _ | w⟩ := d <;> simp [Db.dml]

lemma during_nil : during d [] = d.savepoint dbsaciStatement := dml_nil _

lemma during_dml (es' : List ε) : (during d es).dml es' = during d (es ++ es') := dml_dml _ _ _

lemma held_during : Held (during d es) ↔ d.work.isSome = true := by
  obtain ⟨committed, _ | w⟩ := d
  · simp [Held, during, Db.savepoint, Db.savepoints, Db.dml]
  · simp [Held, during, Db.savepoint, Db.savepoints, Db.dml]

lemma during_committed : (during d es).committed = (d.dml es).committed := by
  obtain ⟨committed, _ | w⟩ := d <;> rfl

lemma restored_self : Restored d d := ⟨rfl, id⟩

lemma restored_dml : Restored d (d.dml es) ↔ es = [] := by
  refine ⟨fun h => by simpa using h.visible, fun h => ?_⟩
  rw [h, dml_nil]
  exact restored_self d

lemma restored_during : Restored d (during d es) ↔ Left d es := by
  refine ⟨fun h => ⟨?_, fun hopen => ?_⟩, fun h => ⟨?_, fun hheld => ?_⟩⟩
  · simpa [during] using h.visible
  · exact h.savepoint ((held_during d es).2 hopen)
  · simp [during, h.1]
  · exact h.2 ((held_during d es).1 hheld)

/-- The link breaks after `es` was done. -/
lemma restored_rollback {d' : Db String ε} (hcommitted : d'.committed = (d.dml es).committed) :
    Restored d d'.rollback ↔ LinkLost d es := by
  have hvisible : d'.rollback.visible = d.visible ↔ LinkLost d es := by
    rw [Db.rollback_visible, hcommitted]
    obtain ⟨committed, _ | w⟩ := d
    · simp [Db.dml, Db.visible, Db.pending, LinkLost]
    · simp [Db.dml, Db.visible, Db.pending, LinkLost]
  exact ⟨fun h => hvisible.1 h.visible, fun h =>
    ⟨hvisible.2 h, fun hheld => by simp [Held] at hheld⟩⟩

/-- The savepoint is released. -/
lemma restored_release {d' : Db String ε} (h : (during d es).release dbsaciStatement = some d') :
    Restored d d' ↔ es = [] := by
  have hvisible : d'.visible = d.visible ++ es := by simp [Db.release_visible h, during]
  have hgone : ¬ Held d' := by
    obtain ⟨committed, _ | w⟩ := d
    · simp [during, Db.savepoint, Db.dml, Db.release, Db.savepoints] at h
    · have hreleased := Db.release_savepoint (d := ⟨committed, some w⟩) (n := dbsaciStatement)
        (w := w) es
      obtain rfl := Option.some.inj (hreleased.symm.trans h)
      simp [Held, Db.savepoints]
  exact ⟨fun hrestored => by simpa [hvisible] using hrestored.visible, fun hes =>
    ⟨by simp [hvisible, hes], fun hheld => absurd hheld hgone⟩⟩

lemma release_during : ((during d es).release dbsaciStatement).isSome = d.work.isSome := by
  obtain ⟨committed, _ | w⟩ := d
  · rfl
  · simp [during, Db.savepoint, Db.dml, Db.release, Db.savepoints]

lemma rollbackTo_during : (during d es).rollbackTo dbsaciStatement =
    if d.work.isSome then some (during d []) else none := by
  obtain ⟨committed, _ | w⟩ := d
  · rfl
  · rw [during_nil]
    exact Db.rollbackTo_savepoint (d := ⟨committed, some w⟩) es

end During

/-! ### Commands -/

section Commands

variable (d : Db String ε)

@[simp]
lemma answers_none (c : MariaConn ε) : Answers d (c, none) ↔ True :=
  iff_true_intro fun e he => by cases he

@[simp]
lemma answers_some (c : MariaConn ε) (e : Fault) : Answers d (c, some e) ↔ Restored d c.db :=
  ⟨fun h => h e rfl, fun h _ _ => h⟩

/-- A command that comes before anything is done. -/
lemma answers_first (r : Reply) {f : Db String ε → Db String ε}
    {k : MariaConn ε → MariaConn ε × Option Fault} {P : Prop}
    (hf : (f d).committed = d.committed) (hk : Answers d (k ⟨f d, true⟩) ↔ P) :
    Answers d (andThen (MariaConn.send ⟨d, true⟩ r fun d => some (f d)) k) ↔ r.first d P := by
  cases r with
  | ok => exact hk
  | refused detail => exact (answers_some d _ _).trans (iff_true_intro (restored_self d))
  | lost applied detail =>
    refine (answers_some d _ _).trans (restored_rollback d [] ?_)
    rw [dml_nil]
    cases applied with
    | false => rfl
    | true => exact hf

lemma release_committed {d' : Db String ε} (hname : d.release dbsaciStatement = some d') :
    d'.committed = d.committed := by
  obtain ⟨sp, below, -, rfl⟩ := Db.release_eq_some hname
  rfl

variable (es : List ε)

/-- The link breaks while a savepoint is released or gone back to. -/
lemma restored_lost (applied : Bool) {o : Option (Db String ε)}
    (ho : ∀ d', o = some d' → d'.committed = (during d es).committed) :
    Restored d (if applied then o.getD (during d es) else during d es).rollback ↔
      LinkLost d es := by
  refine restored_rollback d es ?_
  rw [← during_committed]
  cases applied with
  | false => rfl
  | true =>
    cases o with
    | none => rfl
    | some d' => exact ho d' rfl

/-- The savepoint is released at the end. -/
lemma answers_release (r : Reply) :
    Answers d (MariaConn.send ⟨during d es, true⟩ r fun d => d.release dbsaciStatement) ↔
      r.released d es := by
  cases r with
  | refused detail => exact (answers_some d _ _).trans (restored_during d es)
  | lost applied detail =>
    exact (answers_some d _ _).trans (restored_lost d es applied fun d' => release_committed _)
  | ok =>
    have hopen := release_during d es
    simp only [MariaConn.send, if_true, Reply.released, ← hopen]
    cases hrelease : (during d es).release dbsaciStatement with
    | some d' => simp
    | none =>
      rw [hrelease] at hopen
      simp [restored_during, Left, ← hopen]

/-- The savepoint is released after an error. -/
lemma restored_releaseAfter (r : Reply) :
    Restored d (MariaConn.send ⟨during d es, true⟩ r fun d => d.release dbsaciStatement).1.db ↔
      r.releasedAfter d es := by
  cases r with
  | refused detail => exact restored_during d es
  | lost applied detail => exact restored_lost d es applied fun d' => release_committed _
  | ok =>
    have hopen := release_during d es
    simp only [MariaConn.send, if_true, Reply.releasedAfter]
    cases hrelease : (during d es).release dbsaciStatement with
    | some d' => exact restored_release d es hrelease
    | none =>
      rw [hrelease] at hopen
      simp [restored_during, Left, ← hopen]

/-- The statement is undone. -/
lemma answers_undone (release rollbackTo releaseAfter : Reply) (e : Fault) :
    Answers d (endSingle (⟨during d es, true⟩, some e) release rollbackTo releaseAfter) ↔
      undoneAtomic d es rollbackTo releaseAfter := by
  refine (answers_some d _ _).trans ?_
  cases rollbackTo with
  | refused detail => exact restored_releaseAfter d es releaseAfter
  | lost applied detail =>
    rw [send_down rfl]
    refine restored_lost d es applied fun d' hback => ?_
    obtain ⟨sp, below, -, -, rfl⟩ := Db.rollbackTo_eq_some hback
    rfl
  | ok =>
    simp only [MariaConn.send, if_true, rollbackTo_during, undoneAtomic]
    cases d.work.isSome with
    | true => exact restored_releaseAfter d [] releaseAfter
    | false => exact restored_releaseAfter d es releaseAfter

/-- The statements of a batch. -/
lemma answers_batch (release : Reply) (os : List (Outcome ε)) :
    Answers d (andThen (performAll Db.dml ⟨during d es, true⟩ os) fun c =>
        c.send release fun d => d.release dbsaciStatement) ↔
      batchAtomic d release es os := by
  induction os generalizing es with
  | nil => exact answers_release d es release
  | cons o os ih =>
    rw [performAll, andThen_andThen]
    cases o with
    | done e =>
      have hrest := ih (es ++ e)
      rw [← during_dml] at hrest
      exact hrest
    | refused e detail =>
      refine (answers_some d _ _).trans ?_
      change Restored d ((during d es).dml e) ↔ _
      rw [during_dml]
      exact restored_during d (es ++ e)
    | lost e detail =>
      refine (answers_some d _ _).trans ?_
      change Restored d ((during d es).dml e).rollback ↔ _
      rw [during_dml]
      exact restored_rollback d (es ++ e) (during_committed d (es ++ e))

/-- The ways a statement is run. -/
lemma answers_body {body : Body ε} (hbody : ∀ o start, body ≠ .program o start) :
    Answers d (runBody ⟨d, true⟩ body) ↔ body.atomic d := by
  have hsavepoint := Db.savepoint_committed d dbsaciStatement
  cases body with
  | program o start => exact absurd rfl (hbody o start)
  | batch savepoint os release =>
    refine answers_first d savepoint hsavepoint ?_
    rw [← during_nil]
    exact answers_batch d [] release os
  | single savepoint o release rollbackTo releaseAfter =>
    refine answers_first d savepoint hsavepoint ?_
    cases o with
    | done es => exact answers_release d es release
    | refused es detail => exact answers_undone d es release rollbackTo releaseAfter _
    | lost es detail =>
      change Answers d (endSingle (MariaConn.drop ⟨during d es, true⟩, some (.lost detail)) release
        rollbackTo releaseAfter) ↔ _
      rw [endSingle_of_down rfl, answers_some]
      exact restored_rollback d es (during_committed d es)

/-- A statement without a savepoint. -/
lemma answers_bare (o : Outcome ε) {k : MariaConn ε → MariaConn ε × Option Fault}
    {P : List ε → Prop} (hk : ∀ es, Answers d (k ⟨d.dml es, true⟩) ↔ P es) :
    Answers d (andThen (MariaConn.perform ⟨d, true⟩ o Db.dml) k) ↔ o.bare d P := by
  cases o with
  | done es => exact hk es
  | refused es detail => exact (answers_some d _ _).trans (restored_dml d es)
  | lost es detail => exact (answers_some d _ _).trans (restored_rollback d es rfl)

/-- The rows of a statement are encoded. -/
lemma answers_encodes (encodes : Bool) :
    Answers d (⟨d.dml es, true⟩, if encodes then none else some .other) ↔
      encodes = true ∨ es = [] := by
  cases encodes with
  | true => simp
  | false => simp [restored_dml]

lemma answers_returning (q : Returning ε) (encodes : Bool) :
    Answers d (match q with
      | .nothing => (⟨d, true⟩, none)
      | .noSelect => (⟨d, true⟩, some .other)
      | .one outcome => andThen (MariaConn.perform ⟨d, true⟩ outcome Db.dml) fun c =>
          (c, if encodes then none else some .other)
      | .two update select => andThen (MariaConn.perform ⟨d, true⟩ update Db.dml) fun c =>
          andThen (c.send select some) fun c => (c, if encodes then none else some .other)) ↔
      q.atomic d encodes := by
  cases q with
  | nothing => exact answers_none d _
  | noSelect => exact (answers_some d _ _).trans (iff_true_intro (restored_self d))
  | one o => exact answers_bare d o fun es => answers_encodes d es encodes
  | two o select =>
    refine answers_bare d o fun es => ?_
    cases select with
    | ok => exact answers_encodes d es encodes
    | refused detail => exact (answers_some d _ _).trans (restored_dml d es)
    | lost applied detail =>
      refine (answers_some d _ _).trans (restored_rollback d es ?_)
      cases applied <;> rfl

end Commands

/-! ### Operations and runs -/

/-- On a link that is gone nothing is done. -/
lemma atomic_of_down {c : MariaConn ε} (hup : c.up = false) (op : MariaOp ε) : Atomic c op := by
  have hsend : ∀ (r : Reply) f k, Answers c.db (andThen (c.send r f) k) := fun r f k => by
    obtain ⟨e, hsend⟩ := send_of_down hup r f
    rw [hsend]
    exact (answers_some _ _ _).2 (restored_self c.db)
  intro hdml
  cases op with
  | executeDdl q => exact absurd hdml id
  | openCursor q => exact absurd hdml id
  | ping first established second => exact absurd hdml id
  | executeReturning q => exact hsend q.mode some _
  | executeSimple t =>
    cases t with
    | unknownSequence => exact (answers_some _ _ _).2 (restored_self c.db)
    | statement mode prepares body => exact hsend mode some _
    | insteadOf o =>
      obtain ⟨e, hperform⟩ := perform_of_down hup o Db.dml
      change Answers c.db (c.perform o Db.dml)
      rw [hperform]
      exact (answers_some _ _ _).2 (restored_self c.db)
    | commit r start => exact absurd hdml id
    | rollback r start => exact absurd hdml id
    | begin => exact absurd hdml id
    | setTransaction r set start => exact absurd hdml id
    | savepoint name r => exact absurd hdml id
    | release name r => exact absurd hdml id
    | rollbackTo name r => exact absurd hdml id

/-- A text that is prepared is run, another is not. -/
lemma answers_prepares (d : Db String ε) {prepares : Bool} {p : MariaConn ε × Option Fault}
    {P : Prop} (hp : Answers d p ↔ P) :
    Answers d (if prepares then p else (⟨d, true⟩, some .other)) ↔ (prepares = true → P) := by
  cases prepares with
  | true => exact hp.trans ⟨fun h _ => h, fun h => h rfl⟩
  | false => exact iff_of_true ((answers_some d _ _).2 (restored_self d)) fun hno => by cases hno

/-- **One operation** is atomic exactly if it meets the condition. -/
theorem atomic_iff (c : MariaConn ε) (op : MariaOp ε) : Atomic c op ↔ AtomicWhen c op := by
  refine forall_congr' fun hdml => ?_
  obtain ⟨d, _ | _⟩ := c
  · exact iff_of_true (atomic_of_down rfl op hdml) fun hno => by cases hno
  · rw [forall_prop_of_true rfl]
    cases op with
    | executeDdl q => exact absurd hdml id
    | openCursor q => exact absurd hdml id
    | ping first established second => exact absurd hdml id
    | executeReturning q =>
      exact answers_first d q.mode rfl
        (answers_prepares d (answers_returning d q.body q.encodes))
    | executeSimple t =>
      cases t with
      | unknownSequence => exact (answers_some d _ _).trans (iff_true_intro (restored_self d))
      | insteadOf o =>
        have hbare := answers_bare d o (k := fun c => (c, none)) fun es => answers_none d _
        rwa [andThen_none] at hbare
      | statement mode prepares body =>
        refine answers_first d mode rfl (answers_prepares d (answers_body d ?_))
        rintro o start rfl
        exact hdml
      | commit r start => exact absurd hdml id
      | rollback r start => exact absurd hdml id
      | begin => exact absurd hdml id
      | setTransaction r set start => exact absurd hdml id
      | savepoint name r => exact absurd hdml id
      | release name r => exact absurd hdml id
      | rollbackTo name r => exact absurd hdml id

/-- **A run is atomic** exactly if each of its operations meets the condition. -/
theorem each_atomic_iff (c : MariaConn ε) (ops : List (MariaOp ε)) :
    Each Atomic c ops ↔ Each AtomicWhen c ops := by
  induction ops generalizing c with
  | nil => exact Iff.rfl
  | cons op ops ih => exact and_congr (atomic_iff c op) (ih _)

/-- Of two statements in one text the second is refused: the first stays, with the savepoint. -/
theorem batch_not_atomic :
    let batch : MariaOp ℕ := .executeSimple
      (.statement .ok true (.batch .ok [.done [7], .refused [] "23000".toList] .ok))
    let c := MariaConn.establish []
    (c.step batch).2 = some (.refused "23000".toList) ∧
      c.db.visible = [] ∧ (c.step batch).1.db.visible = [7] ∧
      Held (c.step batch).1.db ∧ ¬ Each Atomic c [batch] := by
  refine ⟨rfl, rfl, rfl, ⟨_, List.mem_cons_self, rfl⟩, fun hrun => ?_⟩
  have hvisible := (hrun.1 trivial _ rfl).visible
  exact List.cons_ne_nil _ _ hvisible

end DbSaci.Backend.Maria
