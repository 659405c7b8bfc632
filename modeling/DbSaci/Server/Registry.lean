import DbSaci.Library.Runs
import Mathlib.Logic.Function.Basic

set_option relaxedAutoImplicit false
set_option autoImplicit false

/-!
# The registry of sessions

The accept loop hands the task of a connection to the runtime and registers it behind that. The
task removes itself through a guard that it makes when it is polled for the first time.

## Main definitions

* `Registry` — the map of sessions, the tasks, and what the accept loop is doing.
* `Event`, `Step` — what the accept loop, the runtime, the tasks and the administrator do.
* `Exact` — the sessions in the map are those whose tasks have not ended.
* `InOrder` — a task ends behind its registration, and is cancelled behind its first poll.

## Main results

* `exact_iff_inOrder` — between two connections the map is exact if and only if each step so far
  was in order.
-/

namespace DbSaci.Server.Sessions

/-! ### The state -/

/-- How far the task of a session is. -/
inductive Phase
  /-- It has been handed to the runtime. -/
  | spawned
  /-- It has been polled, and has its guards. -/
  | polled
  /-- Its body has returned, or has been dropped, and its guards have not. -/
  | returned
  /-- Its guards have been dropped, or it has been dropped without any. -/
  | ended
  deriving DecidableEq, Repr

/-- The task of a session, and whether it is to be aborted. -/
structure Task where
  phase : Phase
  aborted : Bool
  deriving DecidableEq, Repr

/-- What the map has of a session. -/
structure SessionMeta where
  addr : String
  user : Option String
  deriving DecidableEq, Repr

/-- The map of sessions, the tasks, and the session that the accept loop is going to register. -/
structure Registry where
  nextSessionId : ℕ
  sessions : ℕ → Option SessionMeta
  tasks : ℕ → Option Task
  registering : Option (ℕ × String)

/-- No connection yet. -/
def Registry.start : Registry := ⟨1, fun _ => none, fun _ => none, none⟩

/-- `sessions_register`. -/
def Registry.register (r : Registry) (id : ℕ) (addr : String) : Registry :=
  { r with sessions := Function.update r.sessions id (some ⟨addr, none⟩), registering := none }

/-- `sessions_set_user`. -/
def Registry.setUser (r : Registry) (id : ℕ) (user : String) : Registry :=
  { r with
    sessions := Function.update r.sessions id
      ((r.sessions id).map fun info => { info with user := some user }) }

/-- The drop of a `SessionRegistration`. -/
def Registry.remove (r : Registry) (id : ℕ) : Registry :=
  { r with sessions := Function.update r.sessions id none }

/-- A task is in another state. -/
def Registry.setTask (r : Registry) (id : ℕ) (task : Task) : Registry :=
  { r with tasks := Function.update r.tasks id (some task) }

/-! ### The steps -/

/-- What happens. -/
inductive Event
  | spawn (addr : String)
  | register
  | poll (id : ℕ)
  | setUser (id : ℕ) (user : String)
  | finish (id : ℕ)
  | dropGuard (id : ℕ)
  | kill (id : ℕ)
  | cancel (id : ℕ)
  deriving DecidableEq, Repr

/-- The steps of the accept loop, the runtime, the tasks and the administrator. -/
inductive Step : Registry → Event → Registry → Prop
  /-- A connection is accepted, and its task is handed to the runtime. -/
  | spawn {r : Registry} (addr : String) (h : r.registering = none) :
    Step r (.spawn addr) { r.setTask r.nextSessionId ⟨.spawned, false⟩ with
      nextSessionId := r.nextSessionId + 1, registering := some (r.nextSessionId, addr) }
  /-- The accept loop goes on with the registration. -/
  | register {r : Registry} {id : ℕ} {addr : String} (h : r.registering = some (id, addr)) :
    Step r .register (r.register id addr)
  /-- The runtime polls a task for the first time. One that is to be aborted is not polled. -/
  | poll {r : Registry} {id : ℕ} (h : r.tasks id = some ⟨.spawned, false⟩) :
    Step r (.poll id) (r.setTask id ⟨.polled, false⟩)
  /-- A session has authenticated. -/
  | setUser {r : Registry} {id : ℕ} {aborted : Bool} (user : String)
    (h : r.tasks id = some ⟨.polled, aborted⟩) : Step r (.setUser id user) (r.setUser id user)
  /-- The body of a task returns or panics. -/
  | finish {r : Registry} {id : ℕ} {aborted : Bool} (h : r.tasks id = some ⟨.polled, aborted⟩) :
    Step r (.finish id) (r.setTask id ⟨.returned, aborted⟩)
  /-- The guard of a task is dropped. -/
  | dropGuard {r : Registry} {id : ℕ} {aborted : Bool}
    (h : r.tasks id = some ⟨.returned, aborted⟩) :
    Step r (.dropGuard id) ((r.setTask id ⟨.ended, aborted⟩).remove id)
  /-- `sessions_kill`: a session in the map is to be aborted. -/
  | kill {r : Registry} {id : ℕ} {task : Task} (hmem : (r.sessions id).isSome = true)
    (h : r.tasks id = some task) : Step r (.kill id) (r.setTask id ⟨task.phase, true⟩)
  /-- The runtime drops a task that has not been polled. It has no guards. -/
  | cancelSpawned {r : Registry} {id : ℕ} (h : r.tasks id = some ⟨.spawned, true⟩) :
    Step r (.cancel id) (r.setTask id ⟨.ended, true⟩)
  /-- The runtime drops a task that has been polled. -/
  | cancelPolled {r : Registry} {id : ℕ} (h : r.tasks id = some ⟨.polled, true⟩) :
    Step r (.cancel id) (r.setTask id ⟨.returned, true⟩)

/-- A session has been started and has not ended. -/
def Live (r : Registry) (id : ℕ) : Prop := ∃ task, r.tasks id = some task ∧ task.phase ≠ .ended

/-- **The sessions in the map are those that have been started and have not ended.** -/
def Exact (r : Registry) : Prop := ∀ id, (r.sessions id).isSome = true ↔ Live r id

/-- A task drops its guard behind its registration, and is dropped behind its first poll. -/
def InOrder (r : Registry) : Event → Prop
  | .dropGuard id => ∀ addr, r.registering ≠ some (id, addr)
  | .cancel id => ∀ task, r.tasks id = some task → task.phase ≠ .spawned
  | _ => True

/-! ### Sessions in the map -/

section Fields

variable (r : Registry) (id id' : ℕ)

lemma isSome_register (addr : String) : ((r.register id addr).sessions id').isSome = true ↔
    id' = id ∨ (r.sessions id').isSome = true := by
  have hmap : (r.register id addr).sessions id' =
      if id' = id then some ⟨addr, none⟩ else r.sessions id' := Function.update_apply _ _ _ _
  rw [hmap]
  split_ifs with h
  · exact iff_of_true rfl (.inl h)
  · exact (or_iff_right h).symm

lemma isSome_setUser (user : String) :
    ((r.setUser id user).sessions id').isSome = (r.sessions id').isSome := by
  have hmap : (r.setUser id user).sessions id' = if id' = id then
      (r.sessions id).map fun info => { info with user := some user } else r.sessions id' :=
    Function.update_apply _ _ _ _
  rw [hmap]
  split_ifs with h
  · rw [Option.isSome_map, h]
  · rfl

lemma isSome_remove : ((r.remove id).sessions id').isSome = true ↔
    id' ≠ id ∧ (r.sessions id').isSome = true := by
  have hmap : (r.remove id).sessions id' = if id' = id then none else r.sessions id' :=
    Function.update_apply _ _ _ _
  rw [hmap]
  split_ifs with h
  · exact iff_of_false Bool.false_ne_true fun hc => hc.1 h
  · exact (and_iff_right h).symm

lemma tasks_setTask (task : Task) : (r.setTask id task).tasks id' =
    if id' = id then some task else r.tasks id' := Function.update_apply _ _ _ _

variable {r id id'}

lemma live_setTask_of_ne {task : Task} (h : id' ≠ id) :
    Live (r.setTask id task) id' ↔ Live r id' := by
  unfold Live
  rw [tasks_setTask, if_neg h]

lemma live_setTask_self {task : Task} : Live (r.setTask id task) id ↔ task.phase ≠ .ended := by
  unfold Live
  rw [tasks_setTask, if_pos rfl]
  constructor
  · rintro ⟨_, ⟨⟩, hphase⟩
    exact hphase
  · exact fun hphase => ⟨_, rfl, hphase⟩

/-- A task that goes on is as live as it was. -/
lemma live_setTask {task task' : Task} (h : r.tasks id = some task')
    (hsame : task.phase = .ended ↔ task'.phase = .ended) :
    Live (r.setTask id task) id' ↔ Live r id' := by
  by_cases hid : id' = id
  · subst hid
    refine live_setTask_self.trans ((not_congr hsame).trans ?_)
    constructor
    · exact fun hphase => ⟨task', h, hphase⟩
    · rintro ⟨task'', htask, hphase⟩
      rw [h] at htask
      obtain rfl := Option.some.inj htask
      exact hphase
  · exact live_setTask_of_ne hid

end Fields

/-! ### Runs that are in order -/

/-- What holds while each step is in order: the map has the live sessions but for the one that is
going to be registered. -/
structure Orderly (r : Registry) : Prop where
  fresh : ∀ id, r.nextSessionId ≤ id → r.tasks id = none
  pending : ∀ id addr, r.registering = some (id, addr) → Live r id
  listed : ∀ id, (r.sessions id).isSome = true ↔
    Live r id ∧ ∀ addr, r.registering ≠ some (id, addr)

namespace Orderly

variable {r : Registry}

lemma start : Orderly Registry.start := by
  refine ⟨fun _ _ => rfl, fun id addr hreg => ?_, fun id => ?_⟩
  · cases hreg
  refine iff_of_false Bool.false_ne_true ?_
  rintro ⟨⟨task, htask, -⟩, -⟩
  cases htask

/-- Nobody has got the next number. -/
lemma not_live_next (h : Orderly r) {id : ℕ} (hid : r.nextSessionId ≤ id) : ¬ Live r id := by
  rintro ⟨task, htask, -⟩
  rw [h.fresh id hid] at htask
  cases htask

/-- A task that goes on. -/
lemma setTask (h : Orderly r) {id : ℕ} {task task' : Task} (htask : r.tasks id = some task')
    (hsame : task.phase = .ended ↔ task'.phase = .ended) : Orderly (r.setTask id task) := by
  have hlive : ∀ {id'}, Live (r.setTask id task) id' ↔ Live r id' := live_setTask htask hsame
  refine ⟨fun id' hid' => ?_, fun id' addr hreg => hlive.2 (h.pending id' addr hreg), fun id' => ?_⟩
  · rw [tasks_setTask, if_neg, h.fresh id' hid']
    rintro rfl
    rw [h.fresh id' hid'] at htask
    cases htask
  · rw [hlive]
    exact h.listed id'

/-- **A step that is in order** keeps the map. -/
theorem step {e : Event} {s : Registry} (h : Orderly r) (hstep : Step r e s)
    (horder : InOrder r e) : Orderly s := by
  cases hstep with
  | spawn addr hreg =>
    have hne : ∀ {id}, id ≠ r.nextSessionId →
        (Live (r.setTask r.nextSessionId ⟨.spawned, false⟩) id ↔ Live r id) :=
      fun hid => live_setTask_of_ne hid
    have hself : Live (r.setTask r.nextSessionId ⟨.spawned, false⟩) r.nextSessionId :=
      live_setTask_self.2 fun hphase => by cases hphase
    refine ⟨fun id hid => ?_, ?_, fun id => ?_⟩
    · have hlt : r.nextSessionId < id := hid
      exact (tasks_setTask r _ id _).trans ((if_neg (Nat.ne_of_gt hlt)).trans
        (h.fresh id (Nat.le_of_lt hlt)))
    · rintro id addr' heq
      obtain ⟨rfl, -⟩ := Prod.mk.inj (Option.some.inj heq)
      exact hself
    · by_cases hid : id = r.nextSessionId
      · subst hid
        refine iff_of_false (fun hmem => ?_) fun hboth => hboth.2 addr rfl
        exact h.not_live_next (Nat.le_refl _) ((h.listed _).1 hmem).1
      · have hother : ∀ addr', some (r.nextSessionId, addr) ≠ some (id, addr') := by
          intro addr' heq
          exact hid (Prod.mk.inj (Option.some.inj heq)).1.symm
        refine (h.listed id).trans ?_
        rw [hreg]
        exact ⟨fun hboth => ⟨(hne hid).2 hboth.1, hother⟩,
          fun hboth => ⟨(hne hid).1 hboth.1, fun _ heq => by cases heq⟩⟩
  | register hreg =>
    rename_i id addr
    refine ⟨h.fresh, fun id' addr' heq => ?_, fun id' => ?_⟩
    · cases heq
    rw [isSome_register, h.listed id', hreg]
    have hlive : Live (r.register id addr) id' ↔ Live r id' := Iff.rfl
    rw [hlive]
    constructor
    · rintro (rfl | ⟨hl, -⟩)
      · exact ⟨h.pending _ _ hreg, fun _ heq => by cases heq⟩
      · exact ⟨hl, fun _ heq => by cases heq⟩
    · rintro ⟨hl, -⟩
      by_cases hid : id' = id
      · exact .inl hid
      · refine .inr ⟨hl, fun addr' heq => ?_⟩
        exact hid (Prod.mk.inj (Option.some.inj heq)).1.symm
  | poll htask => exact h.setTask htask (by simp)
  | setUser user htask =>
    refine ⟨h.fresh, h.pending, fun id' => ?_⟩
    rw [isSome_setUser]
    exact h.listed id'
  | finish htask => exact h.setTask htask (by simp)
  | dropGuard htask =>
    rename_i id aborted
    refine ⟨fun id' hid' => ?_, fun id' addr heq => ?_, fun id' => ?_⟩
    · refine (tasks_setTask r id id' _).trans ((if_neg ?_).trans (h.fresh id' hid'))
      rintro rfl
      rw [h.fresh id' hid'] at htask
      cases htask
    · have hid : id' ≠ id := by
        rintro rfl
        exact horder addr heq
      exact (live_setTask_of_ne hid).2 (h.pending id' addr heq)
    · rw [isSome_remove]
      have hlive : Live ((r.setTask id ⟨.ended, aborted⟩).remove id) id' ↔
          Live (r.setTask id ⟨.ended, aborted⟩) id' := Iff.rfl
      rw [hlive]
      by_cases hid : id' = id
      · subst hid
        refine iff_of_false (fun hboth => hboth.1 rfl) fun hboth => ?_
        exact live_setTask_self.1 hboth.1 rfl
      · rw [live_setTask_of_ne hid]
        exact ⟨fun hboth => (h.listed id').1 hboth.2, fun hboth => ⟨hid, (h.listed id').2 hboth⟩⟩
  | kill hmem htask => exact h.setTask htask Iff.rfl
  | cancelSpawned htask => exact absurd rfl (horder _ htask)
  | cancelPolled htask => exact h.setTask htask (by simp)

/-- Between two connections the map is exact. -/
lemma exact (h : Orderly r) (hreg : r.registering = none) : Exact r := by
  intro id
  rw [h.listed id, hreg]
  exact and_iff_left fun _ heq => by cases heq

end Orderly

/-! ### Runs that are not -/

/-- A session that has ended is in the map, or is going to be. -/
def Stale (r : Registry) : Prop := ∃ id task, r.tasks id = some task ∧ task.phase = .ended ∧
  id < r.nextSessionId ∧ ((r.sessions id).isSome = true ∨ ∃ addr, r.registering = some (id, addr))

namespace Stale

variable {r s : Registry} {e : Event}

/-- A task that has not ended goes on. -/
lemma setTask (h : Stale r) {id : ℕ} {task task' : Task} (htask : r.tasks id = some task')
    (hphase : task'.phase ≠ .ended) : Stale (r.setTask id task) := by
  obtain ⟨id', task'', htask'', hended, hlt, hlisted⟩ := h
  have hne : id' ≠ id := by
    rintro rfl
    rw [htask] at htask''
    obtain rfl := Option.some.inj htask''
    exact hphase hended
  exact ⟨id', task'', (tasks_setTask r id id' task).trans ((if_neg hne).trans htask''), hended, hlt,
    hlisted⟩

/-- **Nobody removes a session that has ended** from the map. -/
theorem step (h : Stale r) (hstep : Step r e s) : Stale s := by
  obtain ⟨id', task', htask', hended, hlt, hlisted⟩ := id h
  cases hstep with
  | spawn addr hreg =>
    refine ⟨id', task', ?_, hended, Nat.lt_succ_of_lt hlt, .inl (hlisted.resolve_right ?_)⟩
    · exact (tasks_setTask r _ id' _).trans ((if_neg (Nat.ne_of_lt hlt)).trans htask')
    · rintro ⟨addr', haddr'⟩
      rw [hreg] at haddr'
      cases haddr'
  | register hreg =>
    refine ⟨id', task', htask', hended, hlt, .inl ((isSome_register ..).2 ?_)⟩
    refine hlisted.symm.imp_left ?_
    rintro ⟨addr', haddr'⟩
    rw [hreg] at haddr'
    exact (Prod.mk.inj (Option.some.inj haddr')).1.symm
  | poll htask => exact h.setTask htask (by simp)
  | setUser user htask =>
    refine ⟨id', task', htask', hended, hlt, hlisted.imp_left fun hmem => ?_⟩
    rw [isSome_setUser]
    exact hmem
  | finish htask => exact h.setTask htask (by simp)
  | dropGuard htask =>
    rename_i id aborted
    have hne : id' ≠ id := by
      rintro rfl
      rw [htask] at htask'
      obtain rfl := Option.some.inj htask'
      cases hended
    refine ⟨id', task', ?_, hended, hlt, hlisted.imp_left fun hmem => ?_⟩
    · exact (tasks_setTask r id id' _).trans ((if_neg hne).trans htask')
    · exact (isSome_remove ..).2 ⟨hne, hmem⟩
  | kill hmem htask =>
    rename_i id task
    by_cases hne : id' = id
    · subst hne
      rw [htask] at htask'
      obtain rfl := Option.some.inj htask'
      exact ⟨id', _, (tasks_setTask r id' id' _).trans (if_pos rfl), hended, hlt, hlisted⟩
    · exact ⟨id', task', (tasks_setTask r id id' _).trans ((if_neg hne).trans htask'), hended, hlt,
        hlisted⟩
  | cancelSpawned htask => exact h.setTask htask (by simp)
  | cancelPolled htask => exact h.setTask htask (by simp)

/-- Between two connections the map is not exact. -/
lemma not_exact (h : Stale r) (hreg : r.registering = none) : ¬ Exact r := by
  obtain ⟨id, task, htask, hended, -, hlisted⟩ := h
  intro hexact
  have hmem : (r.sessions id).isSome = true := by
    refine hlisted.resolve_right ?_
    rintro ⟨addr, haddr⟩
    rw [hreg] at haddr
    cases haddr
  obtain ⟨task', htask', hphase⟩ := (hexact id).1 hmem
  rw [htask] at htask'
  obtain rfl := Option.some.inj htask'
  exact hphase hended

end Stale

/-- **A step that is out of order** leaves a session in the map that has ended. -/
lemma Orderly.stale {r s : Registry} {e : Event} (h : Orderly r) (hstep : Step r e s)
    (horder : ¬ InOrder r e) : Stale s := by
  have hlt : ∀ {id task}, r.tasks id = some task → id < r.nextSessionId := by
    intro id task htask
    by_contra hge
    rw [h.fresh id (Nat.le_of_not_lt hge)] at htask
    cases htask
  cases hstep with
  | dropGuard htask =>
    rename_i id aborted
    have hreg : ∃ addr, r.registering = some (id, addr) := by
      by_contra hnone
      exact horder fun addr heq => hnone ⟨addr, heq⟩
    exact ⟨id, _, (tasks_setTask r id id _).trans (if_pos rfl), rfl, hlt htask, .inr hreg⟩
  | cancelSpawned htask =>
    rename_i id
    refine ⟨id, _, (tasks_setTask r id id _).trans (if_pos rfl), rfl, hlt htask, ?_⟩
    by_cases hreg : ∃ addr, r.registering = some (id, addr)
    · exact .inr hreg
    · exact .inl ((h.listed id).2 ⟨⟨_, htask, fun hphase => by cases hphase⟩,
        fun addr heq => hreg ⟨addr, heq⟩⟩)
  | cancelPolled htask =>
    refine absurd (fun task htask' => ?_) horder
    rw [htask] at htask'
    obtain rfl := Option.some.inj htask'
    exact fun hphase => by cases hphase
  | _ => exact absurd trivial horder

/-- A run is in order, or leaves a session in the map that has ended. -/
lemma guarded_or_stale {r s : Registry} {es : List Event} (hrun : Run Step r es s)
    (h : Orderly r) : Run (Guarded Step InOrder) r es s ∧ Orderly s ∨ Stale s :=
  hrun.guarded_or h (fun hs hstep horder => hs.step hstep horder)
    (fun hs hstep horder => hs.stale hstep horder) fun hs hstep => hs.step hstep

/-- **Between two connections the map is exact** if and only if every task so far has dropped its
guard behind its registration, and none has been dropped before its first poll. -/
theorem exact_iff_inOrder (es : List Event) (r : Registry) (hrun : Run Step .start es r)
    (hreg : r.registering = none) : Exact r ↔ Run (Guarded Step InOrder) .start es r := by
  constructor
  · intro hexact
    rcases guarded_or_stale hrun Orderly.start with ⟨hguarded, -⟩ | hstale
    · exact hguarded
    · exact absurd hexact (hstale.not_exact hreg)
  · intro hguarded
    have horderly : Orderly r :=
      hguarded.invariant Orderly.start fun hs hstep => hs.step hstep.1 hstep.2
    exact horderly.exact hreg

/-- A session that is served and ends. -/
theorem servedSession_exact : ∃ r,
    Run Step .start [.spawn "a", .register, .poll 1, .finish 1, .dropGuard 1] r ∧ Exact r := by
  have hguarded : Run (Guarded Step InOrder) .start
      [.spawn "a", .register, .poll 1, .finish 1, .dropGuard 1] _ :=
    .cons ⟨.spawn "a" rfl, trivial⟩ <| .cons ⟨.register rfl, trivial⟩ <|
      .cons ⟨.poll rfl, trivial⟩ <| .cons ⟨.finish rfl, trivial⟩ <|
      .cons ⟨.dropGuard rfl, fun addr heq => by cases heq⟩ (.nil _)
  exact ⟨_, hguarded.of_guarded, (exact_iff_inOrder _ _ hguarded.of_guarded rfl).2 hguarded⟩

/-- A session that ends before the accept loop goes on is registered for ever. -/
theorem endedBeforeRegister_stale : ∃ r,
    Run Step .start [.spawn "a", .poll 1, .finish 1, .dropGuard 1, .register] r ∧
      r.registering = none ∧ ¬ Exact r := by
  refine ⟨_, .cons (.spawn "a" rfl) <| .cons (.poll rfl) <| .cons (.finish rfl) <|
    .cons (.dropGuard rfl) <| .cons (.register rfl) (.nil _), rfl, fun hexact => ?_⟩
  obtain ⟨task, htask, hphase⟩ := (hexact 1).1 rfl
  obtain rfl := Option.some.inj htask
  exact hphase rfl

/-- A session that is aborted before its first poll stays in the map. -/
theorem killedBeforePoll_stale : ∃ r,
    Run Step .start [.spawn "a", .register, .kill 1, .cancel 1] r ∧
      r.registering = none ∧ ¬ Exact r := by
  refine ⟨_, .cons (.spawn "a" rfl) <| .cons (.register rfl) <| .cons (.kill rfl rfl) <|
    .cons (.cancelSpawned rfl) (.nil _), rfl, fun hexact => ?_⟩
  obtain ⟨task, htask, hphase⟩ := (hexact 1).1 rfl
  obtain rfl := Option.some.inj htask
  exact hphase rfl

end DbSaci.Server.Sessions
