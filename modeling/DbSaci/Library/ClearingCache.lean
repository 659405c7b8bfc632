import Mathlib

set_option relaxedAutoImplicit false
set_option autoImplicit false

/-!
# Caches that are emptied when they are full

A memory keeps what has been made for a key until it is told to forget it, and what is not there is
made when it is asked for. A cache of this kind has room for so many keys only, and drops all of
them before it takes one more.

## Main definitions

* `Memory` — a memory by its operations, with `Memory.step` and `Memory.replies`.
* `Memory.unbounded` — the memory that drops nothing.
* `Cache`, `Cache.memory` — the cache.
* `Memory.last` — what has been made last for each key, and not been forgotten.

## Main results

* `Memory.replies_eq` — two memories that are in step give the same replies.
* `Cache.get_run` — the cache has nothing but what has been made last.
* `Cache.replies_eq_unbounded` — as long as there are not too many keys, the cache replies as if it
  dropped nothing.
-/

variable {κ ν σ τ : Type}

/-! ### Memories -/

/-- A memory, by its operations. -/
structure Memory (κ ν σ : Type) where
  get : σ → κ → Option ν
  store : σ → κ → ν → σ
  forget : σ → κ → σ

namespace Memory

/-- What a memory is asked to do: to give what it has for a key, where something may be made if it
has nothing, or to forget a key. -/
inductive Op (κ ν : Type)
  | fetch (k : κ) (made : Option ν)
  | forget (k : κ)

/-- The key of an operation. -/
def Op.key : Op κ ν → κ
  | fetch k _ => k
  | forget k => k

/-- What comes back: a value, or nothing if none could be made, and whether one had to be made. -/
structure Reply (ν : Type) where
  value : Option ν
  asked : Bool

/-- One operation. -/
def step (m : Memory κ ν σ) (s : σ) : Op κ ν → σ × Option (Reply ν)
  | .fetch k made =>
    match m.get s k with
    | some v => (s, some ⟨some v, false⟩)
    | none => (made.elim s (m.store s k), some ⟨made, true⟩)
  | .forget k => (m.forget s k, none)

/-- The memory behind some operations. -/
def run (m : Memory κ ν σ) (s : σ) (ops : List (Op κ ν)) : σ :=
  ops.foldl (fun s op => (m.step s op).1) s

/-- The replies to some operations. -/
def replies (m : Memory κ ν σ) : σ → List (Op κ ν) → List (Option (Reply ν))
  | _, [] => []
  | s, op :: ops => (m.step s op).2 :: replies m (m.step s op).1 ops

variable {m : Memory κ ν σ} {m' : Memory κ ν τ}

lemma step_fetch_some {s : σ} {k : κ} {v : ν} (h : m.get s k = some v) (made : Option ν) :
    m.step s (.fetch k made) = (s, some ⟨some v, false⟩) := by
  rw [step, h]

lemma step_fetch_none {s : σ} {k : κ} (h : m.get s k = none) (made : Option ν) :
    m.step s (.fetch k made) = (made.elim s (m.store s k), some ⟨made, true⟩) := by
  rw [step, h]

/-- Two memories are in step on some keys: they have the same for each of them, and this is kept
where something is stored that is not there yet, and where something is forgotten. -/
structure InStep (m : Memory κ ν σ) (m' : Memory κ ν τ) (keys : κ → Prop) (R : σ → τ → Prop) :
    Prop where
  get : ∀ {s t k}, R s t → keys k → m.get s k = m'.get t k
  store : ∀ {s t k} (v : ν), R s t → keys k → m.get s k = none →
    R (m.store s k v) (m'.store t k v)
  forget : ∀ {s t k}, R s t → keys k → R (m.forget s k) (m'.forget t k)

/-- One operation of two memories in step. -/
lemma InStep.step_eq {keys : κ → Prop} {R : σ → τ → Prop} (h : InStep m m' keys R) {s : σ} {t : τ}
    (hst : R s t) {op : Op κ ν} (hop : keys op.key) :
    R (m.step s op).1 (m'.step t op).1 ∧ (m.step s op).2 = (m'.step t op).2 := by
  cases op with
  | forget k => exact ⟨h.forget hst hop, rfl⟩
  | fetch k made =>
    have hget : m.get s k = m'.get t k := h.get hst hop
    cases hs : m.get s k with
    | some v =>
      rw [step_fetch_some hs, step_fetch_some (hget ▸ hs)]
      exact ⟨hst, rfl⟩
    | none =>
      rw [step_fetch_none hs, step_fetch_none (hget ▸ hs)]
      cases made with
      | none => exact ⟨hst, rfl⟩
      | some v => exact ⟨h.store v hst hop hs, rfl⟩

/-- **Memories in step give the same replies.** -/
theorem replies_eq {keys : κ → Prop} {R : σ → τ → Prop} (h : InStep m m' keys R)
    {ops : List (Op κ ν)} (hops : ∀ op ∈ ops, keys op.key) {s : σ} {t : τ} (hst : R s t) :
    m.replies s ops = m'.replies t ops := by
  induction ops generalizing s t with
  | nil => rfl
  | cons op ops ih =>
    obtain ⟨hop, hops⟩ := List.forall_mem_cons.1 hops
    obtain ⟨hnext, hreply⟩ := h.step_eq hst hop
    rw [replies, replies, hreply, ih hops hnext]

variable [DecidableEq κ]

/-- The memory that drops nothing. -/
def unbounded : Memory κ ν (κ → Option ν) where
  get t k := t k
  store t k v := Function.update t k (some v)
  forget t k := Function.update t k none

/-- What has been made last for each key and not been forgotten, one operation on. -/
def noteLast (m : Memory κ ν σ) (s : σ) (last : κ → Option ν) : Op κ ν → κ → Option ν
  | .fetch k made =>
    if (m.get s k).isNone = true ∧ made.isSome = true then Function.update last k made else last
  | .forget k => Function.update last k none

/-- What has been made last for each key and not been forgotten, behind some operations. -/
def last (m : Memory κ ν σ) : σ → (κ → Option ν) → List (Op κ ν) → κ → Option ν
  | _, noted, [] => noted
  | s, noted, op :: ops => last m (m.step s op).1 (m.noteLast s noted op) ops

end Memory

/-! ### The cache -/

/-- A cache with room for so many keys. -/
structure Cache (κ ν : Type) (cap : ℕ) where
  entries : Finmap fun _ : κ => ν
  bounded : entries.keys.card ≤ cap

namespace Cache

open Memory (Op InStep)

variable {cap : ℕ}

lemma card_keys_empty (κ ν : Type) (cap : ℕ) :
    (∅ : Finmap fun _ : κ => ν).keys.card ≤ cap := by
  rw [Finmap.keys_empty]
  exact Nat.zero_le cap

/-- Nothing is in the cache. -/
def empty (κ ν : Type) (cap : ℕ) : Cache κ ν cap := ⟨∅, card_keys_empty κ ν cap⟩

variable [DecidableEq κ]

/-- What stays if one more key is to be stored. -/
def room (c : Cache κ ν cap) : Finmap fun _ : κ => ν :=
  if cap ≤ c.entries.keys.card then ∅ else c.entries

lemma keys_insert (s : Finmap fun _ : κ => ν) (k : κ) (v : ν) :
    (s.insert k v).keys = insert k s.keys := by
  ext a
  rw [Finmap.mem_keys, Finmap.mem_insert, Finset.mem_insert, Finmap.mem_keys]

lemma card_insert_room [NeZero cap] (c : Cache κ ν cap) (k : κ) (v : ν) :
    (c.room.insert k v).keys.card ≤ cap := by
  have hpos : 0 < cap := Nat.pos_of_ne_zero (NeZero.ne cap)
  have hle := Finset.card_insert_le k c.room.keys
  rw [keys_insert]
  by_cases hfull : cap ≤ c.entries.keys.card
  · have hroom : c.room = ∅ := if_pos hfull
    rw [hroom, Finmap.keys_empty, Finset.card_empty] at hle
    rw [hroom, Finmap.keys_empty]
    omega
  · have hroom : c.room = c.entries := if_neg hfull
    rw [hroom] at hle ⊢
    omega

/-- A value is stored for a key. -/
def store [NeZero cap] (c : Cache κ ν cap) (k : κ) (v : ν) : Cache κ ν cap :=
  ⟨c.room.insert k v, c.card_insert_room k v⟩

lemma card_erase_le (c : Cache κ ν cap) (k : κ) : (c.entries.erase k).keys.card ≤ cap := by
  rw [Finmap.keys_erase]
  exact Finset.card_erase_le.trans c.bounded

/-- A key is forgotten. -/
def forget (c : Cache κ ν cap) (k : κ) : Cache κ ν cap := ⟨c.entries.erase k, c.card_erase_le k⟩

/-- The cache as a memory. -/
def memory (κ ν : Type) [DecidableEq κ] (cap : ℕ) [NeZero cap] : Memory κ ν (Cache κ ν cap) where
  get c k := c.entries.lookup k
  store := store
  forget := forget

/-- What stays has been there. -/
lemma lookup_of_room {c : Cache κ ν cap} {k : κ} {v : ν} (h : c.room.lookup k = some v) :
    c.entries.lookup k = some v := by
  rw [room] at h
  split_ifs at h
  · rw [Finmap.lookup_empty] at h
    cases h
  · exact h

section Lookup

variable [NeZero cap] (c : Cache κ ν cap) (k : κ) (v : ν)

@[simp]
lemma lookup_store_self : (c.store k v).entries.lookup k = some v := Finmap.lookup_insert _

variable {k}

lemma lookup_store_of_ne {k' : κ} (h : k' ≠ k) :
    (c.store k v).entries.lookup k' = c.room.lookup k' := Finmap.lookup_insert_of_ne _ h

end Lookup

/-! ### What is in the cache -/

/-- The cache has nothing but what has been made last. -/
def Sound (c : Cache κ ν cap) (noted : κ → Option ν) : Prop :=
  ∀ k v, c.entries.lookup k = some v → noted k = some v

lemma sound_empty (cap : ℕ) : Sound (empty κ ν cap) fun _ => none := by
  intro k v h
  rw [empty, Finmap.lookup_empty] at h
  cases h

variable [NeZero cap]

/-- **No operation puts anything else into the cache.** -/
lemma Sound.step {c : Cache κ ν cap} {noted : κ → Option ν} (h : c.Sound noted) (op : Op κ ν) :
    Sound ((memory κ ν cap).step c op).1 ((memory κ ν cap).noteLast c noted op) := by
  cases op with
  | forget k =>
    intro k' v hv
    change (c.entries.erase k).lookup k' = some v at hv
    by_cases hk : k' = k
    · rw [hk, Finmap.lookup_erase] at hv
      cases hv
    · rw [Finmap.lookup_erase_ne hk] at hv
      exact (Function.update_of_ne hk _ _).trans (h k' v hv)
  | fetch k made =>
    cases hget : c.entries.lookup k with
    | some w =>
      have hstep := Memory.step_fetch_some (m := memory κ ν cap) (s := c) hget made
      have hnote : (memory κ ν cap).noteLast c noted (.fetch k made) = noted :=
        if_neg fun hmade => by
          rw [show (memory κ ν cap).get c k = some w from hget] at hmade
          cases hmade.1
      rw [hstep, hnote]
      exact h
    | none =>
      have hstep := Memory.step_fetch_none (m := memory κ ν cap) (s := c) hget made
      rw [hstep]
      cases made with
      | none =>
        have hnote : (memory κ ν cap).noteLast c noted (.fetch k none) = noted :=
          if_neg fun hmade => by cases hmade.2
        rw [hnote]
        exact h
      | some w =>
        have hnote : (memory κ ν cap).noteLast c noted (.fetch k (some w)) =
            Function.update noted k (some w) := by
          rw [Memory.noteLast, if_pos]
          rw [show (memory κ ν cap).get c k = none from hget]
          exact ⟨rfl, rfl⟩
        rw [hnote]
        intro k' v hv
        change (c.store k w).entries.lookup k' = some v at hv
        by_cases hk : k' = k
        · rw [hk, lookup_store_self] at hv
          rw [hk, Function.update_self, hv]
        · rw [lookup_store_of_ne c w hk] at hv
          rw [Function.update_of_ne hk]
          exact h k' v (lookup_of_room hv)

/-- **What the cache has for a key is what has been made last for it**, and it has not been
forgotten. -/
theorem get_run {c : Cache κ ν cap} {noted : κ → Option ν} (h : c.Sound noted)
    (ops : List (Op κ ν)) :
    Sound ((memory κ ν cap).run c ops) ((memory κ ν cap).last c noted ops) := by
  induction ops generalizing c noted with
  | nil => exact h
  | cons op ops ih => exact ih (h.step op)

/-- A cache for some keys is in step with the memory that drops nothing, if there is room for all of
them. -/
lemma inStep_unbounded {keys : Finset κ} (hcap : keys.card ≤ cap) :
    InStep (memory κ ν cap) Memory.unbounded (· ∈ keys)
      fun c t => (∀ k, c.entries.lookup k = t k) ∧ c.entries.keys ⊆ keys where
  get h _ := h.1 _
  store {c t k} v h hk hget := by
    obtain ⟨heq, hsub⟩ := h
    have hnot : k ∉ c.entries.keys := by
      rw [Finmap.mem_keys]
      exact Finmap.lookup_eq_none.1 hget
    have hless : c.entries.keys.card < keys.card :=
      Finset.card_lt_card ⟨hsub, fun hsup => hnot (hsup hk)⟩
    have hroom : c.room = c.entries := if_neg (by omega)
    constructor
    · intro k'
      change (c.store k v).entries.lookup k' = Function.update t k (some v) k'
      by_cases hne : k' = k
      · rw [hne, lookup_store_self, Function.update_self]
      · rw [lookup_store_of_ne c v hne, hroom, Function.update_of_ne hne, heq]
    · change (c.room.insert k v).keys ⊆ keys
      rw [hroom, keys_insert]
      exact Finset.insert_subset hk hsub
  forget {c t k} h hk := by
    obtain ⟨heq, hsub⟩ := h
    constructor
    · intro k'
      change (c.entries.erase k).lookup k' = Function.update t k none k'
      by_cases hne : k' = k
      · rw [hne, Finmap.lookup_erase, Function.update_self]
      · rw [Finmap.lookup_erase_ne hne, Function.update_of_ne hne, heq]
    · change (c.entries.erase k).keys ⊆ keys
      rw [Finmap.keys_erase]
      exact (Finset.erase_subset _ _).trans hsub

/-- **As long as there is room for all keys, the cache replies as if it dropped nothing.** -/
theorem replies_eq_unbounded {ops : List (Op κ ν)}
    (hops : (ops.map Op.key).toFinset.card ≤ cap) :
    (memory κ ν cap).replies (empty κ ν cap) ops =
      Memory.unbounded.replies (fun _ => none) ops := by
  refine Memory.replies_eq (inStep_unbounded hops) (fun op hop => ?_) ⟨fun k => ?_, ?_⟩
  · exact List.mem_toFinset.2 (List.mem_map_of_mem hop)
  · exact Finmap.lookup_empty k
  · rw [empty, Finmap.keys_empty]
    exact Finset.empty_subset _

end Cache
