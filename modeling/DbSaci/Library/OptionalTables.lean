import Mathlib.Data.List.Perm.Lattice
import Mathlib.Data.List.Perm.Subperm
import Mathlib.Logic.Function.Basic

set_option relaxedAutoImplicit false
set_option autoImplicit false

/-!
# Joins of tables of which some are optional

Some tables are joined. Conditions may mark a table as optional: a combination of rows of the other
tables for which it has no matching row is kept, without a row of that table. The tables can be
joined one after another in a given order, with a condition as soon as a table it names is there.
This has the rows it should have if every condition marks one table and names besides it at most one
more, which stands in front of it.

## Main definitions

* `Env`, `cross`, `inner`, `left`, `right` — combinations of rows, and the joins of one more table.
* `Step`, `run` — a chain of joins.
* `Pred`, `place`, `steps` — conditions, and where the chain in a given order takes them.
* `meaning` — the combinations that should be found.
* `Pred.Directed` — a condition that names its tables in order.

## Main results

* `right_perm_left` — a right join is a left join the other way round.
* `place_perm` — every condition is taken once.
* `run_steps_perm` — the chain finds what should be found.
-/

namespace OptionalTables

variable {κ ρ γ : Type} [DecidableEq κ]

/-! ### Joins -/

/-- A combination of rows: a row for each table that is there. -/
abbrev Env (κ ρ : Type) := κ → Option ρ

section Joins

variable (rows : κ → List ρ)

/-- A combination with each row of one more table. -/
def extend (key : κ) (env : Env κ ρ) : List (Env κ ρ) :=
  (rows key).map fun r => Function.update env key (some r)

/-- `CROSS JOIN`. -/
def cross (key : κ) (envs : List (Env κ ρ)) : List (Env κ ρ) := envs.flatMap (extend rows key)

/-- `INNER JOIN`. -/
def inner (on : Env κ ρ → Bool) (key : κ) (envs : List (Env κ ρ)) : List (Env κ ρ) :=
  (cross rows key envs).filter on

/-- The rows of one more table that match a combination, or none of them. -/
def optional (on : Env κ ρ → Bool) (key : κ) (env : Env κ ρ) : List (Env κ ρ) :=
  let found := (extend rows key env).filter on
  if found.isEmpty then [Function.update env key none] else found

/-- `LEFT JOIN`. -/
def left (on : Env κ ρ → Bool) (key : κ) (envs : List (Env κ ρ)) : List (Env κ ρ) :=
  envs.flatMap (optional rows on key)

/-- `RIGHT JOIN`. -/
def right (on : Env κ ρ → Bool) (key : κ) (envs : List (Env κ ρ)) : List (Env κ ρ) :=
  inner rows on key envs ++
    ((rows key).filter fun r => envs.all fun env => !on (Function.update env key (some r))).map
      fun r => Function.update (fun _ => none) key (some r)

/-- A condition does not look at a table. -/
def Avoids (on : Env κ ρ → Bool) (key : κ) : Prop :=
  ∀ env r, on (Function.update env key r) = on env

variable {rows}

/-- A table that is not looked at may be joined before. -/
lemma optional_update {on : Env κ ρ → Bool} {key key' : κ} (hne : key ≠ key')
    (h : Avoids on key') (env : Env κ ρ) (r : Option ρ) :
    optional rows on key (Function.update env key' r) =
      (optional rows on key env).map fun e => Function.update e key' r := by
  have hcomm : ∀ v, Function.update (Function.update env key' r) key v =
      Function.update (Function.update env key v) key' r := fun v =>
    Function.update_comm hne.symm r v env
  have hfound : (extend rows key (Function.update env key' r)).filter on =
      ((extend rows key env).filter on).map fun e => Function.update e key' r := by
    rw [extend, extend, List.filter_map, List.filter_map, List.map_map]
    have hon : (on ∘ fun x => Function.update (Function.update env key' r) key (some x)) =
        on ∘ fun x => Function.update env key (some x) := by
      funext x
      simp only [Function.comp_apply]
      rw [hcomm, h]
    rw [hon]
    exact List.map_congr_left fun x _ => hcomm (some x)
  rw [optional, optional, hfound, List.isEmpty_map]
  split_ifs
  · rw [List.map_singleton, hcomm]
  · rfl

/-- Two lists are combined in either order. -/
lemma flatMap_map_swap {α β δ : Type} (f : α → β → δ) (l : List α) (m : List β) :
    (l.flatMap fun a => m.map (f a)).Perm (m.flatMap fun b => l.map fun a => f a b) := by
  induction l with
  | nil =>
    rw [List.flatMap_nil]
    have hnil : (m.flatMap fun _ => ([] : List δ)) = [] := List.flatMap_eq_nil_iff.2 fun _ _ => rfl
    exact List.Perm.of_eq hnil.symm
  | cons a l ih =>
    rw [List.flatMap_cons]
    exact (List.Perm.append_left _ ih).trans
      (List.map_append_flatMap_perm m (f a) fun b => l.map fun a => f a b)

/-- **A table that is not looked at is joined before or behind.** -/
theorem left_cross_perm {on : Env κ ρ → Bool} {key key' : κ} (hne : key ≠ key')
    (h : Avoids on key') (envs : List (Env κ ρ)) :
    (left rows on key (cross rows key' envs)).Perm (cross rows key' (left rows on key envs)) := by
  rw [left, cross, List.flatMap_assoc, left, cross, List.flatMap_assoc]
  refine List.Perm.flatMap_left _ fun env _ => ?_
  have hleft : (extend rows key' env).flatMap (optional rows on key) =
      (rows key').flatMap fun r =>
        (optional rows on key env).map fun e => Function.update e key' (some r) := by
    rw [extend, List.flatMap_map]
    exact List.flatMap_congr fun r _ => optional_update hne h env (some r)
  rw [hleft]
  exact flatMap_map_swap (fun (r : ρ) (e : Env κ ρ) => Function.update e key' (some r)) _ _

/-- The rows of a left join: those that match, and those without a match. -/
lemma left_perm (on : Env κ ρ → Bool) (key : κ) (envs : List (Env κ ρ)) :
    (left rows on key envs).Perm (inner rows on key envs ++
      (envs.filter fun env => ((extend rows key env).filter on).isEmpty).map
        fun env => Function.update env key none) := by
  induction envs with
  | nil => exact List.Perm.refl _
  | cons env envs ih =>
    have hinner : inner rows on key (env :: envs) =
        (extend rows key env).filter on ++ inner rows on key envs := by
      rw [inner, cross, List.flatMap_cons, List.filter_append]
      rfl
    rw [left, List.flatMap_cons, hinner, List.filter_cons, optional]
    split_ifs with hempty
    · rw [List.isEmpty_iff.1 hempty, List.nil_append, List.map_cons]
      exact (List.Perm.cons _ ih).trans List.perm_middle.symm
    · rw [List.append_assoc]
      exact List.Perm.append_left _ ih

/-- **A right join is a left join the other way round.** -/
theorem right_perm_left (on : Env κ ρ → Bool) {key key' : κ} (hne : key ≠ key') :
    (right rows on key' (extend rows key fun _ => none)).Perm
      (left rows on key (extend rows key' fun _ => none)) := by
  have hcomm : ∀ r r' : ρ,
      Function.update (Function.update (fun _ => none : Env κ ρ) key (some r)) key' (some r') =
        Function.update (Function.update (fun _ => none) key' (some r')) key (some r) := by
    intro r r'
    exact Function.update_comm hne (some r) (some r') (fun _ => none : Env κ ρ)
  have hmatched : (inner rows on key' (extend rows key fun _ => none)).Perm
      (inner rows on key (extend rows key' fun _ => none)) := by
    have hswap := flatMap_map_swap (fun r r' : ρ =>
      Function.update (Function.update (fun _ => none : Env κ ρ) key (some r)) key' (some r'))
      (rows key) (rows key')
    simp only [hcomm] at hswap
    rw [inner, inner, cross, cross, extend, extend, List.flatMap_map, List.flatMap_map]
    simp only [extend, hcomm]
    exact hswap.filter on
  have hunmatched : ∀ r, ((extend rows key (Function.update (fun _ => none) key' (some r))).filter
      on).isEmpty = (extend rows key fun _ => none).all
        fun env => !on (Function.update env key' (some r)) := by
    intro r
    rw [Bool.eq_iff_iff, List.isEmpty_iff, List.filter_eq_nil_iff, List.all_eq_true, extend, extend]
    simp only [List.forall_mem_map, hcomm, Bool.not_eq_true', Bool.not_eq_true]
  have hnone : ∀ r : ρ, Function.update (Function.update (fun _ => none : Env κ ρ) key' (some r))
      key none = Function.update (fun _ => none) key' (some r) := by
    intro r
    rw [Function.update_eq_self_iff]
    exact (Function.update_of_ne hne (some r) (fun _ => none : Env κ ρ)).symm
  have hothers : ((extend rows key' fun _ => none).filter fun env =>
      ((extend rows key env).filter on).isEmpty).map (fun env => Function.update env key none) =
        ((rows key').filter fun r => (extend rows key fun _ => none).all fun env =>
          !on (Function.update env key' (some r))).map
            fun r => Function.update (fun _ => none) key' (some r) := by
    have hextend : extend rows key' (fun _ => none : Env κ ρ) =
        (rows key').map fun r => Function.update (fun _ => none) key' (some r) := rfl
    rw [hextend, List.filter_map, List.map_map]
    have hfilter : (rows key').filter ((fun env : Env κ ρ =>
        ((extend rows key env).filter on).isEmpty) ∘
          fun r => Function.update (fun _ => none) key' (some r)) =
        (rows key').filter fun r => (extend rows key fun _ => none).all fun env =>
          !on (Function.update env key' (some r)) :=
      List.filter_congr fun r _ => hunmatched r
    rw [hfilter]
    exact List.map_congr_left fun r _ => hnone r
  refine List.Perm.trans ?_ (left_perm on key _).symm
  rw [hothers]
  exact hmatched.append_right _

end Joins

/-! ### Chains of joins -/

/-- The kinds of joins. -/
inductive Kind
  | left
  | cross
  | inner
  | right
  deriving DecidableEq, Repr

/-- The join of one more table, with the conditions it is joined on. -/
structure Step (κ γ : Type) where
  kind : Kind
  key : κ
  on : List γ
  deriving DecidableEq, Repr

section Chains

variable (rows : κ → List ρ) (holds : γ → Env κ ρ → Bool)

/-- All conditions hold. -/
def allHold (on : List γ) (env : Env κ ρ) : Bool := on.all fun c => holds c env

/-- One join. -/
def Step.run (s : Step κ γ) (envs : List (Env κ ρ)) : List (Env κ ρ) :=
  match s.kind with
  | .left => left rows (allHold holds s.on) s.key envs
  | .cross => cross rows s.key envs
  | .inner => inner rows (allHold holds s.on) s.key envs
  | .right => right rows (allHold holds s.on) s.key envs

/-- One join after another. -/
def run (steps : List (Step κ γ)) (envs : List (Env κ ρ)) : List (Env κ ρ) :=
  steps.foldl (fun envs s => s.run rows holds envs) envs

variable {rows holds}

/-- The order of the combinations does not matter for tables that are optional or not joined on
anything. -/
lemma Step.run_perm {s : Step κ γ} (h : s.kind = .left ∨ s.kind = .cross)
    {envs envs' : List (Env κ ρ)} (hperm : envs.Perm envs') :
    (s.run rows holds envs).Perm (s.run rows holds envs') := by
  rw [Step.run, Step.run]
  rcases h with h | h
  · rw [h]
    exact List.Perm.flatMap_right _ hperm
  · rw [h]
    exact List.Perm.flatMap_right _ hperm

lemma run_perm {steps : List (Step κ γ)} (h : ∀ s ∈ steps, s.kind = .left ∨ s.kind = .cross)
    {envs envs' : List (Env κ ρ)} (hperm : envs.Perm envs') :
    (run rows holds steps envs).Perm (run rows holds steps envs') := by
  induction steps generalizing envs envs' with
  | nil => exact hperm
  | cons s steps ih =>
    obtain ⟨hs, hsteps⟩ := List.forall_mem_cons.1 h
    exact ih hsteps (Step.run_perm hs hperm)

/-- The conditions of an optional table do not look at the tables behind it. -/
def Later (holds : γ → Env κ ρ → Bool) (s s' : Step κ γ) : Prop :=
  s.key ≠ s'.key ∧ (s.kind = .left → Avoids (allHold holds s.on) s'.key)

/-- An optional table may be joined behind others that are not. -/
lemma left_run_perm {s : Step κ γ} (hleft : s.kind = .left) {steps : List (Step κ γ)}
    (hcross : ∀ s' ∈ steps, s'.kind = .cross) (hlater : ∀ s' ∈ steps, Later holds s s')
    (envs : List (Env κ ρ)) :
    (run rows holds steps (s.run rows holds envs)).Perm
      (s.run rows holds (run rows holds steps envs)) := by
  induction steps generalizing envs with
  | nil => exact List.Perm.refl _
  | cons s' steps ih =>
    obtain ⟨hkind, hkinds⟩ := List.forall_mem_cons.1 hcross
    obtain ⟨⟨hne, havoids⟩, hlater⟩ := List.forall_mem_cons.1 hlater
    have hswap : (s'.run rows holds (s.run rows holds envs)).Perm
        (s.run rows holds (s'.run rows holds envs)) := by
      rw [Step.run, hkind, Step.run, hleft, Step.run, hleft, Step.run, hkind]
      exact (left_cross_perm hne (havoids hleft) envs).symm
    exact (run_perm (fun t ht => .inr (hkinds t ht)) hswap).trans
      (ih hkinds hlater (s'.run rows holds envs))

/-- **Optional tables may be joined behind all others.** -/
theorem run_perm_filter {steps : List (Step κ γ)}
    (hkinds : ∀ s ∈ steps, s.kind = .left ∨ s.kind = .cross)
    (hlater : steps.Pairwise (Later holds)) (envs : List (Env κ ρ)) :
    (run rows holds steps envs).Perm
      (run rows holds (steps.filter fun s => s.kind = .left)
        (run rows holds (steps.filter fun s => s.kind ≠ .left) envs)) := by
  induction steps generalizing envs with
  | nil => exact List.Perm.refl _
  | cons s steps ih =>
    obtain ⟨hkind, hkinds⟩ := List.forall_mem_cons.1 hkinds
    obtain ⟨hbehind, hlater⟩ := List.pairwise_cons.1 hlater
    have hrest := ih hkinds hlater (s.run rows holds envs)
    by_cases hleft : s.kind = .left
    · rw [List.filter_cons_of_pos (by simpa using hleft),
        List.filter_cons_of_neg (by simpa using hleft)]
      have hcross : ∀ s' ∈ steps.filter fun s => s.kind ≠ .left, s'.kind = .cross := by
        intro s' hs'
        obtain ⟨hmem, hne⟩ := List.mem_filter.1 hs'
        exact (hkinds s' hmem).resolve_left (by simpa using hne)
      have hswap : (run rows holds (steps.filter fun s => s.kind ≠ .left)
          (s.run rows holds envs)).Perm
          (s.run rows holds (run rows holds (steps.filter fun s => s.kind ≠ .left) envs)) :=
        left_run_perm hleft hcross (fun s' hs' => hbehind s' (List.mem_filter.1 hs').1) envs
      refine hrest.trans (run_perm (fun t ht => ?_) hswap)
      exact .inl (by simpa using (List.mem_filter.1 ht).2)
    · rw [List.filter_cons_of_neg (by simpa using hleft),
        List.filter_cons_of_pos (by simpa using hleft)]
      exact hrest

end Chains

/-! ### Conditions -/

/-- A condition: the tables it names, and those it marks. -/
structure Pred (κ γ : Type) where
  tables : List κ
  marked : List κ
  cond : γ
  deriving DecidableEq, Repr

/-- The condition is taken with a table: it names it, and no other one or one that is there. -/
def Pred.connects (p : Pred κ γ) (key : κ) (placed : List κ) : Bool :=
  p.tables.contains key &&
    (p.tables.length = 1 || p.tables.any fun t => t != key && placed.contains t)

/-- The conditions that are taken with each table, and those that are never taken. -/
def place : List κ → List κ → List (Pred κ γ) → List (κ × List γ) × List (Pred κ γ)
  | [], _, preds => ([], preds)
  | key :: keys, placed, preds =>
    let on := (preds.filter fun p => p.connects key placed).map Pred.cond
    let others := place keys (placed ++ [key]) (preds.filter fun p => !p.connects key placed)
    ((key, on) :: others.1, others.2)

/-- The tables are joined in their order. -/
lemma map_fst_place (keys placed : List κ) (preds : List (Pred κ γ)) :
    (place keys placed preds).1.map Prod.fst = keys := by
  induction keys generalizing placed preds with
  | nil => rfl
  | cons key keys ih =>
    rw [place, List.map_cons, ih]

/-- **Every condition is taken once**, with a table or not at all. -/
theorem place_perm (keys placed : List κ) (preds : List (Pred κ γ)) :
    ((place keys placed preds).1.flatMap Prod.snd ++
      (place keys placed preds).2.map Pred.cond).Perm (preds.map Pred.cond) := by
  induction keys generalizing placed preds with
  | nil => exact List.Perm.refl _
  | cons key keys ih =>
    have hothers := ih (placed ++ [key]) (preds.filter fun p => !p.connects key placed)
    have hsplit := (List.filter_append_perm (fun p : Pred κ γ => p.connects key placed) preds).map
      Pred.cond
    rw [List.map_append] at hsplit
    rw [place, List.flatMap_cons, List.append_assoc]
    exact (List.Perm.append_left _ hothers).trans hsplit

/-! ### Conditions that name their tables in order -/

/-- A condition marks one table, which is not the first one, and names besides it at most one more,
which stands in front of it. -/
def Pred.Directed (all : List κ) (p : Pred κ γ) : Prop :=
  ∃ t ∈ all.tail, p.marked = [t] ∧
    (p.tables = [t] ∨ ∃ o, [o, t].Sublist all ∧ (p.tables = [o, t] ∨ p.tables = [t, o]))

/-- The conditions that mark a table. -/
def marking (key : κ) (preds : List (Pred κ γ)) : List γ :=
  (preds.filter fun p => p.marked.contains key).map Pred.cond

section Directed

variable {all placed keys : List κ} {preds : List (Pred κ γ)}

omit [DecidableEq κ] in
/-- What stands in front of a table in some list stands in front of it in its first part. -/
lemma mem_placed_of_sublist {o t : κ} (hnodup : (placed ++ t :: keys).Nodup)
    (h : [o, t].Sublist (placed ++ t :: keys)) : o ∈ placed := by
  have hkeys : t ∉ keys := by
    have hright := (List.nodup_append.1 hnodup).2.1
    exact (List.nodup_cons.1 hright).1
  obtain ⟨l₁, l₂, heq, hl₁, hl₂⟩ := List.sublist_append_iff.1 h
  cases l₁ with
  | nil =>
    rw [List.nil_append] at heq
    rw [← heq] at hl₂
    exact absurd ((List.Sublist.of_cons_cons hl₂).mem (List.mem_singleton_self t)) hkeys
  | cons a l₁ =>
    obtain rfl : o = a := (List.cons.inj heq).1
    exact hl₁.mem List.mem_cons_self

omit [DecidableEq κ] in
/-- Of two tables only one stands in front of the other. -/
lemma not_sublist_swap {l : List κ} (hnodup : l.Nodup) {a b : κ} (h : [a, b].Sublist l) :
    ¬ [b, a].Sublist l := by
  induction l with
  | nil => cases h
  | cons x l ih =>
    obtain ⟨hx, hl⟩ := List.nodup_cons.1 hnodup
    intro h'
    cases h with
    | cons _ h =>
      cases h' with
      | cons _ h' => exact ih hl h h'
      | cons_cons _ h' => exact hx (h.mem (List.mem_cons_of_mem _ List.mem_cons_self))
    | cons_cons _ h =>
      cases h' with
      | cons _ h' => exact hx (h'.mem (List.mem_cons_of_mem _ List.mem_cons_self))
      | cons_cons _ h' => exact hx (h.mem List.mem_cons_self)

/-- **A condition is taken with the table it marks**, and not before. -/
lemma connects_iff_of_directed {p : Pred κ γ} {key t : κ} (hnodup : (placed ++ key :: keys).Nodup)
    (ht : t ∈ key :: keys)
    (h : p.tables = [t] ∨
      ∃ o, [o, t].Sublist (placed ++ key :: keys) ∧ (p.tables = [o, t] ∨ p.tables = [t, o])) :
    p.connects key placed = true ↔ t = key := by
  have hplaced : ∀ x ∈ key :: keys, x ∉ placed := fun x hx hp =>
    (List.nodup_append.1 hnodup).2.2 x hp x hx rfl
  rw [Pred.connects]
  constructor
  · intro hconnects
    by_contra hne
    rcases h with htables | ⟨o, hsub, htables⟩
    · rw [htables] at hconnects
      simp [Ne.symm hne] at hconnects
    · have hthere : t ∉ placed := hplaced t ht
      have hne' : ¬ key = t := fun h => hne h.symm
      rcases htables with htables | htables
      · rw [htables] at hconnects
        simp [hne', hthere] at hconnects
        obtain ⟨rfl, hne'', -⟩ := hconnects
        exact hne'' rfl
      · rw [htables] at hconnects
        simp [hne', hthere] at hconnects
        obtain ⟨rfl, hne'', -⟩ := hconnects
        exact hne'' rfl
  · rintro rfl
    rcases h with htables | ⟨o, hsub, htables⟩
    · rw [htables]
      simp
    · have ho := mem_placed_of_sublist hnodup hsub
      have hne : o ≠ t := fun h => hplaced t ht (h ▸ ho)
      rcases htables with htables | htables
      · rw [htables]
        simp [ho, hne]
      · rw [htables]
        simp [ho, hne]

/-- **Each table is joined on the conditions that mark it**, and all of them are taken. -/
theorem place_of_directed (hnodup : (placed ++ keys).Nodup)
    (h : ∀ p ∈ preds, ∃ t ∈ keys, p.marked = [t] ∧ (p.tables = [t] ∨
      ∃ o, [o, t].Sublist (placed ++ keys) ∧ (p.tables = [o, t] ∨ p.tables = [t, o]))) :
    place keys placed preds = (keys.map fun key => (key, marking key preds), []) := by
  induction keys generalizing placed preds with
  | nil =>
    have hnil : preds = [] := List.eq_nil_iff_forall_not_mem.2 fun p hp => by
      obtain ⟨t, ht, -⟩ := h p hp
      cases ht
    rw [hnil]
    rfl
  | cons key keys ih =>
    have hconnects : ∀ p ∈ preds, p.connects key placed = p.marked.contains key := by
      intro p hp
      obtain ⟨t, ht, hmarked, htables⟩ := h p hp
      rw [Bool.eq_iff_iff, connects_iff_of_directed hnodup ht htables, hmarked]
      simp [eq_comm]
    have hkey : key ∉ keys := (List.nodup_cons.1 (List.nodup_append.1 hnodup).2.1).1
    have hothers : place keys (placed ++ [key])
        (preds.filter fun p => !p.connects key placed) =
          (keys.map fun k => (k, marking k (preds.filter fun p => !p.connects key placed)),
            []) := by
      refine ih ?_ fun p hp => ?_
      · rw [List.append_assoc]
        exact hnodup
      · obtain ⟨hmem, hnot⟩ := List.mem_filter.1 hp
        obtain ⟨t, ht, hmarked, htables⟩ := h p hmem
        rw [hconnects p hmem, hmarked] at hnot
        have hne : t ≠ key := by
          rintro rfl
          simp at hnot
        refine ⟨t, (List.mem_cons.1 ht).resolve_left hne, hmarked, ?_⟩
        rw [List.append_assoc]
        exact htables
    rw [place, hothers, List.map_cons]
    refine Prod.ext (congrArg₂ List.cons ?_ ?_) rfl
    · rw [marking, List.filter_congr hconnects]
    · refine List.map_congr_left fun k hk => ?_
      have hne : k ≠ key := fun h => hkey (h ▸ hk)
      rw [marking, marking, List.filter_filter]
      refine congrArg (fun l => (k, List.map Pred.cond l)) (List.filter_congr fun p hp => ?_)
      obtain ⟨t, -, hmarked, -⟩ := h p hp
      rw [hconnects p hp, hmarked]
      by_cases hkt : k = t
      · subst hkt
        simp [hne.symm]
      · simp [hkt]

end Directed

/-! ### What the chain finds -/

/-- The join of a table. -/
def Step.of (outer : List κ) (reversed : Bool) (join : κ × List γ) : Step κ γ where
  kind :=
    if join.1 ∈ outer then .left
    else if join.2.isEmpty then .cross
    else if reversed = true then .right
    else .inner
  key := join.1
  on := join.2

/-- The joins of some tables behind a first one. -/
def steps (reversed : Bool) (base : κ) (keys : List κ) (preds : List (Pred κ γ)) :
    List (Step κ γ) :=
  (place keys [base] preds).1.map (Step.of (preds.flatMap Pred.marked) reversed)

section Meaning

variable (rows : κ → List ρ) (holds : γ → Env κ ρ → Bool)

/-- **The combinations that should be found**: all of the tables that are not optional, and for each
of them the rows of the optional tables that match it by all conditions that mark the table. -/
def meaning (keys : List κ) (preds : List (Pred κ γ)) (envs : List (Env κ ρ)) :
    List (Env κ ρ) :=
  let outer := preds.flatMap Pred.marked
  let others := (keys.filter (· ∉ outer)).foldl (fun envs key => cross rows key envs) envs
  (keys.filter (· ∈ outer)).foldl
    (fun envs key => left rows (allHold holds (marking key preds)) key envs) others

variable {rows holds}

/-- A list of conditions does not look at a table if none of them does. -/
lemma avoids_allHold {on : List γ} {key : κ} (h : ∀ c ∈ on, Avoids (holds c) key) :
    Avoids (allHold holds on) key := by
  intro env r
  rw [allHold, allHold, Bool.eq_iff_iff, List.all_eq_true, List.all_eq_true]
  exact forall₂_congr fun c hc => by rw [h c hc env r]

/-- **The chain finds what should be found**, if every condition names its tables in order and does
not look at others. -/
theorem run_steps_perm (reversed : Bool) {base : κ} {keys : List κ}
    (hnodup : (base :: keys).Nodup) {preds : List (Pred κ γ)}
    (hdirected : ∀ p ∈ preds, p.Directed (base :: keys))
    (havoids : ∀ p ∈ preds, ∀ key ∉ p.tables, Avoids (holds p.cond) key)
    (envs : List (Env κ ρ)) :
    (place keys [base] preds).2 = [] ∧
      (run rows holds (steps reversed base keys preds) envs).Perm
        (meaning rows holds keys preds envs) := by
  obtain ⟨hbase, hkeys⟩ := List.nodup_cons.1 hnodup
  have hplace : place keys [base] preds = (keys.map fun key => (key, marking key preds), []) :=
    place_of_directed hnodup hdirected
  have hsteps : steps reversed base keys preds = keys.map fun key =>
      Step.of (preds.flatMap Pred.marked) reversed (key, marking key preds) := by
    rw [steps, hplace, List.map_map]
    rfl
  have hkind : ∀ key, (Step.of (preds.flatMap Pred.marked) reversed
      (key, marking key preds)).kind =
        if key ∈ preds.flatMap Pred.marked then .left else .cross := by
    intro key
    rw [Step.of]
    dsimp only
    split_ifs with hmem hnil
    · rfl
    · rfl
    all_goals
      have hnone : marking key preds = [] := by
        rw [marking, List.map_eq_nil_iff, List.filter_eq_nil_iff]
        intro p hp hmarked
        exact hmem (List.mem_flatMap.2 ⟨p, hp, List.contains_iff_mem.1 hmarked⟩)
      rw [hnone] at hnil
      exact absurd rfl hnil
  refine ⟨by rw [hplace], ?_⟩
  have hlater : (steps reversed base keys preds).Pairwise (Later holds) := by
    rw [hsteps, List.pairwise_map, List.pairwise_iff_forall_sublist]
    intro key key' hsub
    refine ⟨fun heq => ?_, fun _ => avoids_allHold fun c hc => ?_⟩
    · have hpair := hsub.nodup hkeys
      have heq' : key = key' := heq
      rw [heq'] at hpair
      simp at hpair
    · obtain ⟨p, hp, rfl⟩ := List.mem_map.1 hc
      obtain ⟨hmem, hmarked⟩ := List.mem_filter.1 hp
      obtain ⟨t, -, ht, htables⟩ := hdirected p hmem
      have hkt : key = t := by
        rw [ht] at hmarked
        simpa using hmarked
      subst hkt
      have hne : key' ≠ key := by
        rintro rfl
        have hpair := hsub.nodup hkeys
        simp at hpair
      refine havoids p hmem key' fun hin => ?_
      rcases htables with htables | ⟨o, ho, htables⟩
      · rw [htables] at hin
        exact hne (List.mem_singleton.1 hin)
      · have hko : key' = o := by
          rcases htables with htables | htables
          · rw [htables] at hin
            simpa [hne] using hin
          · rw [htables] at hin
            simpa [hne] using hin
        subst hko
        exact not_sublist_swap hnodup ho (hsub.cons base)
  have hkinds : ∀ s ∈ steps reversed base keys preds, s.kind = .left ∨ s.kind = .cross := by
    rw [hsteps]
    intro s hs
    obtain ⟨key, -, rfl⟩ := List.mem_map.1 hs
    rw [hkind]
    split_ifs
    · exact .inl rfl
    · exact .inr rfl
  refine (run_perm_filter hkinds hlater envs).trans (List.Perm.of_eq ?_)
  have hleft : ∀ key, ((fun s : Step κ γ => decide (s.kind = .left)) ∘ fun key =>
      Step.of (preds.flatMap Pred.marked) reversed (key, marking key preds)) key =
        decide (key ∈ preds.flatMap Pred.marked) := by
    intro key
    simp only [Function.comp_apply, hkind]
    split_ifs with hmem <;> simp [hmem]
  have hcross : ∀ key, ((fun s : Step κ γ => decide (s.kind ≠ .left)) ∘ fun key =>
      Step.of (preds.flatMap Pred.marked) reversed (key, marking key preds)) key =
        decide (key ∉ preds.flatMap Pred.marked) := by
    intro key
    simp only [Function.comp_apply, hkind]
    split_ifs with hmem <;> simp [hmem]
  rw [hsteps, List.filter_map, List.filter_map, run, run, List.foldl_map, List.foldl_map, meaning,
    List.filter_congr fun key _ => hleft key, List.filter_congr fun key _ => hcross key]
  have hothers : ∀ envs : List (Env κ ρ), ∀ key ∈ keys.filter (· ∉ preds.flatMap Pred.marked),
      (Step.of (preds.flatMap Pred.marked) reversed (key, marking key preds)).run rows holds envs =
        cross rows key envs := by
    intro envs key hkey
    have hmem : key ∉ preds.flatMap Pred.marked := by simpa using (List.mem_filter.1 hkey).2
    rw [Step.run, hkind, if_neg hmem]
    rfl
  have houter : ∀ envs : List (Env κ ρ), ∀ key ∈ keys.filter (· ∈ preds.flatMap Pred.marked),
      (Step.of (preds.flatMap Pred.marked) reversed (key, marking key preds)).run rows holds envs =
        left rows (allHold holds (marking key preds)) key envs := by
    intro envs key hkey
    have hmem : key ∈ preds.flatMap Pred.marked := by simpa using (List.mem_filter.1 hkey).2
    rw [Step.run, hkind, if_pos hmem]
    rfl
  rw [List.foldl_ext _ _ _ hothers, List.foldl_ext _ _ _ houter]

end Meaning

end OptionalTables
