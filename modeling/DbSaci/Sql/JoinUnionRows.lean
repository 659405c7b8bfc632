import DbSaci.Sql.JoinUnion

set_option relaxedAutoImplicit false
set_option autoImplicit false

/-!
# When the union returns the rows of the full join

The union of the left join and of the rows of the right join whose key is `NULL` stands for a query
over the full join. It returns what the query returns exactly if nothing is grouped or aggregated,
no matched row has `NULL` as its key, or with `DISTINCT` no row is selected by both arms, and sorted
queries already have the labels of the hidden columns and sort keys that are expressions alone.

## Main definitions

* `FullJoin.lowered` — the union that is to stand for a query.
* `FullJoin.Kept` — the condition on the query and the contents of the tables.

## Main results

* `FullJoin.lowered_agrees_iff` — the union returns what the query returns exactly under the
  condition.
-/

namespace DbSaci

open Text Sorting Joins

namespace FullJoin

/-! ### The union -/

/-- The label of a column. -/
def columnLabel (i : ℕ) : List Char := "__dbsaci_foj_c".toList ++ Nat.toDigits 10 i

/-- The label of a sort key. -/
def orderLabel (i : ℕ) : List Char := "__dbsaci_foj_o".toList ++ Nat.toDigits 10 i

/-- The sort keys that are found: none if a grouping follows the join condition. -/
def keptOrder (q : FullJoin) : List SortKey :=
  if q.where_ = none ∧ q.group ≠ none then [] else q.order

/-- The grouping that is kept: the one that follows a condition, which it is taken for a part
of. -/
def keptGroup (q : FullJoin) : Option (List Char) := if q.where_ = none then none else q.group

/-- An item, labelled by its place or not. -/
def itemEntry (labelled : Bool) (i : ℕ) (x : SelectedItem) : Entry :=
  .item x (if labelled then some (columnLabel i) else none)

/-- A sort key, labelled by its place or not. -/
def keyEntry (labelled : Bool) (i : ℕ) (k : SortKey) : Entry :=
  .key k (if labelled then some (orderLabel i) else none)

/-- What an arm selects: the items and the sort keys. -/
def entries (q : FullJoin) (labelled : Bool) : List Entry :=
  q.items.mapIdx (itemEntry labelled) ++ q.keptOrder.mapIdx (keyEntry labelled)

/-- The first arm, from the left join. -/
def firstArm (q : FullJoin) : Arm where
  distinct := q.distinct
  aggregate := q.aggregate
  entries := q.entries (q.keptOrder ≠ [])
  isRight := false
  left := q.left
  right := q.right
  on := q.on
  anti := none
  condition := q.where_
  group := q.keptGroup

/-- The second arm, from the right join. -/
def secondArm (q : FullJoin) (key : List Char) : Arm where
  distinct := q.distinct
  aggregate := q.aggregate
  entries := q.entries false
  isRight := true
  left := q.left
  right := q.right
  on := q.on
  anti := some key
  condition := q.where_
  group := q.keptGroup

/-- The union that is to stand for a query. -/
def lowered (q : FullJoin) (key : List Char) : JoinUnion where
  first := q.firstArm
  second := q.secondArm key
  sort := if q.keptOrder = [] then none
    else some ((List.range q.items.length).map columnLabel,
      (List.range q.keptOrder.length).map orderLabel)

/-! ### The condition -/

section Kept

variable {α β V Γ : Type} [DecidableEq V] [DecidableEq Γ] (M : JoinMeaning α β V Γ)
  (q : FullJoin) (key : List Char) (l : List α) (r : List β)

/-- A joined row meets the condition of the query. -/
def keeps (x : Row α β) : Bool := q.where_.all fun w => M.holds w x

/-- The rows of the left join. -/
def leftRows : List (Row α β) := (Joins.left (M.on q.on) l r).filter (q.keeps M)

/-- The rows of the right join whose key is `NULL`. -/
def missingRows : List (Row α β) :=
  (Joins.right (M.on q.on) l r).filter fun x => Arm.isMissing M key x && q.keeps M x

/-- The values of the sort keys as expressions. -/
def hiddenValues (x : List (Row α β)) : List V := q.order.map fun k => M.value k.expr x

/-- The records of one arm. -/
def part (rows : List (Row α β)) : List (List (Row α β)) :=
  recordsOf M q.distinct false none q.exprs (q.order.map SortKey.expr) rows

/-- The rows of the query and of the union are the same: without `DISTINCT` no matched row has
`NULL` as its key, with it no row is selected from both joins, nor with two values of a sort key
from one. -/
structure SameRows : Prop where
  matched : q.distinct = false → ∀ a ∈ l, ∀ b ∈ r, M.on q.on a b = true →
    q.keeps M (some a, some b) = true → Arm.isMissing M key (some a, some b) = false
  disjoint : q.distinct = true → ∀ x ∈ q.leftRows M l r, ∀ y ∈ q.missingRows M key l r,
    M.project q.exprs [x] ≠ M.project q.exprs [y]
  determined : q.distinct = true → ∀ rows ∈ [q.leftRows M l r, q.missingRows M key l r],
    ∀ x ∈ rows, ∀ y ∈ rows, M.project q.exprs [x] = M.project q.exprs [y] →
      q.hiddenValues M [x] = q.hiddenValues M [y]

/-- The query can be sorted by hidden columns: labels can be put behind its items and sort keys, its
columns have these labels already, and its sort keys are expressions that sort the rows the same
way. -/
structure Sortable : Prop where
  items : ∀ i ∈ q.items, i.Plain
  keys : ∀ k ∈ q.order, k.Plain
  names : (List.range q.items.length).map columnLabel = q.names M
  order : ∀ x y, List.Subperm [x, y]
      (q.part M (q.leftRows M l r) ++ q.part M (q.missingRows M key l r)) →
    lexLe (q.order.map fun k => comparing (M.value k.expr) (nullsLast M.isNull M.le)) x y = true →
      q.le M x y = true

/-- The union stands for the query. -/
structure Kept : Prop where
  group : q.group = none
  aggregate : q.aggregate = false
  column : (M.column key).isSome
  rows : q.SameRows M key l r
  order : q.order ≠ [] → q.Sortable M key l r

end Kept

/-! ### What the arms select -/

section Arms

variable {q : FullJoin} {key : List Char}

lemma keptOrder_eq (h : q.group = none) : q.keptOrder = q.order := by
  rw [keptOrder, if_neg]
  rintro ⟨-, hg⟩
  exact hg h

lemma keptGroup_eq (h : q.group = none) : q.keptGroup = none := by
  rw [keptGroup, h, ite_self]

lemma filterMap_mapIdx {ι κ τ : Type} (f : ℕ → ι → κ) {g : κ → Option τ} (h : ι → Option τ)
    (hfg : ∀ i x, g (f i x) = h x) (xs : List ι) : (xs.mapIdx f).filterMap g = xs.filterMap h := by
  induction xs generalizing f with
  | nil => rfl
  | cons x xs ih =>
    rw [List.mapIdx_cons, List.filterMap_cons, List.filterMap_cons, hfg,
      ih (fun i => f (i + 1)) fun i => hfg (i + 1)]

lemma exprs_entries (q : FullJoin) (labelled : Bool) :
    (q.entries labelled).filterMap Entry.expr? = q.exprs := by
  rw [entries, List.filterMap_append,
    filterMap_mapIdx (itemEntry labelled) (fun i => some i.expr) fun _ _ => rfl,
    filterMap_mapIdx (keyEntry labelled) (fun _ => none) fun _ _ => rfl]
  simp [exprs]

lemma hidden_entries (q : FullJoin) (labelled : Bool) :
    (q.entries labelled).filterMap Entry.hidden? = q.keptOrder.map SortKey.expr := by
  rw [entries, List.filterMap_append,
    filterMap_mapIdx (itemEntry labelled) (fun _ => none) fun _ _ => rfl,
    filterMap_mapIdx (keyEntry labelled) (fun k => some k.expr) fun _ _ => rfl]
  simp

end Arms

/-! ### The rows -/

section Rows

variable {α β V Γ : Type} [DecidableEq V] [DecidableEq Γ] {M : JoinMeaning α β V Γ}
  {q : FullJoin} {key : List Char} {l : List α} {r : List β}

lemma firstArm_records (hg : q.group = none) (ha : q.aggregate = false) :
    q.firstArm.records M l r = q.part M (q.leftRows M l r) := by
  have hrows : q.firstArm.rows M l r = q.leftRows M l r := rfl
  have hexprs : q.firstArm.exprs = q.exprs := exprs_entries q _
  have hhidden : q.firstArm.hidden = q.keptOrder.map SortKey.expr := hidden_entries q _
  rw [Arm.records, hrows, hexprs, hhidden, keptOrder_eq hg, part, ← ha, ← keptGroup_eq hg]
  rfl

lemma secondArm_records (hg : q.group = none) (ha : q.aggregate = false) :
    (q.secondArm key).records M l r = q.part M (q.missingRows M key l r) := by
  have hrows : (q.secondArm key).rows M l r = q.missingRows M key l r := rfl
  have hexprs : (q.secondArm key).exprs = q.exprs := exprs_entries q _
  have hhidden : (q.secondArm key).hidden = q.keptOrder.map SortKey.expr := hidden_entries q _
  rw [Arm.records, hrows, hexprs, hhidden, keptOrder_eq hg, part, ← ha, ← keptGroup_eq hg]
  rfl

omit [DecidableEq V] [DecidableEq Γ] in
/-- The key is `NULL` where there is no left row. -/
lemma isMissing_none (b : β) : Arm.isMissing M key ((none, some b) : Row α β) = true := rfl

/-- Rows are selected once, or each value once. -/
lemma part_eq (rows : List (Row α β)) :
    q.part M rows = if q.distinct then
      distinctBy (fun x => (M.project q.exprs x, q.hiddenValues M x)) (rows.map fun x => [x])
    else rows.map fun x => [x] := by
  have hhidden : ∀ x, (q.order.map SortKey.expr).map (fun e => M.value e x) =
      q.hiddenValues M x := by
    intro x
    rw [hiddenValues, List.map_map]
    rfl
  simp only [part, recordsOf, Option.elim_none, Bool.false_eq_true, if_false, hhidden]

lemma records_eq (hg : q.group = none) (ha : q.aggregate = false) :
    q.records M l r = if q.distinct then
      distinctBy (fun x => (M.project q.exprs x, ([] : List V)))
        ((q.rows M l r).map fun x => [x])
    else (q.rows M l r).map fun x => [x] := by
  simp only [records, recordsOf, hg, ha, Option.elim_none, Bool.false_eq_true, if_false,
    List.map_nil]

/-- Without `DISTINCT` the rows are the same if no matched row is selected twice. -/
lemma rows_perm_iff_matched (hd : q.distinct = false) (hg : q.group = none)
    (ha : q.aggregate = false) :
    ((q.part M (q.leftRows M l r) ++ q.part M (q.missingRows M key l r)).map
        (M.project q.exprs)).Perm ((q.records M l r).map (M.project q.exprs)) ↔
      ∀ a ∈ l, ∀ b ∈ r, M.on q.on a b = true → q.keeps M (some a, some b) = true →
        Arm.isMissing M key (some a, some b) = false := by
  obtain ⟨twice, htwice⟩ : ∃ twice, twice = (matched (M.on q.on) l r).filter fun x =>
      Arm.isMissing M key x && q.keeps M x := ⟨_, rfl⟩
  have hperm : (q.leftRows M l r ++ q.missingRows M key l r).Perm (q.rows M l r ++ twice) := by
    rw [htwice]
    exact left_append_right_perm isMissing_none (q.keeps M)
  have hnone : twice = [] ↔ ∀ a ∈ l, ∀ b ∈ r, M.on q.on a b = true →
      q.keeps M (some a, some b) = true → Arm.isMissing M key (some a, some b) = false := by
    rw [htwice, List.filter_eq_nil_iff]
    constructor
    · intro h a hla b hrb hon hkeep
      have := h (some a, some b) (mem_matched.2 ⟨a, hla, b, hrb, hon, rfl⟩)
      simpa [hkeep] using this
    · intro h x hx
      obtain ⟨a, hla, b, hrb, hon, rfl⟩ := mem_matched.1 hx
      rw [Bool.and_eq_true]
      rintro ⟨hmissing, hkeep⟩
      rw [h a hla b hrb hon hkeep] at hmissing
      cases hmissing
  rw [← hnone, part_eq, part_eq, records_eq hg ha, hd]
  simp only [Bool.false_eq_true, if_false, ← List.map_append, List.map_map]
  constructor
  · intro h
    have hlen := h.length_eq
    rw [List.length_map, List.length_map, hperm.length_eq, List.length_append] at hlen
    exact List.eq_nil_of_length_eq_zero (by omega)
  · intro h
    rw [h, List.append_nil] at hperm
    exact hperm.map _

/-- With `DISTINCT` the rows are the same if no value is selected twice. -/
lemma rows_perm_iff_disjoint (hd : q.distinct = true) (hg : q.group = none)
    (ha : q.aggregate = false) :
    ((q.part M (q.leftRows M l r) ++ q.part M (q.missingRows M key l r)).map
        (M.project q.exprs)).Perm ((q.records M l r).map (M.project q.exprs)) ↔
      (∀ x ∈ q.leftRows M l r, ∀ y ∈ q.missingRows M key l r,
        M.project q.exprs [x] ≠ M.project q.exprs [y]) ∧
      ∀ rows ∈ [q.leftRows M l r, q.missingRows M key l r], ∀ x ∈ rows, ∀ y ∈ rows,
        M.project q.exprs [x] = M.project q.exprs [y] →
          q.hiddenValues M [x] = q.hiddenValues M [y] := by
  have hmem : ∀ x : List (Row α β), x ∈ (q.leftRows M l r).map (fun x => [x]) ∨
      x ∈ (q.missingRows M key l r).map (fun x => [x]) ↔ x ∈ (q.rows M l r).map fun x => [x] := by
    intro x
    have hrow : ∀ x, x ∈ q.leftRows M l r ∨ x ∈ q.missingRows M key l r ↔ x ∈ q.rows M l r :=
      mem_left_or_right isMissing_none (q.keeps M)
    simp only [List.mem_map]
    constructor
    · rintro (⟨y, hy, rfl⟩ | ⟨y, hy, rfl⟩)
      · exact ⟨y, (hrow y).1 (.inl hy), rfl⟩
      · exact ⟨y, (hrow y).1 (.inr hy), rfl⟩
    · rintro ⟨y, hy, rfl⟩
      exact ((hrow y).2 hy).imp (fun hy => ⟨y, hy, rfl⟩) fun hy => ⟨y, hy, rfl⟩
  have hiff := distinct_append_perm_iff (f := M.project q.exprs)
    (g := fun x => (M.project q.exprs x, q.hiddenValues M x))
    (h := fun x => (M.project q.exprs x, ([] : List V)))
    (fun _ => rfl) (fun _ => rfl) (fun x y hxy => by rw [hxy]) hmem
  rw [part_eq, part_eq, records_eq hg ha, hd, if_pos rfl, if_pos rfl, if_pos rfl, hiff]
  simp only [List.forall_mem_map, List.forall_mem_cons, Prod.mk.injEq]
  constructor
  · rintro ⟨hdisjoint, hleft, hright⟩
    exact ⟨hdisjoint, fun x hx y hy hxy => (hleft x hx y hy hxy).2,
      fun x hx y hy hxy => (hright x hx y hy hxy).2, fun _ h => by cases h⟩
  · rintro ⟨hdisjoint, hleft, hright, -⟩
    exact ⟨hdisjoint, fun x hx y hy hxy => ⟨hxy, hleft x hx y hy hxy⟩,
      fun x hx y hy hxy => ⟨hxy, hright x hx y hy hxy⟩⟩

/-- **The union has the rows of the query** exactly if no row is selected twice. -/
theorem sameRows_iff (hg : q.group = none) (ha : q.aggregate = false) :
    (((q.lowered key).records M l r).map (M.project q.exprs)).Perm
      ((q.records M l r).map (M.project q.exprs)) ↔ q.SameRows M key l r := by
  rw [JoinUnion.records, lowered, firstArm_records hg ha, secondArm_records hg ha]
  cases hd : q.distinct with
  | false =>
    rw [rows_perm_iff_matched hd hg ha]
    constructor
    · intro h
      exact ⟨fun _ => h, fun h => (Bool.false_ne_true (hd.symm.trans h)).elim,
        fun h => (Bool.false_ne_true (hd.symm.trans h)).elim⟩
    · exact fun h => h.matched hd
  | true =>
    rw [rows_perm_iff_disjoint hd hg ha]
    constructor
    · rintro ⟨hdisjoint, hdet⟩
      exact ⟨fun h => (Bool.false_ne_true (h.symm.trans hd)).elim, fun _ => hdisjoint,
        fun _ => hdet⟩
    · exact fun h => ⟨h.disjoint hd, h.determined hd⟩

/-! ### Sorted queries -/

/-- Of a union that is sorted all items have labels. -/
lemma entries_wellFormed_iff (labelled : Bool) (hg : q.group = none) :
    (∀ e ∈ q.entries labelled, e.WellFormed) ↔
      (labelled = true → ∀ i ∈ q.items, i.Plain) ∧ ∀ k ∈ q.order, k.Plain := by
  rw [entries, keptOrder_eq hg]
  simp only [List.mem_append, List.mem_mapIdx, or_imp, forall_and]
  constructor
  · rintro ⟨hitems, hkeys⟩
    refine ⟨fun hl i hi => ?_, fun k hk => ?_⟩
    · obtain ⟨n, hn, rfl⟩ := List.getElem_of_mem hi
      apply hitems (itemEntry labelled n q.items[n]) ⟨n, hn, rfl⟩
      rw [hl]
      rfl
    · obtain ⟨n, hn, rfl⟩ := List.getElem_of_mem hk
      exact hkeys (keyEntry labelled n q.order[n]) ⟨n, hn, rfl⟩
  · rintro ⟨hitems, hkeys⟩
    refine ⟨?_, ?_⟩
    · rintro _ ⟨n, hn, rfl⟩ hlabel
      apply hitems _ _ (List.getElem_mem hn)
      cases labelled with
      | true => rfl
      | false => cases hlabel
    · rintro _ ⟨n, hn, rfl⟩
      exact hkeys _ (List.getElem_mem hn)

omit [DecidableEq V] [DecidableEq Γ] in
/-- The sort of the union puts `NULL` last. -/
lemma lexLe_hidden (keys : List SortKey) :
    lexLe ((keys.map SortKey.expr).flatMap fun e =>
      [comparing (M.value e) (nullRank M.isNull), comparing (M.value e) (nullsFirst M.isNull M.le)]) =
      lexLe (keys.map fun k => comparing (M.value k.expr) (nullsLast M.isNull M.le)) := by
  induction keys with
  | nil => rfl
  | cons k keys ih =>
    simp only [List.map_cons, List.flatMap_cons, List.cons_append, List.nil_append]
    rw [lexLe_nullRank]
    funext x y
    rw [lexLe, lexLe, ih]

omit [DecidableEq V] [DecidableEq Γ] in
/-- It is an order. -/
lemma order_hidden (keys : List SortKey) :
    Order (lexLe (keys.map fun k => comparing (M.value k.expr) (nullsLast M.isNull M.le))) := by
  apply order_lexLe
  intro le hle
  obtain ⟨k, -, rfl⟩ := List.mem_map.1 hle
  exact (order_nullsLast M.order).comparing (M.value k.expr)

omit [DecidableEq V] [DecidableEq Γ] in
/-- Without labels the columns have the names of the items. -/
lemma names_entries : (q.entries false).flatMap (Entry.names M) = q.names M := by
  have hitems : ∀ (xs : List SelectedItem) (f : ℕ → SelectedItem → Entry),
      (∀ i x, (f i x).names M = x.label.elim (M.names x.expr) fun l => [l.2]) →
      (xs.mapIdx f).flatMap (Entry.names M) =
        xs.flatMap fun x => x.label.elim (M.names x.expr) fun l => [l.2] := by
    intro xs
    induction xs with
    | nil => exact fun _ _ => rfl
    | cons x xs ih =>
      intro f hf
      rw [List.mapIdx_cons, List.flatMap_cons, List.flatMap_cons, hf,
        ih (fun i => f (i + 1)) fun i => hf (i + 1)]
  have hkeys : (q.keptOrder.mapIdx (keyEntry false)).flatMap (Entry.names M) = [] := by
    rw [List.flatMap_eq_nil_iff]
    intro e he
    obtain ⟨n, hn, rfl⟩ := List.mem_mapIdx.1 he
    rfl
  rw [entries, List.flatMap_append, hkeys, List.append_nil, names]
  exact hitems q.items (itemEntry false) fun _ _ => rfl

/-- All rows together are one record. -/
lemma length_recordsOf_aggregate (distinct : Bool) (exprs hidden : List (List Char))
    (rows : List (Row α β)) :
    (recordsOf M distinct true none exprs hidden rows).length = 1 := by
  cases distinct with
  | false => rfl
  | true =>
    rw [recordsOf, if_pos rfl, Option.elim_none, if_pos rfl, distinctBy_singleton]
    rfl

/-- Aggregates of the arms are two records. -/
lemma aggregate_eq_false (hg : q.group = none)
    (h : (((q.lowered key).records M l r).map (M.project q.exprs)).Perm
      ((q.records M l r).map (M.project q.exprs))) : q.aggregate = false := by
  rw [← Bool.not_eq_true]
  intro ha
  have hlen := h.length_eq
  have hfirst : (q.firstArm.records M l r).length = 1 := by
    rw [Arm.records, show q.firstArm.aggregate = true from ha,
      show q.firstArm.group = none from keptGroup_eq hg, length_recordsOf_aggregate]
  have hsecond : ((q.secondArm key).records M l r).length = 1 := by
    rw [Arm.records, show (q.secondArm key).aggregate = true from ha,
      show (q.secondArm key).group = none from keptGroup_eq hg, length_recordsOf_aggregate]
  rw [List.length_map, List.length_map, JoinUnion.records, List.length_append, records, ha, hg,
    length_recordsOf_aggregate] at hlen
  change (q.firstArm.records M l r).length + ((q.secondArm key).records M l r).length = 1 at hlen
  omega

omit [DecidableEq V] [DecidableEq Γ] in
/-- The union sorts by the hidden columns. -/
lemma lowered_le (hg : q.group = none) (ho : q.order ≠ []) : (q.lowered key).le M =
    lexLe (q.order.map fun k => comparing (M.value k.expr) (nullsLast M.isNull M.le)) := by
  have hkept := keptOrder_eq hg
  have hhidden : (q.lowered key).first.hidden = q.order.map SortKey.expr := by
    rw [← hkept]
    exact hidden_entries q _
  have hsort : ∃ s, (q.lowered key).sort = some s := by
    refine ⟨_, if_neg ?_⟩
    rw [hkept]
    exact ho
  obtain ⟨s, hs⟩ := hsort
  rw [JoinUnion.le, hs, Option.elim_some, hhidden, lexLe_hidden]

/-- **The union returns what the query returns** exactly under the condition. -/
theorem lowered_agrees_iff :
    (q.lowered key).Agrees M q l r ↔ q.Kept M key l r := by
  constructor
  · intro h
    have hg : q.group = none := by
      by_cases hw : q.where_ = none
      · have hkept : q.keptGroup = q.group := h.grouped.1
        rw [keptGroup, if_pos hw] at hkept
        exact hkept.symm
      · -- a grouping behind a condition would stand in its parentheses
        have hnone : q.keptGroup = none :=
          h.wellFormed.2.grouping rfl (Option.ne_none_iff_isSome.1 hw)
        rw [keptGroup, if_neg hw] at hnone
        exact hnone
    have ha := aggregate_eq_false hg h.rows
    refine ⟨hg, ha, h.wellFormed.2.column key rfl, (sameRows_iff hg ha).1 h.rows, fun ho => ?_⟩
    have hkept := keptOrder_eq hg
    have hlabelled : decide (q.keptOrder ≠ []) = true := by
      rw [hkept]
      exact decide_eq_true ho
    obtain ⟨hitems, hkeys⟩ := (entries_wellFormed_iff _ hg).1 h.wellFormed.1.entries
    refine ⟨hitems hlabelled, hkeys, ?_, ?_⟩
    · rw [← h.names, JoinUnion.names, lowered, if_neg (of_decide_eq_true hlabelled)]
      rfl
    · have hordered := h.ordered
      rw [lowered_le hg ho, JoinUnion.records] at hordered
      have hpairs := (forall_arrangement_iff (order_hidden q.order)).1 hordered
      change ∀ x y, List.Subperm [x, y]
        (q.firstArm.records M l r ++ (q.secondArm key).records M l r) → _ at hpairs
      rw [firstArm_records hg ha, secondArm_records hg ha] at hpairs
      exact hpairs
  · rintro ⟨hg, ha, hcolumn, hrows, horder⟩
    have hkept := keptOrder_eq hg
    have hgroup := keptGroup_eq hg
    have hkeys : ∀ k ∈ q.order, k.Plain := by
      by_cases ho : q.order = []
      · rw [ho]
        exact fun k hk => absurd hk List.not_mem_nil
      · exact (horder ho).keys
    have hentries : ∀ labelled, (labelled = true → q.order ≠ []) →
        ∀ e ∈ q.entries labelled, e.WellFormed := fun labelled hl =>
      (entries_wellFormed_iff labelled hg).2 ⟨fun h => (horder (hl h)).items, hkeys⟩
    refine ⟨⟨⟨?_, ?_, ?_⟩, ?_, ?_, ?_⟩, ⟨?_, ?_⟩, ?_, ?_, (sameRows_iff hg ha).2 hrows, ?_⟩
    · refine hentries _ fun h => ?_
      rw [← hkept]
      exact of_decide_eq_true h
    · exact fun h => by cases h
    · exact fun a h => by cases h
    · exact hentries false fun h => by cases h
    · exact fun _ _ => hgroup
    · rintro _ ⟨⟩
      exact hcolumn
    · exact hgroup.trans hg.symm
    · exact hgroup.trans hg.symm
    · rw [lowered, hkept]
      split_ifs with ho
      · simp [ho]
      · simp [ho]
    · by_cases ho : q.order = []
      · have hk : q.keptOrder = [] := hkept.trans ho
        rw [JoinUnion.names, lowered, if_pos hk, Option.elim_none, firstArm, hk]
        exact names_entries
      · rw [JoinUnion.names, lowered, if_neg (by rw [hkept]; exact ho), ← (horder ho).names]
        rfl
    · by_cases ho : q.order = []
      · intro arranged _
        rw [le, ho]
        exact List.pairwise_of_forall fun _ _ => rfl
      · have hpairs := (horder ho).order
        rw [← firstArm_records hg ha, ← secondArm_records hg ha] at hpairs
        rw [lowered_le hg ho]
        exact (forall_arrangement_iff (order_hidden q.order)).2 hpairs

end Rows

end FullJoin

end DbSaci
