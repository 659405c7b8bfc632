import DbSaci.Translate.FetchTies

set_option relaxedAutoImplicit false
set_option autoImplicit false

/-!
# The rows of a query with `WITH TIES`

The pass ranks with `DENSE_RANK`, which counts the places in front of a row, where Oracle counts the
rows. Outside, the projection and the sort keys are read again, on the columns of the projection.

## Main definitions

* `Language` — what expressions refer to and what their values are.
* `OracleRows`, `MariadbRows` — what a query returns on Oracle, and what the text of the pass
  returns on MariaDB.
* `Agrees` — all that MariaDB returns is what Oracle returns.
* `Faithful` — the condition on the query and the rows.

## Main results

* `agrees_iff_faithful` — the two are the same.
* `faithful_iff_of_columns` — the condition for plain columns and keys that put `NULL` in its place.
* `ties_iff` — the text of the pass, and when it returns what it has to.
-/

namespace DbSaci.Translate.FetchTies

open Text OrderBy Sorting

/-- What expressions refer to, what their values are, and the names of columns. The numbers are
values, too. Both databases evaluate expressions in the same way. In MariaDB the sort keys of a
window see the aliases of the projection or do not. -/
structure Language (V : Type) where
  refs : List Char → List (List Char)
  value : List Char → (List Char → Option V) → Option V
  name : List Char → List Char
  number : ℕ → V
  le : V → V → Bool
  order : Order le
  windowSeesAliases : Bool

/-- What is selected from: the names expressions can refer to, the columns that `*` stands for, and
the rows, each with a value or `NULL` for each name. -/
structure Source (V : Type) where
  names : List (List Char)
  columns : List (List Char)
  rows : List (List Char → Option V)

/-- What a query returns: the names of its columns, and each row with the values that are selected
of it. -/
structure Returned (V : Type) where
  header : List (List Char)
  rows : List ((List Char → Option V) × List (Option V))

section Rows

variable {V : Type} (L : Language V) (q : TiesQuery) (src : Source V)

/-! ### The projection -/

namespace Item

/-- All columns are selected. -/
def IsStar (i : Item) : Prop := i.expr = ['*'] ∧ i.alias_ = none

instance (i : Item) : Decidable i.IsStar := by
  unfold IsStar
  infer_instance

/-- The name of the column. -/
def columnName (i : Item) : List Char := L.name (i.alias_.getD i.expr)

end Item

/-- The names of the columns that are selected, where `*` stands for some columns. -/
def header (stars : List (List Char)) : List (List Char) :=
  (q.item :: q.items).flatMap fun i => if i.IsStar then stars else [i.columnName L]

/-- The values that are selected of a row, where `*` stands for some values. -/
def outputs (stars : List (Option V)) (env : List Char → Option V) : List (Option V) :=
  (q.item :: q.items).flatMap fun i => if i.IsStar then stars else [L.value i.expr env]

/-- A name stands for what is selected under it as an alias, otherwise for the column. -/
def aliasEnv (env : List Char → Option V) (name : List Char) : Option V :=
  match (q.item :: q.items).find? fun i => i.alias_.isSome && i.columnName L == name with
  | some i => L.value i.expr env
  | none => env name

/-- The value of a sort key: the number of a column that is selected stands for its value. -/
def keyValue (selected : List (Option V)) (env : List Char → Option V) (e : List Char) :
    Option V :=
  if IsPosition e then (selected[Nat.ofDigitChars 10 e 0 - 1]?).join else L.value e env

/-! ### Oracle -/

/-- The names of the columns of the query. -/
def names : List (List Char) := header L q src.columns

/-- The values of the columns for a row. -/
def selected (row : List Char → Option V) : List (Option V) :=
  outputs L q (src.columns.map row) row

/-- The order of Oracle. -/
def rowLe : (List Char → Option V) → (List Char → Option V) → Bool :=
  comparing (fun row => keyValue L (selected L q src row) (aliasEnv L q row))
    (oracleLe L.le (q.term :: q.terms))

/-- Oracle returns the first rows with ties of a sorted arrangement. -/
def OracleRows (r : Returned V) : Prop :=
  r.header = names L q src ∧ ∃ all, Arrangement (rowLe L q src) src.rows all ∧
    r.rows = (withTies (rowLe L q src) q.count all).map fun row => (row, selected L q src row)

/-! ### MariaDB -/

/-- The name of the rank. -/
def tieName : List Char := L.name "__dbsaci_tie".toList

/-- The value of a sort key of the window: a number is a constant. -/
def windowValue (row : List Char → Option V) (e : List Char) : Option V :=
  if IsPosition e then none
  else L.value e (if L.windowSeesAliases then aliasEnv L q row else row)

/-- The order of the window. -/
def windowLe (ks : List Key) : (List Char → Option V) → (List Char → Option V) → Bool :=
  comparing (windowValue L q) (mariadbLe L.le ks)

/-- The columns of the query inside, for a row. -/
def derived (row : List Char → Option V) (name : List Char) : Option V :=
  (((names L q src).zip (selected L q src row)).lookup name).join

/-- The rank of a row, and its values outside. -/
def outer (ks : List Key) (row : List Char → Option V) : List (Option V) :=
  outputs L q (selected L q src row ++
    [some (L.number (placesBefore (windowLe L q ks) src.rows row + 1))]) (derived L q src row)

/-- The order outside. -/
def outerLe (ks : List Key) : (List Char → Option V) → (List Char → Option V) → Bool :=
  comparing (fun row => keyValue L (outer L q src ks row) (aliasEnv L q (derived L q src row)))
    (mariadbLe L.le ks)

/-- MariaDB accepts the text: the columns inside have different names, the sort keys are found
inside, and they and the projection are found outside. -/
structure Accepted (ks : List Key) : Prop where
  different : (names L q src ++ [tieName L]).Nodup
  window : ∀ k ∈ ks, ¬ IsPosition k.expr → ∀ r ∈ L.refs k.expr, r ∈ src.names ∨
    L.windowSeesAliases = true ∧ ∃ i ∈ q.item :: q.items, i.alias_.isSome ∧ i.columnName L = r
  keys : ∀ k ∈ ks, ¬ IsPosition k.expr → ∀ r ∈ L.refs k.expr, r ∈ names L q src
  items : ∀ i ∈ q.item :: q.items, ¬ i.IsStar → ∀ r ∈ L.refs i.expr, r ∈ names L q src

/-- What MariaDB returns for the text of the pass, with the rank up to a number. -/
def MariadbRows (order : List Char) (n : ℕ) (r : Returned V) : Prop :=
  ∃ ks, (splitTopLevelCommas order).mapM readKey = some ks ∧ Accepted L q src ks ∧
    r.header = header L q (names L q src ++ [tieName L]) ∧
    ∃ arranged, Arrangement (outerLe L q src ks)
      (src.rows.filter fun row => placesBefore (windowLe L q ks) src.rows row + 1 ≤ n) arranged ∧
      r.rows = arranged.map fun row => (row, outer L q src ks row)

/-- MariaDB accepts the text of the pass, and all that it returns is what Oracle returns. -/
def Agrees : Prop :=
  (∃ r, MariadbRows L q src (normalizeNullsOrdering q.order) q.countRead r) ∧
    ∀ r, MariadbRows L q src (normalizeNullsOrdering q.order) q.countRead r → OracleRows L q src r

/-- The sort keys that are read if all terms are as the pass expects them. -/
def allKeys : List Key :=
  (q.term :: q.terms).flatMap fun t => keys (t.place.map Place.first) t

/-- The condition on the query and the rows: the terms are as the pass expects them, MariaDB accepts
the text, `*` is not selected, a row has few enough places in front of it if and only if it has few
enough rows in front, and the rows that are returned have the same values outside and are sorted in
the same way. -/
structure Faithful : Prop where
  handled : ∀ t ∈ q.term :: q.terms, t.Handled
  accepted : Accepted L q src (allKeys q)
  noStar : ∀ i ∈ q.item :: q.items, ¬ i.IsStar
  count : ∀ row ∈ src.rows, placesBefore (windowLe L q (allKeys q)) src.rows row < q.countRead ↔
    before (rowLe L q src) src.rows row < q.count
  same : ∀ row ∈ src.rows, before (rowLe L q src) src.rows row < q.count →
    outer L q src (allKeys q) row = selected L q src row
  sorted : ∀ x y, List.Subperm [x, y] src.rows → before (rowLe L q src) src.rows x < q.count →
    before (rowLe L q src) src.rows y < q.count → outerLe L q src (allKeys q) x y = true →
    rowLe L q src x y = true

/-! ### The columns -/

variable {L q src}

/-- The names are the same outside if `*` is not selected: it would stand for the rank, too. -/
lemma header_eq_iff : header L q (names L q src ++ [tieName L]) = names L q src ↔
    ∀ i ∈ q.item :: q.items, ¬ i.IsStar := by
  constructor
  · intro heq i hi hstar
    have hlen : ∀ (stars : List (List Char)), stars.length ≤ (header L q stars).length := by
      intro stars
      have hsub : stars.Sublist (header L q stars) := by
        obtain ⟨a, b, hab⟩ := List.append_of_mem hi
        rw [header, hab, List.flatMap_append, List.flatMap_cons, if_pos hstar]
        exact (List.sublist_append_left _ _).trans (List.sublist_append_right _ _)
      exact hsub.length_le
    have := hlen (names L q src ++ [tieName L])
    rw [heq, List.length_append, List.length_singleton] at this
    omega
  · intro hno
    rw [names, header, header]
    apply List.flatMap_congr
    intro i hi
    rw [if_neg (hno i hi), if_neg (hno i hi)]

/-! ### The rows -/

lemma map_pair_eq_iff {ρ τ : Type} {f g : ρ → τ} {l l' : List ρ} :
    (l.map fun x => (x, f x)) = l'.map (fun x => (x, g x)) ↔ l = l' ∧ ∀ x ∈ l, f x = g x := by
  constructor
  · intro h
    have hfst := congrArg (List.map Prod.fst) h
    rw [List.map_map, List.map_map] at hfst
    have hid : ∀ (u : ρ → τ) (m : List ρ), m.map (Prod.fst ∘ fun x => (x, u x)) = m :=
      fun u m => List.map_id m
    rw [hid, hid] at hfst
    subst hfst
    exact ⟨rfl, fun x hx => (Prod.mk.inj (List.map_inj_left.1 h x hx)).2⟩
  · rintro ⟨rfl, h⟩
    exact List.map_congr_left fun x hx => by rw [h x hx]

lemma subperm_filter_iff {ρ : Type} {p : ρ → Bool} {x y : ρ} {l : List ρ} :
    List.Subperm [x, y] (l.filter p) ↔ List.Subperm [x, y] l ∧ p x = true ∧ p y = true := by
  constructor
  · intro h
    have hmem : ∀ z ∈ [x, y], p z = true := fun z hz => (List.mem_filter.1 (h.subset hz)).2
    exact ⟨h.trans List.filter_sublist.subperm, hmem x (by simp), hmem y (by simp)⟩
  · rintro ⟨h, hx, hy⟩
    have hfilter := h.filter p
    rwa [List.filter_cons_of_pos hx, List.filter_cons_of_pos hy, List.filter_nil] at hfilter

lemma order_mariadbLe {V : Type} {le : V → V → Bool} (h : Order le) (test : Term → Option Bool)
    (ts : List Term) : Order (mariadbLe le (ts.flatMap fun t => keys (test t) t)) := by
  rw [mariadbLe_flatMap]
  exact order_orderLe h _

lemma order_oracleLe {V : Type} {le : V → V → Bool} (h : Order le) (ts : List Term) :
    Order (oracleLe le ts) := by
  apply order_lexLe
  intro c hc
  obtain ⟨t, -, rfl⟩ := List.mem_map.1 hc
  have hplaced := order_placed h t.desc t.nullsFirst
  exact ⟨fun x y => hplaced.total (x t.expr) (y t.expr),
    fun x y z => hplaced.trans (x t.expr) (y t.expr) (z t.expr)⟩

/-- **MariaDB returns what Oracle returns** exactly under the condition. -/
theorem agrees_iff_faithful : Agrees L q src ↔ Faithful L q src := by
  obtain ⟨hgood, hbad⟩ := (lowered_normalize q.term q.terms).mapM_readKey (g := []) (Or.inl rfl)
  rw [List.nil_append] at hgood hbad
  by_cases hhandled : ∀ t ∈ q.term :: q.terms, t.Handled
  swap
  · -- a term is not read
    refine iff_of_false ?_ fun h => hhandled h.handled
    rintro ⟨⟨r, ks, hks, -⟩, -⟩
    have hnone := hbad hhandled
    rw [TiesQuery.order, hnone] at hks
    cases hks
  by_cases haccepted : Accepted L q src (allKeys q)
  swap
  · refine iff_of_false ?_ fun h => haccepted h.accepted
    rintro ⟨⟨r, ks, hks, hacc, -⟩, -⟩
    obtain rfl := Option.some.inj ((hgood hhandled).symm.trans hks)
    exact haccepted hacc
  have hO : Order (rowLe L q src) := (order_oracleLe L.order _).comparing _
  have hM : Order (outerLe L q src (allKeys q)) := (order_mariadbLe L.order _ _).comparing _
  have hties := forall_arrangement_withTies_iff hO hM src.rows
    (fun row => placesBefore (windowLe L q (allKeys q)) src.rows row + 1 ≤ q.countRead) q.count
  have hread : ∀ r, MariadbRows L q src (normalizeNullsOrdering q.order) q.countRead r ↔
      r.header = header L q (names L q src ++ [tieName L]) ∧
      ∃ arranged, Arrangement (outerLe L q src (allKeys q))
        (src.rows.filter fun row =>
          placesBefore (windowLe L q (allKeys q)) src.rows row + 1 ≤ q.countRead) arranged ∧
        r.rows = arranged.map fun row => (row, outer L q src (allKeys q) row) := by
    intro r
    constructor
    · rintro ⟨ks, hks, -, hr⟩
      obtain rfl := Option.some.inj ((hgood hhandled).symm.trans hks)
      exact hr
    · exact fun hr => ⟨allKeys q, hgood hhandled, haccepted, hr⟩
  constructor
  · rintro ⟨⟨r, hr⟩, hall⟩
    have hheader : header L q (names L q src ++ [tieName L]) = names L q src := by
      rw [← ((hread r).1 hr).1]
      exact (hall r hr).1
    have hrows : ∀ arranged, Arrangement (outerLe L q src (allKeys q))
        (src.rows.filter fun row =>
          placesBefore (windowLe L q (allKeys q)) src.rows row + 1 ≤ q.countRead) arranged →
        ∃ all, Arrangement (rowLe L q src) src.rows all ∧
          arranged = withTies (rowLe L q src) q.count all ∧
          ∀ row ∈ arranged, outer L q src (allKeys q) row = selected L q src row := by
      intro arranged harr
      obtain ⟨-, all, hallarr, heq⟩ := hall ⟨_, _⟩ ((hread ⟨_, _⟩).2 ⟨rfl, arranged, harr, rfl⟩)
      exact ⟨all, hallarr, map_pair_eq_iff.1 heq⟩
    obtain ⟨hcount, hsorted⟩ := hties.1 fun arranged harr =>
      let ⟨all, hallarr, heq, _⟩ := hrows arranged harr
      ⟨all, hallarr, heq.symm⟩
    refine ⟨hhandled, haccepted, header_eq_iff.1 hheader, fun row hrow => ?_,
      fun row hrow hlt => ?_, fun x y hxy hx hy hle => ?_⟩
    · rw [← hcount row hrow, decide_eq_true_eq, Nat.succ_le_iff]
    · obtain ⟨all, -, -, hsame⟩ := hrows _ (arrangement_mergeSort hM _)
      apply hsame
      rw [List.mem_mergeSort, List.mem_filter]
      exact ⟨hrow, (hcount row hrow).2 hlt⟩
    · apply hsorted x y _ hle
      rw [subperm_filter_iff, hcount x (hxy.subset (by simp)), hcount y (hxy.subset (by simp))]
      exact ⟨hxy, hx, hy⟩
  · intro h
    have hcount : ∀ row ∈ src.rows,
        (decide (placesBefore (windowLe L q (allKeys q)) src.rows row + 1 ≤ q.countRead)) = true ↔
          before (rowLe L q src) src.rows row < q.count := by
      intro row hrow
      rw [← h.count row hrow, decide_eq_true_eq, Nat.succ_le_iff]
    have harranged := hties.2 ⟨hcount, fun x y hxy hle => by
      rw [subperm_filter_iff] at hxy
      obtain ⟨hxy, hx, hy⟩ := hxy
      exact h.sorted x y hxy ((hcount x (hxy.subset (by simp))).1 hx)
        ((hcount y (hxy.subset (by simp))).1 hy) hle⟩
    refine ⟨⟨⟨_, _⟩, (hread ⟨_, _⟩).2 ⟨rfl, _, arrangement_mergeSort hM _, rfl⟩⟩, ?_⟩
    rintro r hr
    obtain ⟨hheader, arranged, harr, hr⟩ := (hread r).1 hr
    obtain ⟨all, hallarr, heq⟩ := harranged arranged harr
    refine ⟨hheader.trans (header_eq_iff.2 h.noStar), all, hallarr, ?_⟩
    rw [hr, map_pair_eq_iff]
    refine ⟨heq.symm, fun row hrow => ?_⟩
    obtain ⟨hmem, hp⟩ := List.mem_filter.1 (harr.1.mem_iff.1 hrow)
    exact h.same row hmem ((hcount row hmem).1 hp)

/-! ### Plain columns -/

variable (L q src) in
/-- Different columns without aliases are selected, and the terms are some of them, with `NULL` in
the place that it has in Oracle. -/
structure Columns : Prop where
  items : ∀ i ∈ q.item :: q.items, i.alias_ = none ∧ i.expr ≠ ['*'] ∧
    L.refs i.expr = [L.name i.expr] ∧ L.name i.expr ∈ src.names ∧
    ∀ env, L.value i.expr env = env (L.name i.expr)
  different : (names L q src ++ [tieName L]).Nodup
  terms : ∀ t ∈ q.term :: q.terms, t.Handled ∧ ¬ IsPosition t.expr ∧
    ∃ i ∈ q.item :: q.items, i.expr = t.expr
  places : SamePlaces [] ((q.term :: q.terms).map fun t => twin (t.place.map Place.first) t)
  count : q.count < 2 ^ 64

namespace Columns

variable (h : Columns L q src)

include h in
lemma not_isStar {i : Item} (hi : i ∈ q.item :: q.items) : ¬ i.IsStar :=
  fun hstar => (h.items i hi).2.1 hstar.1

include h in
lemma aliasEnv_eq (env : List Char → Option V) : aliasEnv L q env = env := by
  funext name
  have hnone : ((q.item :: q.items).find? fun i =>
      i.alias_.isSome && i.columnName L == name) = none := by
    rw [List.find?_eq_none]
    intro i hi
    rw [(h.items i hi).1]
    simp
  rw [aliasEnv, hnone]

include h in
lemma names_eq : names L q src = (q.item :: q.items).map fun i => L.name i.expr := by
  rw [names, header, List.map_eq_flatMap]
  apply List.flatMap_congr
  intro i hi
  rw [if_neg (h.not_isStar hi), Item.columnName, (h.items i hi).1, Option.getD_none]

include h in
lemma outputs_eq (stars : List (Option V)) (env : List Char → Option V) :
    outputs L q stars env = (q.item :: q.items).map fun i => env (L.name i.expr) := by
  rw [outputs, List.map_eq_flatMap]
  apply List.flatMap_congr
  intro i hi
  rw [if_neg (h.not_isStar hi), (h.items i hi).2.2.2.2 env]

lemma lookup_zip_map {ι : Type} {f : ι → List Char} {g : List Char → Option V} {l : List ι}
    {i : ι} (hi : i ∈ l) :
    ((l.map f).zip (l.map fun j => g (f j))).lookup (f i) = some (g (f i)) := by
  induction l with
  | nil => cases hi
  | cons j l ih =>
    rw [List.map_cons, List.map_cons, List.zip_cons_cons, List.lookup_cons]
    by_cases heq : f i = f j
    · rw [heq]
      simp
    · have hne : (f i == f j) = false := beq_false_of_ne heq
      rw [hne]
      apply ih
      rcases List.mem_cons.1 hi with rfl | hi
      · exact absurd rfl heq
      · exact hi

include h in
/-- The columns of the query inside are those of the table. -/
lemma derived_eq (row : List Char → Option V) {i : Item} (hi : i ∈ q.item :: q.items) :
    derived L q src row (L.name i.expr) = row (L.name i.expr) := by
  rw [derived, h.names_eq, selected, h.outputs_eq,
    lookup_zip_map (f := fun i => L.name i.expr) (g := row) hi]
  rfl

include h in
lemma outer_eq (ks : List Key) (row : List Char → Option V) :
    outer L q src ks row = selected L q src row := by
  rw [outer, selected, h.outputs_eq, h.outputs_eq]
  exact List.map_congr_left fun i hi => h.derived_eq row hi

include h in
/-- The sort keys have the same values everywhere. -/
lemma value_eq {t : Term} (ht : t ∈ q.term :: q.terms) (ks : List Key)
    (row : List Char → Option V) :
    windowValue L q row t.expr = L.value t.expr row ∧
    keyValue L (selected L q src row) (aliasEnv L q row) t.expr = L.value t.expr row ∧
    keyValue L (outer L q src ks row) (aliasEnv L q (derived L q src row)) t.expr =
      L.value t.expr row := by
  obtain ⟨-, hpos, i, hi, heq⟩ := h.terms t ht
  have hvalue := (h.items i hi).2.2.2.2
  rw [← heq] at hpos ⊢
  rw [windowValue, keyValue, keyValue, if_neg hpos, if_neg hpos, if_neg hpos, h.aliasEnv_eq,
    h.aliasEnv_eq, ite_self, hvalue, hvalue, h.derived_eq row hi]
  exact ⟨rfl, rfl, rfl⟩

lemma oracleLe_congr {ts : List Term} {le : V → V → Bool} {x x' y y' : List Char → Option V}
    (hx : ∀ t ∈ ts, x t.expr = x' t.expr) (hy : ∀ t ∈ ts, y t.expr = y' t.expr) :
    oracleLe le ts x y = oracleLe le ts x' y' := by
  induction ts with
  | nil => rfl
  | cons t ts ih =>
    have ih := ih (fun u hu => hx u (List.mem_cons_of_mem t hu))
      fun u hu => hy u (List.mem_cons_of_mem t hu)
    rw [oracleLe] at ih ⊢
    rw [List.map_cons, lexLe, lexLe, ih, Term.le, Term.le, Term.le, Term.le,
      hx t List.mem_cons_self, hy t List.mem_cons_self]

include h in
/-- The order is the same everywhere. -/
lemma le_eq : windowLe L q (allKeys q) = rowLe L q src ∧
    outerLe L q src (allKeys q) = rowLe L q src := by
  have hsame : ∀ x y, mariadbLe L.le (allKeys q) x y = oracleLe L.le (q.term :: q.terms) x y := by
    intro x y
    rw [allKeys, mariadbLe_flatMap, oracleLe_eq L.le fun t => t.place.map Place.first]
    exact orderLe_eq_of_samePlaces h.places fun k hk => absurd hk List.not_mem_nil
  constructor
  · funext x y
    rw [windowLe, rowLe, comparing, comparing, hsame]
    apply oracleLe_congr
    · intro t ht
      obtain ⟨hw, hk, -⟩ := h.value_eq ht [] x
      rw [hw, hk]
    · intro t ht
      obtain ⟨hw, hk, -⟩ := h.value_eq ht [] y
      rw [hw, hk]
  · funext x y
    rw [outerLe, rowLe, comparing, comparing, hsame]
    apply oracleLe_congr
    · intro t ht
      obtain ⟨-, hk, ho⟩ := h.value_eq ht (allKeys q) x
      rw [hk, ho]
    · intro t ht
      obtain ⟨-, hk, ho⟩ := h.value_eq ht (allKeys q) y
      rw [hk, ho]

end Columns

/-- **For plain columns and keys that put `NULL` in its place** all that counts is how many rows
stand in front of those that have few enough places in front. -/
theorem faithful_iff_of_columns (h : Columns L q src) : Faithful L q src ↔
    ∀ row ∈ src.rows, placesBefore (rowLe L q src) src.rows row < q.count →
      before (rowLe L q src) src.rows row < q.count := by
  obtain ⟨hwindow, houter⟩ := h.le_eq
  have hcount : q.countRead = q.count := if_pos h.count
  constructor
  · intro hf row hrow hlt
    apply (hf.count row hrow).1
    rwa [hwindow, hcount]
  · intro hfew
    have hkeys : ∀ k ∈ allKeys q, ∃ i ∈ q.item :: q.items, i.expr = k.expr := by
      intro k hk
      obtain ⟨t, ht, hk⟩ := List.mem_flatMap.1 hk
      obtain ⟨-, -, i, hi, heq⟩ := h.terms t ht
      refine ⟨i, hi, heq.trans ?_⟩
      cases hp : t.place with
      | none =>
        rw [hp] at hk
        rw [List.mem_singleton.1 hk]
      | some p =>
        rw [hp] at hk
        have hk : k = ⟨t.expr, some p.first, false⟩ ∨ k = ⟨t.expr, none, t.desc⟩ := by
          simpa [keys] using hk
        rcases hk with rfl | rfl
        · rfl
        · rfl
    have hnames : ∀ i ∈ q.item :: q.items, L.name i.expr ∈ names L q src := by
      intro i hi
      rw [h.names_eq]
      exact List.mem_map_of_mem hi
    have hrefs : ∀ i ∈ q.item :: q.items, ∀ r ∈ L.refs i.expr, r = L.name i.expr := by
      intro i hi r hr
      rw [(h.items i hi).2.2.1] at hr
      exact List.mem_singleton.1 hr
    refine ⟨fun t ht => (h.terms t ht).1, ⟨h.different, ?_, ?_, ?_⟩, fun i hi => h.not_isStar hi,
      ?_, fun row _ _ => h.outer_eq _ row, ?_⟩
    · intro k hk _ r hr
      obtain ⟨i, hi, heq⟩ := hkeys k hk
      rw [← heq] at hr
      rw [hrefs i hi r hr]
      exact Or.inl (h.items i hi).2.2.2.1
    · intro k hk _ r hr
      obtain ⟨i, hi, heq⟩ := hkeys k hk
      rw [← heq] at hr
      rw [hrefs i hi r hr]
      exact hnames i hi
    · intro i hi _ r hr
      rw [hrefs i hi r hr]
      exact hnames i hi
    · intro row hrow
      rw [hwindow, hcount]
      exact ⟨hfew row hrow, (placesBefore_le_before _ _ _).trans_lt⟩
    · intro x y _ _ _ hle
      rwa [← houter]

/-- **The text of the pass**, and when it returns what the query returns on Oracle. -/
theorem ties_iff (hq : q.Readable) (L : Language V) (src : Source V) :
    rewriteMariadbFetchWithTies q.text =
      nestedText q.projection (normalizeNullsOrdering q.order) q.countRead
        ("FROM".toList ++ ' ' :: q.source) ∧
    (Agrees L q src ↔ Faithful L q src) :=
  ⟨TiesQuery.rewrite_text hq, agrees_iff_faithful⟩

end Rows

/-! ### Three scores -/

lemma isExpr_score : IsExpr "score".toList := by decide

lemma upper_placeWord : ∀ first, upper (placeWord first) = placeWord first := by decide

lemma upper_nulls : upper "NULLS".toList = "NULLS".toList := by decide

/-- `SELECT score FROM game ORDER BY score DESC NULLS LAST FETCH FIRST n ROWS WITH TIES`. -/
def scores (n : ℕ) : TiesQuery where
  item := ⟨"score".toList, none⟩
  items := []
  source := "game".toList
  term :=
    { before := []
      expr := "score".toList
      direction := some ⟨true, blankWord _ (upper_directionWord true)⟩
      place := some ⟨false, blankWord _ upper_nulls, blankWord _ (upper_placeWord false)⟩
      after := []
      isGapBefore := gap_nil
      isExpr := isExpr_score
      isGapAfter := gap_nil }
  terms := []
  count := n

lemma scores_readable (n : ℕ) : (scores n).Readable where
  projection := by
    show Trimmed "score".toList ∧ ∀ kw ∈ ["FROM".toList, "ORDER".toList, "FETCH".toList],
      Clear kw "score".toList
    decide
  source := by
    show Trimmed "game".toList ∧ ∀ kw ∈ ["ORDER".toList, "FETCH".toList], Clear kw "game".toList
    decide
  order := by
    show Clear "FETCH".toList (scores 0).order
    decide +kernel

/-- Columns with numbers. -/
def numbers : Language ℕ where
  refs := fun e => [e]
  value := fun e env => env e
  name := id
  number := id
  le := fun a b => decide (a ≤ b)
  order := ⟨fun a b => by simpa using Nat.le_total a b,
    fun a b c hab hbc => by
      simp only [decide_eq_true_eq] at hab hbc ⊢
      exact hab.trans hbc⟩
  windowSeesAliases := false

/-- A table with some scores. -/
def game (xs : List ℕ) : Source ℕ where
  names := ["score".toList]
  columns := ["score".toList]
  rows := xs.map fun x _ => some x

lemma scores_columns (n : ℕ) (hn : n < 2 ^ 64) (xs : List ℕ) :
    Columns numbers (scores n) (game xs) where
  items := by
    intro i hi
    rw [List.mem_singleton.1 hi]
    have hexpr : "score".toList ≠ ['*'] := by decide
    exact ⟨rfl, hexpr, rfl, List.mem_cons_self, fun _ => rfl⟩
  different := by
    show ["score".toList, "__dbsaci_tie".toList].Nodup
    decide
  terms := by
    intro t ht
    rw [List.mem_singleton.1 ht]
    refine ⟨?_, by show ¬ IsPosition "score".toList; decide, _, List.mem_cons_self, rfl⟩
    rintro p hp
    obtain rfl := Option.some.inj hp
    refine ⟨⟨rfl, rfl, rfl⟩, ?_⟩
    rintro d hd
    obtain rfl := Option.some.inj hd
    exact ⟨rfl, Or.inl rfl⟩
  places := ⟨fun _ => by
    show placeWith (some false) (scores 0).term = (scores 0).term.nullsFirst
    decide, trivial⟩
  count := hn

theorem first_score_agrees : Agrees numbers (scores 1) (game [10, 10, 9]) := by
  apply (ties_iff (scores_readable 1) numbers (game [10, 10, 9])).2.2
  rw [faithful_iff_of_columns (scores_columns 1 (by decide) _)]
  intro row hrow
  obtain ⟨x, hx, rfl⟩ := List.mem_map.1 hrow
  have hx : x = 10 ∨ x = 9 := by simpa using hx
  rcases hx with rfl | rfl
  · decide +kernel
  · decide +kernel

/-- **The first two of three scores** with a tie at the first place: the third one has one place in
front of it, but two rows. -/
theorem two_scores_not_agree :
    (scores 2).Readable ∧ ¬ Agrees numbers (scores 2) (game [10, 10, 9]) := by
  refine ⟨scores_readable 2, ?_⟩
  rw [agrees_iff_faithful, faithful_iff_of_columns (scores_columns 2 (by decide) _)]
  intro h
  have hrow : (fun _ => some 9) ∈ (game [10, 10, 9]).rows := List.mem_map_of_mem (by simp)
  have hfew := h _ hrow (by decide +kernel)
  revert hfew
  decide +kernel

end DbSaci.Translate.FetchTies
