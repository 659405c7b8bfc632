import DbSaci.Translate.FullOuterJoinText

set_option relaxedAutoImplicit false
set_option autoImplicit false

/-!
# The rounds of the pass for a full join

The text the pass puts for a query is that of the union, and the pass finds nothing to rewrite in
it.

## Main results

* `FullJoin.union_text` — the text of the union.
* `FullJoin.round_text` — one round on the text of a query.
* `FullJoin.round_lowered` — there is no second rewriting.
-/

namespace DbSaci

open Text Translate

namespace FullJoin

variable {q : FullJoin}

/-! ### The text of the union -/

lemma map_mapIdx_text {ι : Type} (f : ℕ → ι → Entry) (g : ℕ → ι → List Char)
    (h : ∀ i x, (f i x).text = g i x) (xs : List ι) : (xs.mapIdx f).map Entry.text = xs.mapIdx g := by
  induction xs generalizing f g with
  | nil => rfl
  | cons x xs ih =>
    rw [List.mapIdx_cons, List.mapIdx_cons, List.map_cons, h,
      ih (fun i => f (i + 1)) (fun i => g (i + 1)) fun i => h (i + 1)]

lemma mapIdx_const {ι κ : Type} (f : ι → κ) (xs : List ι) : xs.mapIdx (fun _ x => f x) = xs.map f := by
  induction xs with
  | nil => rfl
  | cons x xs ih => rw [List.mapIdx_cons, List.map_cons, ih]

lemma mapIdx_map {ι κ τ : Type} (f : ι → κ) (g : ℕ → κ → τ) (xs : List ι) :
    (xs.map f).mapIdx g = xs.mapIdx fun i x => g i (f x) := by
  induction xs generalizing g with
  | nil => rfl
  | cons x xs ih => rw [List.map_cons, List.mapIdx_cons, List.mapIdx_cons, ih]

/-- The texts of what is selected without labels. -/
lemma entries_text (q : FullJoin) : (q.entries false).map Entry.text =
    q.items.map SelectedItem.text ++ q.keptOrder.map SortKey.text := by
  rw [entries, List.map_append,
    map_mapIdx_text (itemEntry false) (fun _ x => x.text) fun i x => List.append_nil _,
    map_mapIdx_text (keyEntry false) (fun _ k => k.text) fun i k => List.append_nil _,
    mapIdx_const, mapIdx_const]

/-- The texts of what is selected with labels. -/
lemma entries_labelled_text (q : FullJoin) : (q.entries true).map Entry.text =
    (q.items.map SelectedItem.text).mapIdx (fun i x => x ++ (" AS ".toList ++ columnLabel i)) ++
      (q.keptOrder.map SortKey.text).mapIdx fun i x => x ++ (" AS ".toList ++ orderLabel i) := by
  rw [entries, List.map_append,
    map_mapIdx_text (itemEntry true) (fun i x => x.text ++ (" AS ".toList ++ columnLabel i))
      fun _ _ => rfl,
    map_mapIdx_text (keyEntry true) (fun i k => k.text ++ (" AS ".toList ++ orderLabel i))
      fun _ _ => rfl, mapIdx_map, mapIdx_map]

/-- Without sort keys the items are selected as they are. -/
lemma entries_unsorted (ho : q.keptOrder = []) {labelled : Bool}
    (hl : labelled = decide (q.keptOrder ≠ []) ∨ labelled = false) :
    commas ((q.entries labelled).map Entry.text) = commas (q.items.map SelectedItem.text) := by
  have hfalse : labelled = false := by
    rcases hl with rfl | rfl
    · exact decide_eq_false (not_not_intro ho)
    · rfl
  rw [hfalse, entries_text, ho, List.map_nil, List.append_nil]

/-- The conditions of the first arm. -/
lemma firstArm_filterText (q : FullJoin) : q.firstArm.filterText =
    if q.where_ = none then [] else " WHERE ".toList ++ q.conditionText := by
  cases hw : q.where_ with
  | none =>
    rw [Arm.filterText, show q.firstArm.anti = none from rfl,
      show q.firstArm.condition = none from hw]
    rfl
  | some w =>
    have hgroup : q.firstArm.group = q.group := by
      rw [show q.firstArm.group = q.keptGroup from rfl, keptGroup, hw, if_neg (by simp)]
    rw [Arm.filterText, show q.firstArm.anti = none from rfl,
      show q.firstArm.condition = some w from hw, conditionText, hw, if_neg (by simp)]
    simp only [Option.elim_some, Arm.conditionText, hgroup]

/-- The conditions of the second arm. -/
lemma secondArm_filterText (q : FullJoin) (key : List Char) : (q.secondArm key).filterText =
    " WHERE ".toList ++ (key ++ (" IS NULL".toList ++
      if q.where_ = none then [] else " AND (".toList ++ (q.conditionText ++ [')']))) := by
  cases hw : q.where_ with
  | none =>
    rw [Arm.filterText, show (q.secondArm key).anti = some key from rfl,
      show (q.secondArm key).condition = none from hw]
    rfl
  | some w =>
    have hgroup : (q.secondArm key).group = q.group := by
      rw [show (q.secondArm key).group = q.keptGroup from rfl, keptGroup, hw, if_neg (by simp)]
    rw [Arm.filterText, show (q.secondArm key).anti = some key from rfl,
      show (q.secondArm key).condition = some w from hw, conditionText, hw, if_neg (by simp)]
    simp only [Option.elim_some, Arm.conditionText, hgroup]

lemma conditionText_eq_nil (h : q.Readable) : q.conditionText = [] ↔ q.where_ = none := by
  constructor
  · intro hnil
    cases hw : q.where_ with
    | none => rfl
    | some w =>
      obtain ⟨⟨hne, -⟩, -⟩ := conditionText_clear h hw
        (show "FULL".toList ∈ ["ORDER".toList, "FULL".toList] by simp)
      exact absurd hnil hne
  · intro hw
    rw [conditionText, hw]
    rfl

lemma keptOrder_subset (q : FullJoin) : q.keptOrder ⊆ q.order := by
  rw [keptOrder]
  split_ifs
  · exact List.nil_subset _
  · exact List.Subset.refl _

lemma orderText_eq_nil (h : q.Readable) : q.orderText = [] ↔ q.keptOrder = [] := by
  rw [orderText]
  constructor
  · intro hnil
    by_contra hne
    have htrim : Trimmed (commas (q.keptOrder.map SortKey.text)) :=
      commas_trimmed (by simpa using hne) fun x hx =>
        (h.keys x (List.map_subset _ q.keptOrder_subset hx)).trimmed
    obtain ⟨hne', -⟩ := htrim
    exact hne' hnil
  · intro hnil
    rw [hnil]
    rfl

/-- The parts of the select list. -/
lemma select_parts (h : q.Readable) :
    commas ((splitTopLevelCommas q.selectText).mapIdx fun i c =>
        trim c ++ (" AS ".toList ++ numbered "__dbsaci_foj_c".toList i)) =
      q.distinctWord ++ commas ((q.items.map SelectedItem.text).mapIdx fun i x =>
        x ++ (" AS ".toList ++ columnLabel i)) ∧
    (splitTopLevelCommas q.selectText).length = q.items.length := by
  have hd : ∀ c ∈ q.distinctWord, c ≠ '\'' ∧ c ≠ '"' ∧ c ≠ '(' ∧ c ≠ ')' ∧ c ≠ ',' := by
    rw [distinctWord]
    cases q.distinct <;> decide
  obtain ⟨x, xs, hxs⟩ := List.exists_cons_of_ne_nil q.items_ne
  have hlisted : ∀ y ∈ x :: xs, Listed y := by
    rw [← hxs]
    exact h.items
  have hsplit : splitTopLevelCommas q.selectText =
      (q.distinctWord ++ x) :: xs.map fun y => ' ' :: y := by
    have hselect : q.selectText = q.distinctWord ++ commas (x :: xs) := by rw [← hxs]; rfl
    rw [hselect]
    exact splitTopLevelCommas_commas hd hlisted
  have hfirst : trim (q.distinctWord ++ x) = q.distinctWord ++ x := by
    have hx := (hlisted x List.mem_cons_self).trimmed
    apply trim_of_trimmed
    rw [distinctWord]
    cases q.distinct with
    | false => exact hx
    | true => exact trimmed_cons (c := 'D') rfl "ISTINCT ".toList hx
  have hrest : ∀ y ∈ xs, trim (' ' :: y) = y := by
    intro y hy
    have hnil : Gap [] := fun _ h => absurd h List.not_mem_nil
    have htrim := trim_gaps (g := [' ']) (by decide) hnil
      (hlisted y (List.mem_cons_of_mem x hy)).trimmed
    rw [List.append_nil] at htrim
    exact htrim
  constructor
  · rw [hsplit, hxs, List.mapIdx_cons, List.mapIdx_cons, hfirst, mapIdx_map, append_commas,
      List.append_assoc]
    refine congrArg commas (congrArg _ ?_)
    refine List.ext_getElem (by simp) fun i hi hi' => ?_
    simp only [List.getElem_mapIdx]
    rw [hrest _ (List.getElem_mem _)]
    rfl
  · rw [hsplit, List.length_cons, List.length_map, ← List.length_cons (a := x), ← hxs,
      List.length_map]

/-- The parts of the sort keys. -/
lemma order_parts (h : q.Readable) (ho : q.keptOrder ≠ []) :
    ((splitTopLevelCommas q.orderText).map trim).filter (fun c => c ≠ []) =
      q.keptOrder.map SortKey.text := by
  obtain ⟨x, xs, hxs⟩ := List.exists_cons_of_ne_nil (l := q.keptOrder.map SortKey.text)
    (by simpa using ho)
  have hlisted : ∀ y ∈ x :: xs, Listed y := by
    rw [← hxs]
    exact fun y hy => h.keys y (List.map_subset _ q.keptOrder_subset hy)
  have hsplit : splitTopLevelCommas q.orderText = x :: xs.map fun y => ' ' :: y := by
    rw [orderText, hxs]
    exact splitTopLevelCommas_commas (d := []) (by simp) hlisted
  have htrim : (splitTopLevelCommas q.orderText).map trim = x :: xs := by
    rw [hsplit, List.map_cons, List.map_map,
      trim_of_trimmed (hlisted x List.mem_cons_self).trimmed]
    refine congrArg _ ?_
    rw [List.map_congr_left (g := id), List.map_id]
    intro y hy
    have hnil : Gap [] := fun _ h => absurd h List.not_mem_nil
    have htrim := trim_gaps (g := [' ']) (by decide) hnil
      (hlisted y (List.mem_cons_of_mem x hy)).trimmed
    rw [List.append_nil] at htrim
    exact htrim
  rw [htrim, hxs, List.filter_eq_self]
  intro y hy
  obtain ⟨hne, -⟩ := (hlisted y hy).trimmed
  exact decide_eq_true hne

/-- The text of the first arm. -/
lemma firstArm_text (q : FullJoin) (selected : List Char)
    (h : commas (q.firstArm.entries.map Entry.text) = selected) :
    q.firstArm.text = "SELECT ".toList ++ (q.distinctWord ++ (selected ++ (" FROM ".toList ++
      (q.left ++ (" LEFT JOIN ".toList ++ (q.right ++ (" ON ".toList ++ (q.on ++
        if q.where_ = none then [] else " WHERE ".toList ++ q.conditionText)))))))) := by
  rw [← firstArm_filterText, ← h]
  rfl

/-- The text of the second arm. -/
lemma secondArm_text (q : FullJoin) (key selected : List Char)
    (h : commas ((q.secondArm key).entries.map Entry.text) = selected) :
    (q.secondArm key).text = "SELECT ".toList ++ (q.distinctWord ++ (selected ++ (" FROM ".toList ++
      (q.left ++ (" RIGHT JOIN ".toList ++ (q.right ++ (" ON ".toList ++ (q.on ++
        (" WHERE ".toList ++ (key ++ (" IS NULL".toList ++ if q.where_ = none then [] else
          " AND (".toList ++ (q.conditionText ++ [')'])))))))))))) := by
  rw [← secondArm_filterText, ← h]
  rfl

/-- **The text of the union.** -/
theorem union_text (h : q.Readable) (key : List Char) :
    fullOuterUnion q.selectText q.left q.right q.on key q.conditionText q.orderText =
      (q.lowered key).text := by
  have hsel : q.selectText = q.distinctWord ++ commas (q.items.map SelectedItem.text) := rfl
  by_cases ho : q.keptOrder = []
  · have hsort : (q.lowered key).sort = none := if_pos ho
    rw [JoinUnion.text, hsort, Option.elim_none, JoinUnion.armsText,
      show (q.lowered key).first = q.firstArm from rfl,
      show (q.lowered key).second = q.secondArm key from rfl,
      firstArm_text q _ (entries_unsorted ho (.inl rfl)),
      secondArm_text q key _ (entries_unsorted ho (.inr rfl)),
      fullOuterUnion]
    simp only [conditionText_eq_nil h, orderText_eq_nil h, ho, if_true, hsel, List.append_assoc]
  · have hfirst : commas (q.firstArm.entries.map Entry.text) =
        commas ((q.items.map SelectedItem.text).mapIdx fun i x =>
          x ++ (" AS ".toList ++ columnLabel i)) ++ (", ".toList ++
        commas ((q.keptOrder.map SortKey.text).mapIdx fun i x =>
          x ++ (" AS ".toList ++ orderLabel i))) := by
      have hlabelled : q.firstArm.entries = q.entries true :=
        congrArg q.entries (decide_eq_true ho)
      rw [hlabelled, entries_labelled_text, commas_append]
      · simpa using q.nonempty
      · simpa using ho
    have hsecond : commas ((q.secondArm key).entries.map Entry.text) =
        commas (q.items.map SelectedItem.text) ++ (", ".toList ++
          commas (q.keptOrder.map SortKey.text)) := by
      rw [show (q.secondArm key).entries = q.entries false from rfl, entries_text, commas_append]
      · exact q.items_ne
      · simpa using ho
    have hsort : (q.lowered key).sort = some ((List.range q.items.length).map columnLabel,
        (List.range q.keptOrder.length).map orderLabel) := if_neg ho
    obtain ⟨hlabels, hlength⟩ := select_parts h
    rw [hsel] at hlabels hlength
    rw [JoinUnion.text, hsort, Option.elim_some, JoinUnion.armsText,
      show (q.lowered key).first = q.firstArm from rfl,
      show (q.lowered key).second = q.secondArm key from rfl,
      firstArm_text q _ hfirst, secondArm_text q key _ hsecond, fullOuterUnion]
    simp only [conditionText_eq_nil h, orderText_eq_nil h, ho, if_false, order_parts h ho, hlabels,
      hlength, hsel, List.append_assoc, List.length_map, List.map_map]
    rfl

/-- **One round on the text of a query.** -/
theorem round_text (h : q.Readable) : fullOuterJoinRound q.text =
    q.antiColumn.map fun key => key.map fun key => (q.lowered key).text := by
  obtain ⟨hfrom, hprojection, hleft⟩ := select_found h
  obtain ⟨hon, hright, hbehind⟩ := on_found h
  have hhead : trimStart (trimEnd (q.front ++ [' '])) = q.front := by
    have hstart := trimStart_of_trimmed (front_trimmed h) []
    rw [List.append_nil] at hstart
    rw [trimEnd_gap (by decide), trimEnd_of_trimmed (front_trimmed h), hstart]
  have hselect : "SELECT ".toList.isPrefixOf q.front = true := rfl
  have hafter : trimStart (' ' :: q.behind) = q.behind :=
    trimStart_blank h.right.1 _
  obtain ⟨cond, tail, hsplit, hcond, htail⟩ : ∃ cond tail,
      splitJoinOnCondition (q.on ++ q.tailText) = (cond, tail) ∧ trim cond = q.on ∧
        tail = q.tailText.drop 1 := by
    have hstops : ∀ kw ∈ joinStops, Clear kw q.on := fun kw hkw =>
      h.on.2 kw (List.mem_cons_of_mem _ hkw)
    have hclause : ∀ kw ∈ joinStops, ∀ y, q.tailText = ' ' :: (kw ++ ' ' :: y) → ∃ cond tail,
        splitJoinOnCondition (q.on ++ q.tailText) = (cond, tail) ∧ trim cond = q.on ∧
          tail = q.tailText.drop 1 := by
      intro kw hkw y hy
      have hnil : Gap [] := fun _ h => absurd h List.not_mem_nil
      have hblank : Gap [' '] := by decide
      rw [hy, splitJoinOnCondition_append hstops hkw]
      exact ⟨_, _, rfl, trim_gaps hnil hblank h.on.1, rfl⟩
    cases hw : q.where_ with
    | some w =>
      apply hclause "WHERE".toList (by decide)
      rw [tailText, hw, Option.elim_some, List.append_assoc]
      rfl
    | none =>
      cases hg : q.group with
      | some g =>
        apply hclause "GROUP".toList (by decide)
        rw [tailText, hw, hg, Option.elim_none, Option.elim_some, List.nil_append,
          List.append_assoc]
        rfl
      | none =>
        by_cases ho : q.order = []
        · have htail : q.tailText = [] := by rw [tailText, hw, hg, ho]; rfl
          rw [htail, List.append_nil, splitJoinOnCondition_self hstops]
          exact ⟨_, _, rfl, trim_of_trimmed h.on.1, rfl⟩
        · apply hclause "ORDER".toList (by decide)
          rw [tailText, hw, hg, Option.elim_none, Option.elim_none, List.nil_append,
            List.nil_append, if_neg ho]
          rfl
  obtain ⟨hlne, -⟩ := h.left.1
  obtain ⟨hsne, -⟩ := selectText_trimmed h
  obtain ⟨hrne, -⟩ := h.right.1
  obtain ⟨hone, -⟩ := h.on.1
  rw [fullOuterJoinRound, found h, Option.bind_some]
  simp only [hhead, hafter, hselect, hfrom, hprojection, hleft, hon, hright, hbehind, hsplit, hcond,
    htail, splitWhereOrder_tail h, union_text h, hlne, hsne, hrne, hone, true_or, not_true,
    if_false, or_self]
  rfl

/-! ### The key -/

/-- The key is a column behind the alias. -/
lemma antiColumnFrom_some {p s key : List Char} {skip : ℕ} {before : Option Char}
    (h : antiColumnFrom p skip before s = some (some key)) :
    ∃ col, key = p ++ col ∧ ∀ c ∈ col, isWordByte c = true := by
  induction s generalizing skip before with
  | nil => cases skip <;> cases h
  | cons c s ih =>
    cases skip with
    | succ skip => exact ih h
    | zero =>
      rw [antiColumnFrom] at h
      split_ifs at h with hq hp hbyte
      · exact ih h
      · simp only at h
        split_ifs at h with hcol
        · refine ⟨_, (Option.some.inj (Option.some.inj h)).symm, fun d hd => ?_⟩
          exact List.mem_takeWhile_imp hd
        · exact ih h
      · exact ih h

/-- Behind an alias in quotes no key is found: quoted parts are left out. -/
lemma antiColumnFrom_quoted {p s key : List Char} (hp : p.head? = some '"') {skip : ℕ}
    {before : Option Char} : antiColumnFrom p skip before s ≠ some (some key) := by
  induction s generalizing skip before with
  | nil => cases skip <;> exact fun h => by cases h
  | cons c s ih =>
    cases skip with
    | succ skip => exact ih
    | zero =>
      rw [antiColumnFrom]
      by_cases hq : c = '\'' ∨ c = '"'
      · rw [if_pos hq]
        exact ih
      · have hmiss : ¬ (p.isPrefixOf (c :: s) = true ∧ before.any isWordByte = false) := by
          rintro ⟨hpre, -⟩
          obtain ⟨d, p, rfl⟩ := List.exists_cons_of_ne_nil (l := p) (by rintro rfl; cases hp)
          obtain rfl : d = '"' := Option.some.inj hp
          rw [List.isPrefixOf_iff_prefix] at hpre
          exact hq (.inr (List.cons_prefix_cons.1 hpre).1.symm)
        rw [if_neg hq, if_neg hmiss]
        split_ifs
        · exact fun h => by cases h
        · exact ih

lemma clear_key (h : q.Readable) {key : List Char} (hkey : q.antiColumn = some (some key)) :
    Clear "FULL".toList key := by
  rw [antiColumn, fullOuterAntiColumn] at hkey
  by_cases hnil : trailingAlias q.left = []
  · rw [if_pos hnil] at hkey
    cases hkey
  rw [if_neg hnil] at hkey
  have halias : ∀ c ∈ trailingAlias q.left, isWordChar c = true := by
    rcases h.alias_ with halias | hquoted
    · exact halias
    · refine absurd hkey (antiColumnFrom_quoted ?_)
      rw [List.head?_append_of_ne_nil _ hnil]
      exact hquoted
  obtain ⟨col, rfl, hcol⟩ := antiColumnFrom_some hkey
  have hword : ∀ c ∈ trailingAlias q.left ++ ['.'] ++ col, isWordChar c = true := by
    intro c hc
    simp only [List.mem_append, List.mem_singleton] at hc
    rcases hc with (hc | rfl) | hc
    · exact halias c hc
    · rfl
    · simp [isWordChar, hcol c hc]
  refine clear_word (fun c hc => ?_) (by simp) (by decide) fun hup => ?_
  · have hc := hword c hc
    refine ⟨?_, ?_, ?_, ?_, ?_⟩
    · rintro rfl
      cases hc
    · rintro rfl
      cases hc
    · rintro rfl
      cases hc
    · rintro rfl
      cases hc
    · rw [← Bool.not_eq_true]
      intro hspace
      simp only [isAsciiSpace, Bool.or_eq_true, decide_eq_true_eq] at hspace
      rcases hspace with (((rfl | rfl) | rfl) | rfl) | rfl <;> cases hc
  · -- the key has a dot
    have hdot : '.' ∈ upper (trailingAlias q.left ++ ['.'] ++ col) := by
      simp only [upper_append, List.mem_append]
      exact .inl (.inr (by simp [upper]))
    rw [hup] at hdot
    revert hdot
    decide

/-! ### The labels -/

/-- A label is a word. -/
lemma clear_label (name : List Char) (hname : ∀ c ∈ name, c ≠ '\'' ∧ c ≠ '"' ∧ c ≠ '(' ∧ c ≠ ')' ∧
    isAsciiSpace c = false) (hhead : name.head? = some '_') (i : ℕ) (y : List Char)
    (hy : y = [] ∨ y = [',']) : Clear "FULL".toList (numbered name i ++ y) := by
  have hne : name ≠ [] := by
    rintro rfl
    cases hhead
  refine clear_word (fun c hc => ?_) (by simp [numbered, hne]) (by decide) fun hup => ?_
  · simp only [numbered, List.mem_append] at hc
    rcases hc with (hc | hc) | hc
    · exact hname c hc
    · have hdigit := Nat.isDigit_of_mem_toDigits (by decide) (by decide) hc
      refine ⟨?_, ?_, ?_, ?_, ?_⟩
      · rintro rfl
        cases hdigit
      · rintro rfl
        cases hdigit
      · rintro rfl
        cases hdigit
      · rintro rfl
        cases hdigit
      · rw [← Bool.not_eq_true]
        intro hspace
        simp only [isAsciiSpace, Bool.or_eq_true, decide_eq_true_eq] at hspace
        rcases hspace with (((rfl | rfl) | rfl) | rfl) | rfl <;> cases hdigit
    · rcases hy with rfl | rfl
      · cases hc
      · obtain rfl := List.mem_singleton.1 hc
        decide
  · have hhead' := congrArg List.head? hup
    rw [numbered, upper, List.head?_map, List.append_assoc, List.head?_append_of_ne_nil _ hne,
      hhead] at hhead'
    revert hhead'
    decide

/-- A list of texts without the keyword. -/
lemma clear_commas {kw : List Char} (hkw : ∀ c ∈ kw, isAsciiSpace c = false)
    {xs : List (List Char)} (hne : xs ≠ [])
    (hx : ∀ x ∈ xs, Clear kw x ∧ Clear kw (x ++ [','])) : Clear kw (commas xs) := by
  induction xs with
  | nil => exact absurd rfl hne
  | cons x xs ih =>
    have hfirst := hx x List.mem_cons_self
    cases xs with
    | nil => exact hfirst.1
    | cons y xs =>
      have hrest := ih (by simp) fun z hz => hx z (List.mem_cons_of_mem x hz)
      have htext : commas (x :: y :: xs) = (x ++ [',']) ++ ' ' :: commas (y :: xs) := by
        simp [commas]
      rw [htext]
      exact hfirst.2.append hkw hrest

/-! ### The second round -/

lemma full_space : ∀ c ∈ "FULL".toList, isAsciiSpace c = false := by decide

/-- The words of an arm. -/
def armWords : List (List Char) :=
  ["SELECT", "FROM", "LEFT JOIN", "RIGHT JOIN", "ON", "WHERE", "IS NULL", "AND", "UNION ALL"].map
    String.toList

/-- A property that texts keep when they are put together with blanks and parentheses. -/
structure Spaced (P : List Char → Prop) : Prop where
  append : ∀ {x y}, P x → P y → P (x ++ ' ' :: y)
  parens : ∀ {x}, P x → P ('(' :: (x ++ [')']))
  words : ∀ w ∈ armWords, P w

lemma spaced_clear : Spaced (Clear "FULL".toList) where
  append hx hy := hx.append full_space hy
  parens hx := Clear.parens hx.closed
  words := by decide

lemma spaced_closed : Spaced Closed where
  append hx hy := hx.append ((closed_of_ordinary (s := [' ']) (by decide)).append hy)
  parens hx := hx.parens
  words := by decide

/-- An arm, cut at its blanks. -/
lemma arm_blanks (q : FullJoin) {join w : List Char} (hjoin : join = ' ' :: (w ++ [' ']))
    (selected rest : List Char) :
    "SELECT ".toList ++ (q.distinctWord ++ (selected ++ (" FROM ".toList ++ (q.left ++ (join ++
      (q.right ++ (" ON ".toList ++ rest))))))) =
    "SELECT".toList ++ ' ' :: ((q.distinctWord ++ selected) ++ ' ' :: ("FROM".toList ++ ' ' ::
      (q.left ++ ' ' :: (w ++ ' ' :: (q.right ++ ' ' :: ("ON".toList ++ ' ' :: rest)))))) := by
  have hselect : "SELECT ".toList = "SELECT".toList ++ [' '] := by decide
  have hfrom : " FROM ".toList = ' ' :: ("FROM".toList ++ [' ']) := by decide
  have hon : " ON ".toList = ' ' :: ("ON".toList ++ [' ']) := by decide
  rw [hselect, hfrom, hon, hjoin]
  generalize "SELECT".toList = select
  generalize "FROM".toList = from_
  generalize "ON".toList = on_
  simp only [List.append_assoc, List.cons_append, List.nil_append]

section Arms

variable {P : List Char → Prop} (hP : Spaced P)

include hP

/-- What may stand behind a text with a blank. -/
lemma spaced_tail {x t : List Char} (hx : P x) (ht : t = [] ∨ ∃ y, t = ' ' :: y ∧ P y) :
    P (x ++ t) := by
  rcases ht with rfl | ⟨y, rfl, hy⟩
  · rw [List.append_nil]
    exact hx
  · exact hP.append hx hy

variable (hleft : P q.left) (hright : P q.right) (hon : P q.on)
  (hcond : q.where_ ≠ none → P q.conditionText)

/-- The conditions of the first arm. -/
lemma spaced_firstFilter (hcond : q.where_ ≠ none → P q.conditionText) :
    (if q.where_ = none then [] else " WHERE ".toList ++ q.conditionText) = [] ∨
    ∃ y, (if q.where_ = none then [] else " WHERE ".toList ++ q.conditionText) = ' ' :: y ∧
      P y := by
  by_cases hw : q.where_ = none
  · exact .inl (if_pos hw)
  · refine .inr ⟨"WHERE".toList ++ ' ' :: q.conditionText, ?_, ?_⟩
    · rw [if_neg hw]
      rfl
    · exact hP.append (hP.words _ (by decide)) (hcond hw)

/-- The conditions of the second arm. -/
lemma spaced_secondFilter (hcond : q.where_ ≠ none → P q.conditionText) {key : List Char}
    (hkey : P key) : ∃ y, " WHERE ".toList ++ (key ++ (" IS NULL".toList ++
      if q.where_ = none then [] else " AND (".toList ++ (q.conditionText ++ [')']))) = ' ' :: y ∧
        P y := by
  obtain ⟨t, ht⟩ : ∃ t : List Char, t = if q.where_ = none then [] else
      " AND (".toList ++ (q.conditionText ++ [')']) := ⟨_, rfl⟩
  have htail : t = [] ∨ ∃ y, t = ' ' :: y ∧ P y := by
    rw [ht]
    by_cases hw : q.where_ = none
    · exact .inl (if_pos hw)
    · refine .inr ⟨"AND".toList ++ ' ' :: ('(' :: (q.conditionText ++ [')'])), ?_, ?_⟩
      · rw [if_neg hw]
        rfl
      · exact hP.append (hP.words _ (by decide)) (hP.parens (hcond hw))
  refine ⟨"WHERE".toList ++ ' ' :: (key ++ ' ' :: ("IS NULL".toList ++ t)), ?_, ?_⟩
  · rw [ht]
    rfl
  · exact hP.append (hP.words _ (by decide))
      (hP.append hkey (spaced_tail hP (hP.words _ (by decide)) htail))

include hleft hright hon in
/-- One arm. -/
lemma spaced_arm {selected join filter : List Char} (hselected : P selected) (hjoin : P join)
    (hfilter : filter = [] ∨ ∃ y, filter = ' ' :: y ∧ P y) :
    P ("SELECT".toList ++ ' ' :: (selected ++ ' ' :: ("FROM".toList ++ ' ' :: (q.left ++ ' ' ::
      (join ++ ' ' :: (q.right ++ ' ' :: ("ON".toList ++ ' ' :: (q.on ++ filter)))))))) :=
  hP.append (hP.words _ (by decide)) (hP.append hselected (hP.append (hP.words _ (by decide))
    (hP.append hleft (hP.append hjoin (hP.append hright (hP.append (hP.words _ (by decide))
      (spaced_tail hP hon hfilter)))))))

include hleft hright hon hcond in
/-- Both arms. -/
lemma spaced_armsText {key first second : List Char} (hkey : P key)
    (hfirst : commas (q.firstArm.entries.map Entry.text) = first)
    (hsecond : commas ((q.secondArm key).entries.map Entry.text) = second)
    (hP₁ : P (q.distinctWord ++ first)) (hP₂ : P (q.distinctWord ++ second)) :
    P (q.lowered key).armsText := by
  obtain ⟨y, hy, hPy⟩ := spaced_secondFilter hP hcond hkey
  have harm₁ : P q.firstArm.text := by
    rw [firstArm_text q _ hfirst, arm_blanks q (w := "LEFT JOIN".toList) (by decide)]
    exact spaced_arm hP hleft hright hon hP₁ (hP.words _ (by decide)) (spaced_firstFilter hP hcond)
  have harm₂ : P (q.secondArm key).text := by
    rw [secondArm_text q key _ hsecond, arm_blanks q (w := "RIGHT JOIN".toList) (by decide)]
    exact spaced_arm hP hleft hright hon hP₂ (hP.words _ (by decide)) (.inr ⟨y, hy, hPy⟩)
  exact hP.append harm₁ (hP.append (hP.words "UNION ALL".toList (by decide)) harm₂)

end Arms

/-- The keyword is not in the text of the union. -/
lemma lowered_clear (h : q.Readable) {key : List Char} (hkey : q.antiColumn = some (some key)) :
    Clear "FULL".toList (q.lowered key).text := by
  have hclear := clear_key h hkey
  have hcond : q.where_ ≠ none → Clear "FULL".toList q.conditionText := by
    intro hw
    obtain ⟨w, hw⟩ := Option.ne_none_iff_exists'.1 hw
    exact (conditionText_clear h hw (by simp)).2
  have hright : Clear "FULL".toList q.right := h.right.2 _ (by simp)
  have hon : Clear "FULL".toList q.on := h.on.2 _ List.mem_cons_self
  by_cases ho : q.keptOrder = []
  · have hselected : Clear "FULL".toList
        (q.distinctWord ++ commas (q.items.map SelectedItem.text)) :=
      selectText_clear h (by simp)
    have hsort : (q.lowered key).sort = none := if_pos ho
    rw [JoinUnion.text, hsort, Option.elim_none]
    exact spaced_armsText spaced_clear h.left.2 hright hon hcond hclear
      (entries_unsorted ho (.inl rfl)) (entries_unsorted ho (.inr rfl)) hselected hselected
  · have hitems : ∀ x ∈ q.items.map SelectedItem.text, Closed x := fun x hx => (h.items x hx).closed
    have hkeys : ∀ x ∈ q.keptOrder.map SortKey.text, Closed x := fun x hx =>
      (h.keys x (List.map_subset _ q.keptOrder_subset hx)).closed
    have hcolumn : ∀ i, Clear "FULL".toList (columnLabel i) := by
      intro i
      have hword := clear_label "__dbsaci_foj_c".toList (by decide) rfl i [] (.inl rfl)
      rw [List.append_nil] at hword
      exact hword
    have hhidden : ∀ i, Clear "FULL".toList (orderLabel i) := by
      intro i
      have hword := clear_label "__dbsaci_foj_o".toList (by decide) rfl i [] (.inl rfl)
      rw [List.append_nil] at hword
      exact hword
    have has : Closed " AS ".toList := by decide
    have harms : Closed (q.lowered key).armsText := by
      have hdistinct : Closed q.distinctWord := by
        rw [distinctWord]
        cases q.distinct <;> decide
      have hfirst : Closed (commas (q.firstArm.entries.map Entry.text)) := by
        have hlabelled : q.firstArm.entries = q.entries true :=
          congrArg q.entries (decide_eq_true ho)
        rw [hlabelled, entries_labelled_text]
        refine commas_closed fun x hx => ?_
        rcases List.mem_append.1 hx with hx | hx
        · obtain ⟨i, hi, rfl⟩ := List.mem_mapIdx.1 hx
          exact (hitems _ (List.getElem_mem hi)).append (has.append (hcolumn i).closed)
        · obtain ⟨i, hi, rfl⟩ := List.mem_mapIdx.1 hx
          exact (hkeys _ (List.getElem_mem hi)).append (has.append (hhidden i).closed)
      have hsecond : Closed (commas ((q.secondArm key).entries.map Entry.text)) := by
        rw [show (q.secondArm key).entries = q.entries false from rfl, entries_text]
        refine commas_closed fun x hx => ?_
        exact (List.mem_append.1 hx).elim (hitems x) (hkeys x)
      exact spaced_armsText spaced_closed h.left.2.closed hright.closed hon.closed
        (fun hw => (hcond hw).closed) hclear.closed rfl rfl (hdistinct.append hfirst)
        (hdistinct.append hsecond)
    have hlabels : Clear "FULL".toList (commas ((List.range q.items.length).map columnLabel)) := by
      refine clear_commas full_space (by simpa using q.nonempty) fun x hx => ?_
      obtain ⟨i, -, rfl⟩ := List.mem_map.1 hx
      exact ⟨hcolumn i, clear_label "__dbsaci_foj_c".toList (by decide) rfl i _ (.inr rfl)⟩
    have horder : Clear "FULL".toList (commas (((List.range q.keptOrder.length).map orderLabel).map
        fun o => o ++ (" IS NULL, ".toList ++ o))) := by
      have hwords : Clear "FULL".toList "IS NULL,".toList := by decide
      refine clear_commas full_space (by simpa using ho) fun x hx => ?_
      obtain ⟨o, ho, rfl⟩ := List.mem_map.1 hx
      obtain ⟨i, -, rfl⟩ := List.mem_map.1 ho
      constructor
      · exact (hhidden i).append full_space (hwords.append full_space (hhidden i))
      · have hcomma := clear_label "__dbsaci_foj_o".toList (by decide) rfl i _ (.inr rfl)
        rw [List.append_assoc, List.append_assoc]
        exact (hhidden i).append full_space (hwords.append full_space hcomma)
    have hsort : (q.lowered key).sort = some ((List.range q.items.length).map columnLabel,
        (List.range q.keptOrder.length).map orderLabel) := if_neg ho
    have hselect : Clear "FULL".toList "SELECT".toList := by decide
    have hfrom : Clear "FULL".toList "FROM".toList := by decide
    have hsub : Clear "FULL".toList "__dbsaci_foj ORDER BY".toList := by decide
    have htext : (q.lowered key).text =
        "SELECT".toList ++ ' ' :: (commas ((List.range q.items.length).map columnLabel) ++ ' ' ::
          ("FROM".toList ++ ' ' :: (('(' :: ((q.lowered key).armsText ++ [')'])) ++ ' ' ::
            ("__dbsaci_foj ORDER BY".toList ++ ' ' ::
              commas (((List.range q.keptOrder.length).map orderLabel).map
                fun o => o ++ (" IS NULL, ".toList ++ o)))))) := by
      have hselect : "SELECT ".toList = "SELECT".toList ++ [' '] := by decide
      have hparen : " FROM (".toList = ' ' :: ("FROM".toList ++ [' ', '(']) := by decide
      have hbehind : ") __dbsaci_foj ORDER BY ".toList =
          ')' :: ' ' :: ("__dbsaci_foj ORDER BY".toList ++ [' ']) := by decide
      unfold JoinUnion.text
      rw [hsort, Option.elim_some, hselect, hparen, hbehind]
      generalize "SELECT".toList = select
      generalize "FROM".toList = from_
      generalize "__dbsaci_foj ORDER BY".toList = sub
      simp only [List.append_assoc, List.cons_append, List.nil_append]
    rw [htext]
    exact hselect.append full_space (hlabels.append full_space (hfrom.append full_space
      ((Clear.parens harms).append full_space (hsub.append full_space horder))))

/-- **There is no second rewriting.** -/
theorem round_lowered (h : q.Readable) {key : List Char} (hkey : q.antiColumn = some (some key)) :
    fullOuterJoinRound (q.lowered key).text = some none := by
  have hnone := (lowered_clear h hkey).find_none
  have hfound : findFullOuterJoinKw (q.lowered key).text = some none := by
    rw [findFullOuterJoinKw, findFullOuterJoinFuel, hnone]
  rw [fullOuterJoinRound, hfound]
  rfl

end FullJoin

end DbSaci
