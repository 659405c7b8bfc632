import DbSaci.Library.Arrangement

set_option relaxedAutoImplicit false
set_option autoImplicit false

/-!
# Sort keys

An order by several keys, each upwards or downwards, with `NULL` in front or behind. A key that was
compared before does not matter any more.

## Main definitions

* `placed` — values in a direction, with `NULL` in front or behind.
* `Twin` — a key of two orders that differ in where they put `NULL`.
* `SamePlaces` — they do not differ where a key is compared for the first time.
* `testLe` — the comparison by a test for `NULL`.

## Main results

* `refines_iff` — what one order sorts is sorted in the other one, too.
* `lexLe_test` — a test in front of a key puts `NULL` in its place.
-/

namespace Sorting

variable {κ V : Type} (le : V → V → Bool)

/-- The comparison of values in a direction, with `NULL` in front or behind. -/
def placed (desc first : Bool) : Option V → Option V → Bool
  | none, none => true
  | none, some _ => first
  | some _, none => !first
  | some a, some b => if desc then le b a else le a b

/-- A key that two orders have, with the place of `NULL` in each of them. -/
structure Twin (κ : Type) where
  key : κ
  desc : Bool
  first : Bool
  other : Bool

namespace Twin

/-- The comparison of records in the first order. -/
def firstLe (t : Twin κ) (x y : κ → Option V) : Bool := placed le t.desc t.first (x t.key) (y t.key)

/-- The comparison of records in the other order. -/
def otherLe (t : Twin κ) (x y : κ → Option V) : Bool :=
  placed le t.desc t.other (x t.key) (y t.key)

end Twin

/-- The first order. -/
def orderLe (ts : List (Twin κ)) : (κ → Option V) → (κ → Option V) → Bool :=
  lexLe (ts.map (Twin.firstLe le))

/-- The other order. -/
def otherOrderLe (ts : List (Twin κ)) : (κ → Option V) → (κ → Option V) → Bool :=
  lexLe (ts.map (Twin.otherLe le))

/-- The places of `NULL` are the same where a key is compared for the first time. -/
def SamePlaces (seen : List κ) : List (Twin κ) → Prop
  | [] => True
  | t :: ts => (t.key ∉ seen → t.first = t.other) ∧ SamePlaces (t.key :: seen) ts

/-! ### Values that are not told apart -/

/-- Two values that no comparison tells apart. -/
def Tie : Option V → Option V → Prop
  | none, none => True
  | some a, some b => le a b = true ∧ le b a = true
  | _, _ => False

variable {le}

lemma placed_of_tie {v w : Option V} (h : Tie le v w) (desc first : Bool) :
    placed le desc first v w = true ∧ placed le desc first w v = true := by
  match v, w with
  | none, none => exact ⟨rfl, rfl⟩
  | some a, some b =>
    obtain ⟨hab, hba⟩ := h
    cases desc
    · exact ⟨hab, hba⟩
    · exact ⟨hba, hab⟩
  | none, some b => exact h.elim
  | some a, none => exact h.elim

lemma tie_of_placed {v w : Option V} {desc first : Bool} (h : placed le desc first v w = true)
    (h' : placed le desc first w v = true) : Tie le v w := by
  match v, w with
  | none, none => trivial
  | some a, some b =>
    cases desc
    · exact ⟨h, h'⟩
    · exact ⟨h', h⟩
  | none, some b =>
    cases first
    · cases h
    · cases h'
  | some a, none =>
    cases first
    · cases h'
    · cases h

lemma lexLe_cons_of_tie {ρ : Type} {c : ρ → ρ → Bool} {rest : List (ρ → ρ → Bool)} {x y : ρ}
    (h : c x y = true ∧ c y x = true) : lexLe (c :: rest) x y = lexLe rest x y := by
  rw [lexLe, h.1, h.2]
  rfl

/-- Where a key is not told apart, the orders by the other keys decide. -/
lemma orders_cons_of_tie {t : Twin κ} {x y : κ → Option V} (h : Tie le (x t.key) (y t.key))
    (ts : List (Twin κ)) : orderLe le (t :: ts) x y = orderLe le ts x y ∧
      otherOrderLe le (t :: ts) x y = otherOrderLe le ts x y :=
  ⟨lexLe_cons_of_tie (placed_of_tie h t.desc t.first),
    lexLe_cons_of_tie (placed_of_tie h t.desc t.other)⟩

/-! ### Two orders -/

/-- The two orders are the same for records that the keys before do not tell apart. -/
lemma orderLe_eq_of_samePlaces {seen : List κ} {ts : List (Twin κ)} (h : SamePlaces seen ts)
    {x y : κ → Option V} (htie : ∀ k ∈ seen, Tie le (x k) (y k)) :
    orderLe le ts x y = otherOrderLe le ts x y := by
  induction ts generalizing seen with
  | nil => rfl
  | cons t ts ih =>
    obtain ⟨hfirst, hrest⟩ := h
    by_cases ht : Tie le (x t.key) (y t.key)
    · obtain ⟨horder, hother⟩ := orders_cons_of_tie ht ts
      rw [horder, hother]
      refine ih hrest fun k hk => ?_
      rcases List.mem_cons.1 hk with rfl | hk
      · exact ht
      · exact htie k hk
    · -- the first comparison decides, and it is the same
      have hsame : Twin.firstLe le t = Twin.otherLe le t := by
        funext x y
        rw [Twin.firstLe, Twin.otherLe, hfirst fun hk => ht (htie t.key hk)]
      have hstop : ∀ rest, lexLe (Twin.otherLe le t :: rest) x y = Twin.otherLe le t x y := by
        intro rest
        rw [lexLe]
        cases hxy : Twin.otherLe le t x y with
        | false => rfl
        | true =>
          cases hyx : Twin.otherLe le t y x with
          | false => rfl
          | true => exact absurd (tie_of_placed hxy hyx) ht
      rw [orderLe, otherOrderLe, List.map_cons, List.map_cons, hsame, hstop, hstop]

/-- Otherwise there are two records of which the orders put a different one in front. -/
lemma exists_of_not_samePlaces [Inhabited V] {seen : List κ} {ts : List (Twin κ)}
    (h : ¬ SamePlaces seen ts) : ∃ x y : κ → Option V, (∀ k ∈ seen, Tie le (x k) (y k)) ∧
      orderLe le ts x y = true ∧ otherOrderLe le ts x y = false := by
  classical
  induction ts generalizing seen with
  | nil => exact absurd trivial h
  | cons t ts ih =>
    rw [SamePlaces, not_and_or] at h
    by_cases hbad : t.key ∉ seen → t.first = t.other
    · obtain ⟨x, y, htie, horder, hother⟩ := ih (h.resolve_left (not_not.2 hbad))
      have ht : Tie le (x t.key) (y t.key) := htie t.key List.mem_cons_self
      obtain ⟨horder', hother'⟩ := orders_cons_of_tie ht ts
      exact ⟨x, y, fun k hk => htie k (List.mem_cons_of_mem _ hk), horder'.trans horder,
        hother'.trans hother⟩
    · push Not at hbad
      obtain ⟨hkey, hne⟩ := hbad
      -- one record has a value for the key, and the other one has none
      let value : κ → Option V := fun k => if k = t.key then some default else none
      have hseen : ∀ k ∈ seen, value k = none := by
        intro k hk
        exact if_neg fun heq : k = t.key => hkey (heq ▸ hk)
      have hval : value t.key = some default := if_pos rfl
      cases hfirst : t.first with
      | true =>
        have hother : t.other = false := by
          cases ho : t.other
          · rfl
          · exact absurd (hfirst.trans ho.symm) hne
        refine ⟨fun _ => none, value, fun k hk => ?_, ?_, ?_⟩
        · rw [hseen k hk]
          trivial
        · show (placed le t.desc t.first none (value t.key) &&
            (!placed le t.desc t.first (value t.key) none || _)) = true
          rw [hval, hfirst]
          rfl
        · show (placed le t.desc t.other none (value t.key) && _) = false
          rw [hval, hother]
          rfl
      | false =>
        have hother : t.other = true := by
          cases ho : t.other
          · exact absurd (hfirst.trans ho.symm) hne
          · rfl
        refine ⟨value, fun _ => none, fun k hk => ?_, ?_, ?_⟩
        · rw [hseen k hk]
          trivial
        · show (placed le t.desc t.first (value t.key) none &&
            (!placed le t.desc t.first none (value t.key) || _)) = true
          rw [hval, hfirst]
          rfl
        · show (placed le t.desc t.other (value t.key) none && _) = false
          rw [hval, hother]
          rfl

/-- **What one order sorts is sorted in the other one, too**, exactly where they put `NULL` at the
same place for each key that is compared for the first time. -/
theorem refines_iff [Inhabited V] (ts : List (Twin κ)) :
    (∀ x y : κ → Option V, orderLe le ts x y = true → otherOrderLe le ts x y = true) ↔
      SamePlaces [] ts := by
  constructor
  · intro h
    by_contra hbad
    obtain ⟨x, y, -, horder, hother⟩ := @exists_of_not_samePlaces _ _ le _ _ _ hbad
    rw [h x y horder] at hother
    cases hother
  · intro h x y horder
    rwa [← orderLe_eq_of_samePlaces h fun k hk => absurd hk List.not_mem_nil]

/-! ### A test in front of a key -/

/-- The comparison of values by whether they are `NULL`, or whether they are not, which puts `NULL`
in front. -/
def testLe (first : Bool) (v w : Option V) : Bool :=
  !(v.isSome == first) || w.isSome == first

/-- **A test in front of a key** puts `NULL` in its place. -/
theorem lexLe_test {ρ : Type} (desc first other : Bool) (f : ρ → Option V)
    (rest : List (ρ → ρ → Bool)) :
    lexLe ((fun x y => testLe first (f x) (f y)) ::
        (fun x y => placed le desc other (f x) (f y)) :: rest) =
      lexLe ((fun x y => placed le desc first (f x) (f y)) :: rest) := by
  funext x y
  simp only [lexLe]
  cases f x with
  | none => cases f y <;> cases first <;> simp [testLe, placed]
  | some a => cases f y <;> cases first <;> simp [testLe, placed]

/-- A test that does not tell records apart. -/
lemma lexLe_true {ρ : Type} (rest : List (ρ → ρ → Bool)) :
    lexLe ((fun _ _ => true) :: rest) = lexLe rest := by
  funext x y
  rfl

/-! ### Orders -/

lemma order_testLe (first : Bool) : Order (testLe (V := V) first) where
  total v w := by
    cases v <;> cases w <;> cases first <;> simp [testLe]
  trans u v w := by
    cases u <;> cases v <;> cases w <;> cases first <;> simp [testLe]

lemma order_placed (h : Order le) (desc first : Bool) : Order (placed le desc first) where
  total v w := by
    match v, w with
    | none, none => exact Or.inl rfl
    | none, some b => cases first <;> simp [placed]
    | some a, none => cases first <;> simp [placed]
    | some a, some b =>
      cases desc
      · exact h.total a b
      · exact (h.total a b).symm
  trans u v w huv hvw := by
    match u, v, w with
    | none, _, none => rfl
    | none, none, some c => exact hvw
    | none, some b, some c => exact huv
    | some a, none, none => exact huv
    | some a, some b, none => exact hvw
    | some a, none, some c =>
      cases first
      · cases hvw
      · cases huv
    | some a, some b, some c =>
      cases desc
      · exact h.trans a b c huv hvw
      · exact h.trans c b a hvw huv

lemma order_orderLe (h : Order le) (ts : List (Twin κ)) : Order (orderLe le ts) := by
  apply order_lexLe
  intro c hc
  obtain ⟨t, -, rfl⟩ := List.mem_map.1 hc
  have hplaced := order_placed h t.desc t.first
  exact ⟨fun x y => hplaced.total (x t.key) (y t.key),
    fun x y z => hplaced.trans (x t.key) (y t.key) (z t.key)⟩

end Sorting
