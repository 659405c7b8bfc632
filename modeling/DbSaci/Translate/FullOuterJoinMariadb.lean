import DbSaci.Translate.FullOuterJoinUnion

set_option relaxedAutoImplicit false
set_option autoImplicit false

/-!
# A full join on MariaDB returns what it returns on Oracle

The pass leaves a query alone or puts a union for it. The union returns what the query returns only
for some queries and contents of the tables: a matched row whose key is `NULL` is selected by both
arms, a grouping is lost or ends up in parentheses, aggregates are made of each arm for itself, and
a sorted query gets other names for its columns.

## Main definitions

* `FullJoin.Preserved` — the pass leaves the query alone, or puts what returns the same.
* `FullJoin.Faithful` — the condition on the query and the contents of the tables.

## Main results

* `FullJoin.preserved_iff_faithful` — the pass preserves a query exactly under the condition.
-/

namespace DbSaci

open Text Translate Joins

namespace FullJoin

section Pass

variable {α β V Γ : Type} [DecidableEq V] [DecidableEq Γ] (M : JoinMeaning α β V Γ)
  (q : FullJoin) (l : List α) (r : List β)

/-- In so many rounds the pass returns: the text of the query, or that of the union, which then
returns what the query returns. -/
def Preserved (rounds : ℕ) : Prop :=
  ∃ out, rewriteMariadbFullOuterJoin rounds q.text = some out ∧
    (out = q.text ∨ ∃ key, q.antiColumn = some (some key) ∧ out = (q.lowered key).text ∧
      (q.lowered key).Agrees M q l r)

/-- The search for the key does not end inside a character, and the union for the key it finds
stands for the query. -/
structure Faithful : Prop where
  returns : q.antiColumn ≠ none
  kept : ∀ key, q.antiColumn = some (some key) → q.Kept M key l r

variable {M q l r}

/-- What the pass makes of a query. -/
lemma rewrite_text (h : q.Readable) (rounds : ℕ) :
    rewriteMariadbFullOuterJoin (rounds + 2) q.text =
      q.antiColumn.map fun key => key.elim q.text fun key => (q.lowered key).text := by
  rw [rewriteMariadbFullOuterJoin, round_text h]
  cases hkey : q.antiColumn with
  | none => rfl
  | some found =>
    cases found with
    | none => rfl
    | some key =>
      rw [Option.map_some, Option.map_some, Option.bind_some, Option.elim_some,
        rewriteMariadbFullOuterJoin, round_lowered h hkey]
      rfl

/-- The union is another text than the query. -/
lemma lowered_ne_text (h : q.Readable) {key : List Char} (hkey : q.antiColumn = some (some key)) :
    (q.lowered key).text ≠ q.text := by
  intro heq
  have hround := round_text h
  rw [← heq, round_lowered h hkey, hkey] at hround
  cases hround

end Pass

/-- **The pass preserves a query** exactly if it returns and the union for the key it finds, if it
finds one, stands for the query. -/
theorem preserved_iff_faithful {α β V Γ : Type} [DecidableEq V] [DecidableEq Γ]
    (M : JoinMeaning α β V Γ) (q : FullJoin) (h : q.Readable) (l : List α) (r : List β)
    (rounds : ℕ) : q.Preserved M l r (rounds + 2) ↔ q.Faithful M l r := by
  rw [Preserved, rewrite_text h]
  cases hkey : q.antiColumn with
  | none =>
    constructor
    · rintro ⟨out, hout, -⟩
      cases hout
    · intro hf
      exact absurd hkey hf.returns
  | some found =>
    cases found with
    | none =>
      constructor
      · intro _
        refine ⟨by simp [hkey], fun key hsome => ?_⟩
        rw [hkey] at hsome
        cases hsome
      · exact fun _ => ⟨q.text, rfl, .inl rfl⟩
    | some key =>
      constructor
      · rintro ⟨out, hout, hsame | ⟨key', hkey', -, hagrees⟩⟩
        · -- the union is no text the pass rewrites
          obtain rfl : (q.lowered key).text = out := Option.some.inj hout
          exact absurd hsame (lowered_ne_text h hkey)
        · refine ⟨by simp [hkey], fun key'' hsome => ?_⟩
          rw [hkey] at hsome
          obtain rfl : key = key'' := Option.some.inj (Option.some.inj hsome)
          obtain rfl : key = key' := Option.some.inj (Option.some.inj hkey')
          exact lowered_agrees_iff.1 hagrees
      · intro hf
        exact ⟨_, rfl, .inr ⟨key, rfl, rfl, lowered_agrees_iff.2 (hf.kept key hkey)⟩⟩

/-! ### Two queries -/

/-- `SELECT a.k, b.k FROM a FULL JOIN b ON` a condition. -/
def twoKeys (on : List Char) : FullJoin where
  distinct := false
  aggregate := false
  items := [⟨"a.k".toList, none⟩, ⟨"b.k".toList, none⟩]
  left := ['a']
  outer := false
  right := ['b']
  on := on
  where_ := none
  group := none
  order := []
  nonempty := by simp

/-- Rows with one column `k`, where `b.k` is not `NULL`: the meaning of the expressions of
`twoKeys`, for a join condition. -/
def keyMeaning (on : Option ℕ → ℕ → Bool) :
    JoinMeaning (Option ℕ) ℕ (Option ℕ) (List (Row (Option ℕ) ℕ)) where
  on := fun _ => on
  holds := fun _ _ => true
  column := fun c => if c = "a.k".toList then some id else none
  value := fun _ _ => none
  sortValue := fun _ _ => none
  project := fun _ x => x
  groupKey := fun _ x => x.2
  names := fun e => [e]
  isNull := Option.isNone
  le := fun _ _ => true
  order := ⟨fun _ _ => .inl rfl, fun _ _ _ _ _ => rfl⟩

lemma twoKeys_readable {on : List Char} (htrim : Trimmed on)
    (hclear : ∀ kw ∈ "FULL".toList :: joinStops, Clear kw on) : (twoKeys on).Readable where
  items := by
    have hlisted : Listed "a.k".toList ∧ Listed "b.k".toList :=
      ⟨⟨by decide, by decide, by decide, rfl, rfl⟩, ⟨by decide, by decide, by decide, rfl, rfl⟩⟩
    intro x hx
    have hx : x = "a.k".toList ∨ x = "b.k".toList := by
      simpa [twoKeys, SelectedItem.text] using hx
    rcases hx with rfl | rfl
    · exact hlisted.1
    · exact hlisted.2
  select := by
    show ∀ kw ∈ ["FROM".toList, "FULL".toList], Clear kw "a.k, b.k".toList
    decide
  left := show Trimmed ['a'] ∧ Clear "FULL".toList ['a'] from ⟨⟨by decide, rfl, rfl⟩, by decide⟩
  alias_ := .inl (show ∀ c ∈ trailingAlias ['a'], isWordChar c = true by decide)
  right := show Trimmed ['b'] ∧ ∀ kw ∈ ["ON".toList, "FULL".toList], Clear kw ['b'] from
    ⟨⟨by decide, rfl, rfl⟩, by decide⟩
  on := ⟨htrim, hclear⟩
  where_ := fun _ h => by cases h
  group := fun _ h => by cases h
  keys := fun _ h => by cases h

/-- `SELECT a.k, b.k FROM a FULL JOIN b ON a.k = b.k OR b.k = 1` with `NULL` in `a` and 1 in `b`
returns one row on Oracle and two on MariaDB. -/
theorem orJoin_not_preserved : ¬ (twoKeys "a.k = b.k OR b.k = 1".toList).Preserved
    (keyMeaning fun a b => a = some b || b = 1) [none] [1] 2 := by
  have hreadable : (twoKeys "a.k = b.k OR b.k = 1".toList).Readable :=
    twoKeys_readable ⟨by decide, rfl, rfl⟩ (by decide)
  have hkey : (twoKeys "a.k = b.k OR b.k = 1".toList).antiColumn = some (some "a.k".toList) := by
    decide
  rintro ⟨out, hout, hsame | ⟨key, hkey', -, hagrees⟩⟩
  · rw [rewrite_text hreadable 0, hkey] at hout
    exact lowered_ne_text hreadable hkey ((Option.some.inj hout).trans hsame)
  · rw [hkey] at hkey'
    obtain rfl : "a.k".toList = key := Option.some.inj (Option.some.inj hkey')
    have hlen := hagrees.rows.length_eq
    revert hlen
    decide

/-- `SELECT a.k, b.k FROM a FULL JOIN b ON a.k = b.k`, where each of the tables has a row the other
one does not match. -/
theorem keyJoin_preserved : (twoKeys "a.k = b.k".toList).Preserved
    (keyMeaning fun a b => a = some b) [none, some 1] [1, 2] 2 := by
  refine (preserved_iff_faithful _ _ (twoKeys_readable ⟨by decide, rfl, rfl⟩ (by decide))
    _ _ 0).2 ⟨by decide, fun key hkey => ?_⟩
  have hfound : (twoKeys "a.k = b.k".toList).antiColumn = some (some "a.k".toList) := by decide
  rw [hfound] at hkey
  obtain rfl : "a.k".toList = key := Option.some.inj (Option.some.inj hkey)
  refine ⟨rfl, rfl, by decide, ⟨fun _ => by decide, ?_, ?_⟩, fun h => absurd rfl h⟩
  · exact fun h => by cases h
  · exact fun h => by cases h

end FullJoin

end DbSaci
