import DbSaci.Library.Text

set_option relaxedAutoImplicit false
set_option autoImplicit false

/-!
# Keywords and commas at depth zero

The text passes cut a statement at keywords and commas that stand outside quotes and parentheses.
A keyword counts when ASCII white space stands before it and behind it.

## Main definitions

* `findTopLevelKw`, `splitTopLevelKw` — keywords.
* `splitTopLevelCommas` — commas.

## Main results

* `findTopLevelKw_append` — a keyword is found where it stands, behind a text without it.
* `splitTopLevelCommas_append` — a comma ends a part without one.
-/

namespace DbSaci.Translate

open Text

/-! ### Keywords -/

/-- ASCII white space. -/
def isAsciiSpace (c : Char) : Bool :=
  c = ' ' || c = '\t' || c = '\n' || c = '\x0c' || c = '\r'

/-- The text is empty or starts with white space. -/
def atBoundary (s : List Char) : Bool := s.head?.all isAsciiSpace

/-- The search for a keyword, from a depth and a quote on, and whether white space comes before. -/
def findKwFrom (kw : List Char) : ℤ → Option Char → Bool → List Char → Option ℕ
  | _, _, _, [] => none
  | depth, some q, _, c :: s =>
    (findKwFrom kw depth (if c = q then none else some q) (isAsciiSpace c) s).map (· + 1)
  | depth, none, before, c :: s =>
    if c = '\'' ∨ c = '"' then (findKwFrom kw depth (some c) (isAsciiSpace c) s).map (· + 1)
    else if c = '(' then (findKwFrom kw (depth + 1) none (isAsciiSpace c) s).map (· + 1)
    else if c = ')' then (findKwFrom kw (depth - 1) none (isAsciiSpace c) s).map (· + 1)
    else if depth = 0 ∧ before = true ∧ startsWith kw (c :: s) = true ∧
        atBoundary ((c :: s).drop kw.length) = true then
      some 0
    else (findKwFrom kw depth none (isAsciiSpace c) s).map (· + 1)

/-- `find_top_level_kw`: where a keyword stands outside quotes and parentheses. -/
def findTopLevelKw (s kw : List Char) : Option ℕ := findKwFrom kw 0 none false s

/-- The loop of `split_top_level_kw`. -/
def splitKwFuel (kw : List Char) : ℕ → List Char → List (List Char)
  | 0, s => [s]
  | fuel + 1, s =>
    match findTopLevelKw s kw with
    | none => [s]
    | some at_ => s.take at_ :: splitKwFuel kw fuel (s.drop (at_ + kw.length))

/-- `split_top_level_kw`: the parts between the keywords. -/
def splitTopLevelKw (s kw : List Char) : List (List Char) := splitKwFuel kw s.length s

/-- The text ends with white space, unless it is empty. -/
def EndsInSpace (s : List Char) : Prop := ∀ c ∈ s.getLast?, isAsciiSpace c = true

/-- Which can be computed. -/
instance decidableEndsInSpace (s : List Char) : Decidable (EndsInSpace s) :=
  decidable_of_iff (s.getLast?.all isAsciiSpace = true) (by
    rw [EndsInSpace]
    cases s.getLast? <;> simp)

/-- Whether white space comes before what follows a text. -/
def spaceAfter (before : Bool) (s : List Char) : Bool := s.getLast?.elim before isAsciiSpace

lemma endsInSpace_tail {c : Char} {s : List Char} (h : EndsInSpace (c :: s)) : EndsInSpace s := by
  cases s with
  | nil => exact fun c hc => by cases hc
  | cons d s => exact fun e he => h e (by simpa using he)

lemma spaceAfter_cons (before : Bool) (c : Char) (s : List Char) :
    spaceAfter (isAsciiSpace c) s = spaceAfter before (c :: s) := by
  cases s with
  | nil => rfl
  | cons d s =>
    obtain ⟨e, he⟩ : ∃ e, (d :: s).getLast? = some e :=
      ⟨_, List.getLast?_eq_some_getLast (by simp)⟩
    rw [spaceAfter, spaceAfter, List.getLast?_cons_cons, he]
    rfl

/-- A keyword that starts in a text which ends with white space ends in it. -/
lemma hit_of_hit_append {kw x y : List Char} (hkw : ∀ c ∈ kw, isAsciiSpace c = false)
    (hx : EndsInSpace x) (hne : x ≠ []) (hstart : startsWith kw (x ++ y) = true)
    (hend : atBoundary ((x ++ y).drop kw.length) = true) :
    startsWith kw x = true ∧ atBoundary (x.drop kw.length) = true := by
  rw [startsWith, List.isPrefixOf_iff_prefix, upper_append] at hstart
  rcases Nat.lt_or_ge (upper x).length kw.length with hlt | hge
  · -- the white space at the end of the text would be in the keyword
    exfalso
    have hpre := List.prefix_of_prefix_length_le (List.prefix_append _ _) hstart hlt.le
    have hlast := List.getLast_mem hne
    have hspace : isAsciiSpace (x.getLast hne) = true :=
      hx _ (List.getLast?_eq_some_getLast hne)
    have hmem : (x.getLast hne).toUpper ∈ kw := hpre.subset (List.mem_map_of_mem hlast)
    have hup : (x.getLast hne).toUpper = x.getLast hne := by
      refine toUpper_of_isSpace ?_
      simp only [isAsciiSpace, Bool.or_eq_true, decide_eq_true_eq] at hspace
      rcases hspace with (((h | h) | h) | h) | h <;> rw [h] <;> rfl
    have := hkw _ hmem
    rw [hup, hspace] at this
    cases this
  · have hpre := List.prefix_of_prefix_length_le hstart (List.prefix_append _ _) hge
    refine ⟨List.isPrefixOf_iff_prefix.2 hpre, ?_⟩
    rw [length_upper] at hge
    rw [List.drop_append_of_le_length hge] at hend
    cases hdrop : x.drop kw.length with
    | nil => rfl
    | cons d t =>
      rw [hdrop] at hend
      exact hend

/-- **The search passes a text without the keyword** that ends with white space. -/
lemma findKwFrom_append {kw x y : List Char} {depth depth' : ℕ} {quote quote' : Option Char}
    {before : Bool} (hkw : ∀ c ∈ kw, isAsciiSpace c = false)
    (hf : follow depth quote x = some (depth', quote'))
    (hno : findKwFrom kw depth quote before x = none) (hx : EndsInSpace x) :
    findKwFrom kw depth quote before (x ++ y) =
      (findKwFrom kw depth' quote' (spaceAfter before x) y).map (· + x.length) := by
  induction x generalizing depth quote before with
  | nil =>
    obtain ⟨rfl, rfl⟩ : depth = depth' ∧ quote = quote' := by simpa [follow] using hf
    simp [spaceAfter]
  | cons c x ih =>
    have hx' := endsInSpace_tail hx
    have hmap : ∀ o : Option ℕ, (o.map (· + x.length)).map (· + 1) =
        o.map (· + (c :: x).length) := by
      intro o
      rw [Option.map_map]
      rfl
    rw [List.cons_append, ← spaceAfter_cons]
    cases quote with
    | some q =>
      rw [findKwFrom, Option.map_eq_none_iff] at hno
      rw [findKwFrom, ih hf hno hx', hmap]
    | none =>
      simp only [follow] at hf
      rw [findKwFrom] at hno ⊢
      by_cases hq : c = '\'' ∨ c = '"'
      · rw [if_pos hq] at hf hno ⊢
        rw [ih hf (Option.map_eq_none_iff.1 hno) hx', hmap]
      rw [if_neg hq] at hf hno ⊢
      by_cases ho : c = '('
      · rw [if_pos ho] at hf hno ⊢
        have hno := Option.map_eq_none_iff.1 hno
        rw [← hmap, ← ih hf (by exact_mod_cast hno) hx', Nat.cast_add, Nat.cast_one]
      rw [if_neg ho] at hf hno ⊢
      by_cases hc : c = ')'
      · rw [if_pos hc] at hf hno ⊢
        cases depth with
        | zero => cases hf
        | succ depth =>
          have hno := Option.map_eq_none_iff.1 hno
          have hd : ((depth + 1 : ℕ) : ℤ) - 1 = depth := by
            rw [Nat.cast_add, Nat.cast_one, add_sub_cancel_right]
          rw [hd] at hno ⊢
          rw [ih hf hno hx', hmap]
      rw [if_neg hc] at hf hno ⊢
      split_ifs at hno with hhit
      have hmiss : ¬ ((depth : ℤ) = 0 ∧ before = true ∧ startsWith kw (c :: (x ++ y)) = true ∧
          atBoundary ((c :: (x ++ y)).drop kw.length) = true) := by
        rintro ⟨h1, h2, h3, h4⟩
        obtain ⟨h5, h6⟩ := hit_of_hit_append hkw hx (by simp) h3 h4
        exact hhit ⟨h1, h2, h5, h6⟩
      rw [if_neg hmiss, ih hf (Option.map_eq_none_iff.1 hno) hx', hmap]

/-- A closed text behind which a keyword is found. -/
structure Lead (kw x : List Char) : Prop where
  closed : Closed x
  free : findTopLevelKw x kw = none
  space : EndsInSpace x

instance (kw x : List Char) : Decidable (Lead kw x) :=
  decidable_of_iff (Closed x ∧ findTopLevelKw x kw = none ∧ EndsInSpace x)
    ⟨fun h => ⟨h.1, h.2.1, h.2.2⟩, fun h => ⟨h.closed, h.free, h.space⟩⟩

/-- **A keyword is found where it stands**, behind a text without it. -/
theorem findTopLevelKw_append {kw x y : List Char} (hkw : ∀ c ∈ kw, isAsciiSpace c = false)
    (hfirst : ∀ c ∈ kw.head?, c ≠ '\'' ∧ c ≠ '"' ∧ c ≠ '(' ∧ c ≠ ')') (hup : upper kw = kw)
    (hkwne : kw ≠ []) (hx : Lead kw x) (hne : x ≠ []) (hy : atBoundary y = true) :
    findTopLevelKw (x ++ (kw ++ y)) kw = some x.length := by
  have hf : follow 0 none x = some (0, none) := hx.closed
  have hpass : findTopLevelKw (x ++ (kw ++ y)) kw = _ := findKwFrom_append hkw hf hx.free hx.space
  have hspace : spaceAfter false x = true := by
    obtain ⟨c, hc⟩ : ∃ c, x.getLast? = some c := ⟨_, List.getLast?_eq_some_getLast hne⟩
    have := hx.space c hc
    simp [spaceAfter, hc, this]
  obtain ⟨c, k, rfl⟩ := List.exists_cons_of_ne_nil hkwne
  obtain ⟨h1, h2, h3, h4⟩ := hfirst c rfl
  have hstart : startsWith (c :: k) (c :: (k ++ y)) = true := by
    rw [startsWith, List.isPrefixOf_iff_prefix, ← List.cons_append, upper_append, hup]
    exact List.prefix_append _ _
  have hend : atBoundary ((c :: (k ++ y)).drop (c :: k).length) = true := by
    rw [← List.cons_append, List.drop_left]
    exact hy
  rw [hpass, hspace, List.cons_append, findKwFrom, if_neg (not_or.2 ⟨h1, h2⟩), if_neg h3,
    if_neg h4, if_pos ⟨rfl, rfl, hstart, hend⟩, Option.map_some, Nat.zero_add]

/-! ### Commas -/

/-- Put a character in front of the first part. -/
def consHead (c : Char) : List (List Char) → List (List Char)
  | [] => [[c]]
  | p :: ps => (c :: p) :: ps

/-- The parts between the commas, from a depth and a quote on. -/
def splitCommasFrom : ℤ → Option Char → List Char → List (List Char)
  | _, _, [] => [[]]
  | depth, some q, c :: s => consHead c (splitCommasFrom depth (if c = q then none else some q) s)
  | depth, none, c :: s =>
    if c = '\'' ∨ c = '"' then consHead c (splitCommasFrom depth (some c) s)
    else if c = '(' then consHead c (splitCommasFrom (depth + 1) none s)
    else if c = ')' then consHead c (splitCommasFrom (depth - 1) none s)
    else if c = ',' ∧ depth = 0 then [] :: splitCommasFrom depth none s
    else consHead c (splitCommasFrom depth none s)

/-- `split_top_level_commas`: the parts between commas outside quotes and parentheses. -/
def splitTopLevelCommas (s : List Char) : List (List Char) := splitCommasFrom 0 none s

lemma consHead_ne_nil (c : Char) (ps : List (List Char)) : consHead c ps ≠ [] := by
  cases ps <;> simp [consHead]

lemma splitCommasFrom_ne_nil (depth : ℤ) (quote : Option Char) (s : List Char) :
    splitCommasFrom depth quote s ≠ [] := by
  cases s with
  | nil => simp [splitCommasFrom]
  | cons c s =>
    cases quote with
    | some q => exact consHead_ne_nil _ _
    | none =>
      rw [splitCommasFrom]
      split_ifs
      · exact consHead_ne_nil _ _
      · exact consHead_ne_nil _ _
      · exact consHead_ne_nil _ _
      · simp
      · exact consHead_ne_nil _ _

lemma consHead_eq_singleton {c : Char} {x : List Char} {ps : List (List Char)} (hne : ps ≠ [])
    (h : consHead c ps = [c :: x]) : ps = [x] := by
  cases ps with
  | nil => exact absurd rfl hne
  | cons p ps =>
    obtain ⟨hp, rfl⟩ := List.cons.inj h
    rw [(List.cons.inj hp).2]

/-- What follows a part without a comma. -/
lemma splitCommasFrom_append {x y : List Char} {depth : ℕ} {quote : Option Char}
    (hf : follow depth quote x = some (0, none)) (hx : splitCommasFrom depth quote x = [x]) :
    splitCommasFrom depth quote (x ++ ',' :: y) = x :: splitTopLevelCommas y := by
  induction x generalizing depth quote with
  | nil =>
    obtain ⟨rfl, rfl⟩ : depth = 0 ∧ quote = none := by simpa [follow] using hf
    simp [splitCommasFrom, splitTopLevelCommas]
  | cons c x ih =>
    rw [List.cons_append]
    cases quote with
    | some q =>
      rw [splitCommasFrom] at hx ⊢
      rw [ih hf (consHead_eq_singleton (splitCommasFrom_ne_nil _ _ _) hx)]
      rfl
    | none =>
      simp only [follow] at hf
      rw [splitCommasFrom] at hx ⊢
      split_ifs at hf hx ⊢
      · rw [ih hf (consHead_eq_singleton (splitCommasFrom_ne_nil _ _ _) hx)]
        rfl
      · have hx := consHead_eq_singleton (splitCommasFrom_ne_nil _ _ _) hx
        have ih := ih hf (by exact_mod_cast hx)
        rw [Nat.cast_add, Nat.cast_one] at ih
        rw [ih]
        rfl
      · cases depth with
        | zero => cases hf
        | succ depth =>
          have hd : ((depth + 1 : ℕ) : ℤ) - 1 = depth := by
            rw [Nat.cast_add, Nat.cast_one, add_sub_cancel_right]
          rw [hd] at hx ⊢
          rw [ih hf (consHead_eq_singleton (splitCommasFrom_ne_nil _ _ _) hx)]
          rfl
      · cases hx
      · rw [ih hf (consHead_eq_singleton (splitCommasFrom_ne_nil _ _ _) hx)]
        rfl

/-- **A comma ends a part without one.** -/
theorem splitTopLevelCommas_append {x : List Char} (hx : Closed x)
    (hno : splitTopLevelCommas x = [x]) (y : List Char) :
    splitTopLevelCommas (x ++ ',' :: y) = x :: splitTopLevelCommas y := by
  have hf : follow 0 none x = some (0, none) := hx
  exact splitCommasFrom_append hf hno

/-- A text without commas, quotes and parentheses starts the first part. -/
lemma splitTopLevelCommas_ordinary {x y z : List Char}
    (hx : ∀ c ∈ x, c ≠ '\'' ∧ c ≠ '"' ∧ c ≠ '(' ∧ c ≠ ')' ∧ c ≠ ',')
    (hy : splitTopLevelCommas y = [z]) : splitTopLevelCommas (x ++ y) = [x ++ z] := by
  induction x with
  | nil => exact hy
  | cons c x ih =>
    simp only [List.mem_cons, forall_eq_or_imp] at hx
    obtain ⟨⟨h1, h2, h3, h4, h5⟩, hx⟩ := hx
    have ih := ih hx
    rw [splitTopLevelCommas] at ih ⊢
    rw [List.cons_append, splitCommasFrom, if_neg (not_or.2 ⟨h1, h2⟩), if_neg h3, if_neg h4,
      if_neg (fun h => h5 h.1), ih]
    rfl

end DbSaci.Translate
