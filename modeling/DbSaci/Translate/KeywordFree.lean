import DbSaci.Translate.TopLevel

set_option relaxedAutoImplicit false
set_option autoImplicit false

/-!
# Texts without a keyword

A text in which a keyword does not stand at depth zero, wherever the text stands between blanks.
Such texts can be put together, and the search for the keyword passes them.

## Main definitions

* `Clear` — the text is closed and has no such keyword.

## Main results

* `Clear.append` — texts with a blank between them.
* `Clear.parens` — what stands in parentheses is not searched.
* `Clear.find` — the keyword is found behind such a text.
* `findKwFrom_longer` — a keyword of two words.
-/

namespace DbSaci.Translate

open Text

/-- A closed text without a keyword at depth zero, if blanks stand around it. -/
structure Clear (kw x : List Char) : Prop where
  closed : Closed x
  free : findKwFrom kw 0 none true (x ++ [' ']) = none

instance (kw x : List Char) : Decidable (Clear kw x) :=
  decidable_of_iff (Closed x ∧ findKwFrom kw 0 none true (x ++ [' ']) = none)
    ⟨fun h => ⟨h.1, h.2⟩, fun h => ⟨h.closed, h.free⟩⟩

/-- A keyword is not found in a text if another one is not found in a longer text, and the other one
stands wherever the one does. -/
lemma findKwFrom_none_of_hits {kw kw' t x : List Char} {depth : ℤ} {quote : Option Char}
    {before : Bool}
    (hhits : ∀ s, startsWith kw' s = true → atBoundary (s.drop kw'.length) = true →
      startsWith kw (s ++ t) = true ∧ atBoundary ((s ++ t).drop kw.length) = true)
    (h : findKwFrom kw depth quote before (x ++ t) = none) :
    findKwFrom kw' depth quote before x = none := by
  induction x generalizing depth quote before with
  | nil => rfl
  | cons c x ih =>
    rw [List.cons_append] at h
    cases quote with
    | some q =>
      rw [findKwFrom, Option.map_eq_none_iff] at h ⊢
      exact ih h
    | none =>
      rw [findKwFrom] at h ⊢
      split_ifs at h ⊢ with hq ho hc hmiss hhit
      · exact Option.map_eq_none_iff.2 (ih (Option.map_eq_none_iff.1 h))
      · exact Option.map_eq_none_iff.2 (ih (Option.map_eq_none_iff.1 h))
      · exact Option.map_eq_none_iff.2 (ih (Option.map_eq_none_iff.1 h))
      · obtain ⟨hdepth, hbefore, hstart, hend⟩ := hmiss
        obtain ⟨hstart', hend'⟩ := hhits _ hstart hend
        exact absurd ⟨hdepth, hbefore, hstart', hend'⟩ hhit
      · exact Option.map_eq_none_iff.2 (ih (Option.map_eq_none_iff.1 h))

/-- A keyword that is not found in front of a blank is not found at the end of the text. -/
lemma findKwFrom_none_of_append {kw x : List Char} {depth : ℤ} {quote : Option Char}
    {before : Bool} (h : findKwFrom kw depth quote before (x ++ [' ']) = none) :
    findKwFrom kw depth quote before x = none := by
  refine findKwFrom_none_of_hits (fun s hstart hend => ?_) h
  rw [startsWith, List.isPrefixOf_iff_prefix] at hstart
  have hlen : kw.length ≤ s.length := by simpa using hstart.length_le
  refine ⟨?_, ?_⟩
  · rw [startsWith, List.isPrefixOf_iff_prefix, upper_append]
    exact hstart.trans (List.prefix_append _ _)
  · rw [List.drop_append_of_le_length hlen]
    cases hdrop : s.drop kw.length with
    | nil => rfl
    | cons d t =>
      rw [hdrop] at hend
      exact hend

/-- A keyword that is not found behind a blank is not found at the start of the text. -/
lemma findKwFrom_none_of_before {kw x : List Char} {depth : ℤ} {quote : Option Char}
    (before : Bool) (h : findKwFrom kw depth quote true x = none) :
    findKwFrom kw depth quote before x = none := by
  cases x with
  | nil => rfl
  | cons c x =>
    cases quote with
    | some q => exact h
    | none =>
      rw [findKwFrom] at h ⊢
      split_ifs at h ⊢ with hq ho hc hmiss hhit
      · exact h
      · exact h
      · exact h
      · exact absurd ⟨hmiss.1, rfl, hmiss.2.2⟩ hhit
      · exact h

namespace Clear

variable {kw x y : List Char} (hkw : ∀ c ∈ kw, isAsciiSpace c = false)

lemma endsInSpace (x : List Char) : EndsInSpace (x ++ [' ']) := by
  intro c hc
  rw [List.getLast?_append_of_ne_nil _ (by simp)] at hc
  cases hc
  rfl

lemma closed_blank (hx : Clear kw x) : Closed (x ++ [' ']) :=
  hx.closed.append (closed_of_ordinary (by decide))

/-- The keyword is not found in the text alone. -/
lemma find_none (hx : Clear kw x) : findTopLevelKw x kw = none :=
  findKwFrom_none_of_before false (findKwFrom_none_of_append hx.free)

lemma lead (hx : Clear kw x) : Lead kw (x ++ [' ']) where
  closed := hx.closed_blank
  free := findKwFrom_none_of_before false hx.free
  space := endsInSpace x

include hkw in
/-- The search passes a text without the keyword and the blank behind it. -/
lemma findKwFrom_pass (hx : Clear kw x) (y : List Char) (before : Bool) :
    findKwFrom kw 0 none before (x ++ ' ' :: y) =
      (findKwFrom kw 0 none true y).map (· + (x.length + 1)) := by
  have hf : follow 0 none (x ++ [' ']) = some (0, none) := hx.closed_blank
  have hpass : findKwFrom kw 0 none before ((x ++ [' ']) ++ y) =
      (findKwFrom kw 0 none (spaceAfter before (x ++ [' '])) y).map (· + (x ++ [' ']).length) :=
    findKwFrom_append hkw hf (findKwFrom_none_of_before before hx.free) (endsInSpace x)
  have hspace : spaceAfter before (x ++ [' ']) = true := by
    simp [spaceAfter, isAsciiSpace]
  rw [hspace, List.append_assoc, List.length_append] at hpass
  exact hpass

include hkw in
/-- **Texts without the keyword** with a blank between them are one. -/
lemma append (hx : Clear kw x) (hy : Clear kw y) : Clear kw (x ++ ' ' :: y) where
  closed := by
    have hblank : Closed (' ' :: y) :=
      (closed_of_ordinary (s := [' ']) (by decide)).append hy.closed
    exact hx.closed.append hblank
  free := by
    rw [List.append_assoc, List.cons_append, hx.findKwFrom_pass hkw, hy.free]
    rfl

/-- **The keyword is found** behind a text without it. -/
theorem find (hkw : ∀ c ∈ kw, isAsciiSpace c = false)
    (hfirst : ∀ c ∈ kw.head?, c ≠ '\'' ∧ c ≠ '"' ∧ c ≠ '(' ∧ c ≠ ')') (hup : upper kw = kw)
    (hne : kw ≠ []) (hx : Clear kw x) (hy : atBoundary y = true) :
    findTopLevelKw (x ++ ' ' :: (kw ++ y)) kw = some (x.length + 1) := by
  have h := findTopLevelKw_append hkw hfirst hup hne hx.lead (by simp) hy
  rw [List.append_assoc, List.length_append] at h
  exact h

end Clear

/-! ### Words and parentheses -/

lemma head_plain {kw : List Char} (h : ∀ c ∈ kw, c ≠ '\'' ∧ c ≠ '"' ∧ c ≠ '(' ∧ c ≠ ')') :
    ∀ c ∈ kw.head?, c ≠ '\'' ∧ c ≠ '"' ∧ c ≠ '(' ∧ c ≠ ')' :=
  fun c hc => h c (List.mem_of_mem_head? hc)

/-- In a word behind its first character no keyword starts. -/
lemma findKwFrom_word {kw w : List Char}
    (hw : ∀ c ∈ w, c ≠ '\'' ∧ c ≠ '"' ∧ c ≠ '(' ∧ c ≠ ')' ∧ isAsciiSpace c = false) :
    findKwFrom kw 0 none false (w ++ [' ']) = none := by
  induction w with
  | nil =>
    rw [List.nil_append, findKwFrom, if_neg (by decide), if_neg (by decide), if_neg (by decide),
      if_neg (fun h => by cases h.2.1)]
    rfl
  | cons c w ih =>
    simp only [List.mem_cons, forall_eq_or_imp] at hw
    obtain ⟨⟨h1, h2, h3, h4, h5⟩, hw⟩ := hw
    rw [List.cons_append, findKwFrom, if_neg (not_or.2 ⟨h1, h2⟩), if_neg h3, if_neg h4,
      if_neg (fun h => by cases h.2.1), h5, ih hw]
    rfl

/-- A keyword that starts a word and ends it is the word. -/
lemma eq_of_hit_word {kw w : List Char} (hw : ∀ c ∈ w, isAsciiSpace c = false)
    (hkw : ∀ c ∈ kw, isAsciiSpace c = false) (hstart : startsWith kw (w ++ [' ']) = true)
    (hend : atBoundary ((w ++ [' ']).drop kw.length) = true) : upper w = kw := by
  rw [startsWith, List.isPrefixOf_iff_prefix, upper_append] at hstart
  rcases List.prefix_concat_iff.1 hstart with h | ⟨t, ht⟩
  · have := hkw ' ' (by rw [h]; simp)
    cases this
  · have hlen : kw.length + t.length = w.length := by
      rw [← List.length_append, ht, length_upper]
    rw [List.drop_append_of_le_length (by omega)] at hend
    cases hdrop : w.drop kw.length with
    | nil =>
      have hle := List.drop_eq_nil_iff.1 hdrop
      have hnil : t = [] := List.eq_nil_of_length_eq_zero (by omega)
      rw [← ht, hnil, List.append_nil]
    | cons d s =>
      have hd : d ∈ w := List.mem_of_mem_drop (by rw [hdrop]; exact List.mem_cons_self)
      have hspace : isAsciiSpace d = true := by
        rw [hdrop] at hend
        exact hend
      rw [hw d hd] at hspace
      cases hspace

/-- **A word that is not the keyword.** -/
lemma clear_word {kw w : List Char}
    (hw : ∀ c ∈ w, c ≠ '\'' ∧ c ≠ '"' ∧ c ≠ '(' ∧ c ≠ ')' ∧ isAsciiSpace c = false)
    (hne : w ≠ []) (hkw : ∀ c ∈ kw, isAsciiSpace c = false) (hdiff : upper w ≠ kw) :
    Clear kw w where
  closed := closed_of_ordinary fun c hc =>
    ⟨(hw c hc).1, (hw c hc).2.1, (hw c hc).2.2.1, (hw c hc).2.2.2.1⟩
  free := by
    obtain ⟨c, w, rfl⟩ := List.exists_cons_of_ne_nil hne
    have hspace : ∀ d ∈ c :: w, isAsciiSpace d = false := fun d hd => (hw d hd).2.2.2.2
    have hmiss : ¬ ((0 : ℤ) = 0 ∧ true = true ∧ startsWith kw (c :: (w ++ [' '])) = true ∧
        atBoundary ((c :: (w ++ [' '])).drop kw.length) = true) := fun h =>
      hdiff (eq_of_hit_word hspace hkw h.2.2.1 h.2.2.2)
    simp only [List.mem_cons, forall_eq_or_imp] at hw
    obtain ⟨⟨h1, h2, h3, h4, h5⟩, hw⟩ := hw
    rw [List.cons_append, findKwFrom, if_neg (not_or.2 ⟨h1, h2⟩), if_neg h3, if_neg h4,
      if_neg hmiss, h5, findKwFrom_word hw]
    rfl

/-- Inside parentheses nothing is found. -/
lemma findKwFrom_follow (kw s rest : List Char) {depth : ℕ} {quote : Option Char} (before : Bool)
    (h : follow depth quote s = some (0, none)) :
    findKwFrom kw (depth + 1) quote before (s ++ ')' :: rest) =
      (findKwFrom kw 0 none false rest).map (· + (s.length + 1)) := by
  have hmap : ∀ (o : Option ℕ) (n : ℕ), (o.map (· + (n + 1))).map (· + 1) =
      o.map (· + (n + 1 + 1)) := by
    intro o n
    rw [Option.map_map]
    rfl
  induction s generalizing depth quote before with
  | nil =>
    obtain ⟨rfl, rfl⟩ : depth = 0 ∧ quote = none := by simpa [follow] using h
    rw [List.nil_append, findKwFrom, if_neg (by decide), if_neg (by decide), if_pos rfl]
    rfl
  | cons c s ih =>
    rw [List.length_cons, ← hmap]
    cases quote with
    | some q =>
      simp only [follow] at h
      rw [List.cons_append, findKwFrom, ih _ h]
    | none =>
      simp only [follow] at h
      rw [List.cons_append, findKwFrom]
      by_cases hq : c = '\'' ∨ c = '"'
      · rw [if_pos hq] at h ⊢
        rw [ih _ h]
      rw [if_neg hq] at h ⊢
      by_cases ho : c = '('
      · rw [if_pos ho] at h ⊢
        have := ih (isAsciiSpace c) h
        rw [Nat.cast_add, Nat.cast_one] at this
        rw [this]
      rw [if_neg ho] at h ⊢
      by_cases hc : c = ')'
      · rw [if_pos hc] at h ⊢
        cases depth with
        | zero => cases h
        | succ depth =>
          have hd : ((depth + 1 : ℕ) : ℤ) + 1 - 1 = (depth : ℤ) + 1 := by
            rw [Nat.cast_add, Nat.cast_one, add_sub_cancel_right]
          rw [hd, ih _ h]
      rw [if_neg hc] at h ⊢
      rw [if_neg (fun hhit => by omega), ih _ h]

/-- **What stands in parentheses is not searched.** -/
theorem Clear.parens {kw x : List Char} (hx : Closed x) : Clear kw ('(' :: (x ++ [')'])) where
  closed := hx.parens
  free := by
    have hinside := findKwFrom_follow kw x [' '] (isAsciiSpace '(') hx
    have hrest : findKwFrom kw 0 none false [' '] = none := findKwFrom_word (w := []) (by simp)
    rw [hrest, Option.map_none, Nat.cast_zero] at hinside
    rw [List.cons_append, List.append_assoc, findKwFrom, if_neg (by decide), if_pos rfl,
      List.singleton_append, hinside]
    rfl

/-! ### Keywords of two words -/

section Longer

variable {kw t : List Char}

/-- Where the longer keyword stands the shorter one does. -/
lemma hit_of_hit_longer {s : List Char} (h : startsWith (kw ++ ' ' :: t) s = true) :
    startsWith kw s = true ∧ atBoundary (s.drop kw.length) = true := by
  rw [startsWith, List.isPrefixOf_iff_prefix] at h ⊢
  refine ⟨(List.prefix_append _ _).trans h, ?_⟩
  obtain ⟨r, hr⟩ := h
  have hdrop : upper (s.drop kw.length) = ' ' :: (t ++ r) := by
    rw [upper_drop, ← hr, List.append_assoc, List.drop_left]
    rfl
  cases hs : s.drop kw.length with
  | nil => rfl
  | cons c s' =>
    rw [hs] at hdrop
    have hup : c.toUpper = ' ' := (List.cons.inj hdrop).1
    have hmem : ' ' ∈ upper [c] := by simp [upper, hup]
    obtain rfl : ' ' = c := List.mem_singleton.1 (mem_of_mem_upper rfl hmem)
    rfl

lemma findKwFrom_longer_none {s : List Char} {depth : ℤ} {quote : Option Char} {before : Bool}
    (h : findKwFrom kw depth quote before s = none) :
    findKwFrom (kw ++ ' ' :: t) depth quote before s = none := by
  rw [← List.append_nil s] at h
  refine findKwFrom_none_of_hits (fun s' hstart _ => ?_) h
  rw [List.append_nil]
  exact hit_of_hit_longer hstart

/-- **A keyword of two words** is found where its first word is found and the second one
follows. -/
theorem findKwFrom_longer {s : List Char} {depth : ℤ} {quote : Option Char} {before : Bool} {n : ℕ}
    (h : findKwFrom kw depth quote before s = some n)
    (hstart : startsWith (kw ++ ' ' :: t) (s.drop n) = true)
    (hend : atBoundary ((s.drop n).drop (kw ++ ' ' :: t).length) = true) :
    findKwFrom (kw ++ ' ' :: t) depth quote before s = some n := by
  induction s generalizing depth quote before n with
  | nil => cases h
  | cons c s ih =>
    have hnext : ∀ {depth quote before},
        (findKwFrom kw depth quote before s).map (· + 1) = some n →
        (findKwFrom (kw ++ ' ' :: t) depth quote before s).map (· + 1) = some n := by
      intro depth quote before hn
      obtain ⟨m, hm, rfl⟩ := Option.map_eq_some_iff.1 hn
      rw [ih hm hstart hend]
      rfl
    cases quote with
    | some q =>
      rw [findKwFrom] at h ⊢
      exact hnext h
    | none =>
      rw [findKwFrom] at h ⊢
      by_cases hq : c = '\'' ∨ c = '"'
      · rw [if_pos hq] at h ⊢
        exact hnext h
      rw [if_neg hq] at h ⊢
      by_cases ho : c = '('
      · rw [if_pos ho] at h ⊢
        exact hnext h
      rw [if_neg ho] at h ⊢
      by_cases hc : c = ')'
      · rw [if_pos hc] at h ⊢
        exact hnext h
      rw [if_neg hc] at h ⊢
      by_cases hhit : depth = 0 ∧ before = true ∧ startsWith kw (c :: s) = true ∧
          atBoundary ((c :: s).drop kw.length) = true
      · rw [if_pos hhit] at h
        obtain rfl : 0 = n := Option.some.inj h
        exact if_pos ⟨hhit.1, hhit.2.1, hstart, hend⟩
      · rw [if_neg hhit] at h
        rw [if_neg, hnext h]
        rintro ⟨h1, h2, h3, -⟩
        obtain ⟨h4, h5⟩ := hit_of_hit_longer h3
        exact hhit ⟨h1, h2, h4, h5⟩

end Longer

end DbSaci.Translate
