import DbSaci.Translate.ReplaceIdentifier

set_option relaxedAutoImplicit false
set_option autoImplicit false

/-!
# The text of a phrase

A text has one phrase, and the word ` SET ` is found in it only if it is one of the words of the
phrase or stands in a quoted part.

## Main definitions

* `Text.Phrase.SetFree` — the phrase has no word `SET`, and no quoted part with it.

## Main results

* `Text.Phrase.text_unique` — a text has one phrase.
* `Text.Phrase.quiet_set` — the text of a phrase without the word `SET` is passed by the search.
-/

namespace Text.Phrase

open DbSaci.Translate

/-! ### A text has one phrase -/

/-- What a text goes on with. -/
inductive Start
  | stop
  | word
  | sym
  | quoted
  | group
  deriving DecidableEq

/-- What a character starts. -/
def startOf : Option Char → Start
  | none => .stop
  | some c =>
    if isWordChar c then .word
    else if c = '\'' ∨ c = '"' then .quoted
    else if c = '(' then .group
    else if c = ')' then .stop
    else .sym

/-- What a phrase starts with. -/
def start : Phrase → Start
  | nil => .stop
  | tok (.word _) _ => .word
  | tok (.sym _) _ => .sym
  | tok (.quoted _ _) _ => .quoted
  | group _ _ => .group

/-- The first character of a text tells what its phrase starts with. -/
lemma startOf_text {p : Phrase} (hp : p.Lexed) {y : List Char} (hy : Ends y) :
    startOf (p.text ++ y).head? = p.start := by
  cases p with
  | nil =>
    cases y with
    | nil => rfl
    | cons c y =>
      obtain rfl := hy c rfl
      rfl
  | group inner rest => rfl
  | tok t rest =>
    cases t with
    | word w =>
      obtain ⟨c, w, rfl⟩ := List.exists_cons_of_ne_nil hp.1
      have hc := hp.2.1 c List.mem_cons_self
      exact if_pos hc
    | sym c =>
      obtain ⟨hc, hsym, -⟩ := hp
      simp only [List.mem_cons, List.not_mem_nil, or_false, not_or] at hsym
      simp [text, Token.text, startOf, start, hc, hsym]
    | quoted q body =>
      have hq : q = '\'' ∨ q = '"' := by simpa using hp.1
      rcases hq with rfl | rfl <;> rfl

/-- A word ends where a character that is in no word stands. -/
lemma word_unique {w w' x x' : List Char} (hw : ∀ c ∈ w, isWordChar c = true)
    (hw' : ∀ c ∈ w', isWordChar c = true) (hx : ∀ c ∈ x.head?, isWordChar c = false)
    (hx' : ∀ c ∈ x'.head?, isWordChar c = false) (h : w ++ x = w' ++ x') : w = w' ∧ x = x' := by
  induction w generalizing w' with
  | nil =>
    cases w' with
    | nil => exact ⟨rfl, h⟩
    | cons d w' =>
      have hd := hw' d List.mem_cons_self
      rw [hx d (by rw [← List.nil_append x, h]; rfl)] at hd
      cases hd
  | cons c w ih =>
    cases w' with
    | nil =>
      have hc := hw c List.mem_cons_self
      rw [hx' c (by rw [← List.nil_append x', ← h]; rfl)] at hc
      cases hc
    | cons d w' =>
      obtain ⟨rfl, htail⟩ := List.cons.inj h
      obtain ⟨rfl, rfl⟩ := ih (fun e he => hw e (List.mem_cons_of_mem _ he))
        (fun e he => hw' e (List.mem_cons_of_mem _ he)) htail
      exact ⟨rfl, rfl⟩

/-- **A text has one phrase.** -/
theorem text_unique {p p' : Phrase} (hp : p.Lexed) (hp' : p'.Lexed) {y y' : List Char}
    (hy : Ends y) (hy' : Ends y') (h : p.text ++ y = p'.text ++ y') : p = p' ∧ y = y' := by
  induction p generalizing p' y y' with
  | nil =>
    have hstart := startOf_text hp hy
    rw [h, startOf_text hp' hy'] at hstart
    cases p' with
    | nil => exact ⟨rfl, h⟩
    | tok t rest => cases t <;> cases hstart
    | group inner rest => cases hstart
  | tok t rest ih =>
    have hstart := startOf_text hp hy
    rw [h, startOf_text hp' hy'] at hstart
    cases p' with
    | nil => cases t <;> cases hstart
    | group inner' rest' => cases t <;> cases hstart
    | tok t' rest' =>
      simp only [text, List.append_assoc] at h
      cases t with
      | word w =>
        cases t' with
        | sym c => cases hstart
        | quoted q body => cases hstart
        | word w' =>
          obtain ⟨-, hw, hnot, hrest⟩ := hp
          obtain ⟨-, hw', hnot', hrest'⟩ := hp'
          obtain ⟨rfl, htail⟩ := word_unique hw hw' (PhraseText.head_not_word hrest hnot hy)
            (PhraseText.head_not_word hrest' hnot' hy') h
          obtain ⟨rfl, rfl⟩ := ih hrest hrest' hy hy' htail
          exact ⟨rfl, rfl⟩
      | sym c =>
        cases t' with
        | word w => cases hstart
        | quoted q body => cases hstart
        | sym c' =>
          obtain ⟨rfl, htail⟩ := List.cons.inj h
          obtain ⟨rfl, rfl⟩ := ih hp.2.2 hp'.2.2 hy hy' htail
          exact ⟨rfl, rfl⟩
      | quoted q body =>
        cases t' with
        | word w => cases hstart
        | sym c => cases hstart
        | quoted q' body' =>
          obtain ⟨hq, hbody, hnot, hrest⟩ := hp
          obtain ⟨hq', hbody', hnot', hrest'⟩ := hp'
          obtain ⟨rfl, htail⟩ := List.cons.inj h
          simp only [List.append_eq, List.append_assoc, List.singleton_append] at htail
          -- both quoted parts end at the first quote that is not doubled
          have hlen := congrArg (skipQuoted q) htail
          rw [skipQuoted_doubled hbody (PhraseText.head_ne_quote hq hrest hnot hy),
            skipQuoted_doubled hbody' (PhraseText.head_ne_quote hq hrest' hnot' hy')] at hlen
          obtain ⟨rfl, hbehind⟩ := List.append_inj htail (Nat.succ.inj hlen)
          obtain ⟨rfl, rfl⟩ := ih hrest hrest' hy hy' (List.cons.inj hbehind).2
          exact ⟨rfl, rfl⟩
  | group inner rest ihi ihr =>
    have hstart := startOf_text hp hy
    rw [h, startOf_text hp' hy'] at hstart
    cases p' with
    | nil => cases hstart
    | tok t' rest' => cases t' <;> cases hstart
    | group inner' rest' =>
      simp only [text, List.cons_append, List.append_assoc] at h
      have hclose : ∀ z, Ends (')' :: z) := by
        rintro z _ ⟨⟩
        rfl
      obtain ⟨rfl, hbehind⟩ := ihi hp.1 hp'.1 (hclose _) (hclose _) (List.cons.inj h).2
      obtain ⟨rfl, rfl⟩ := ihr hp.2 hp'.2 hy hy' (List.cons.inj hbehind).2
      exact ⟨rfl, rfl⟩

/-! ### The word `SET` -/

/-- The phrase has no word `SET`, and no quoted part with it. -/
def SetFree : Phrase → Prop
  | nil => True
  | tok (.word w) rest => upper w ≠ "SET".toList ∧ rest.SetFree
  | tok (.sym _) rest => rest.SetFree
  | tok (.quoted _ body) rest => Without " SET ".toList body ∧ rest.SetFree
  | group inner rest => inner.SetFree ∧ rest.SetFree

/-- `decide` can tell. -/
instance decidableSetFree : ∀ p : Phrase, Decidable p.SetFree
  | nil => inferInstanceAs (Decidable True)
  | tok (.word w) rest =>
    have := decidableSetFree rest
    inferInstanceAs (Decidable (upper w ≠ "SET".toList ∧ rest.SetFree))
  | tok (.sym _) rest => decidableSetFree rest
  | tok (.quoted _ body) rest =>
    have := decidableSetFree rest
    inferInstanceAs (Decidable (Without " SET ".toList body ∧ rest.SetFree))
  | group inner rest =>
    have := decidableSetFree inner
    have := decidableSetFree rest
    inferInstanceAs (Decidable (inner.SetFree ∧ rest.SetFree))

/-- The text of a phrase without the word does not start with it. -/
lemma set_not_prefix {p : Phrase} (hp : p.Lexed) (hset : p.SetFree) {y : List Char}
    (hy : ∀ c ∈ y.head?, c = ')') : ¬ "SET ".toList <+: upper (p.text ++ y) := by
  intro h
  have hhead : startOf (p.text ++ y).head? = .word := by
    cases hs : p.text ++ y with
    | nil =>
      rw [hs] at h
      simp at h
    | cons c s =>
      rw [hs] at h
      have hc : 'S' = c.toUpper := (List.cons_prefix_cons.1 h).1
      have hword : isWordChar c = true := by
        rw [← isWordChar_toUpper, ← hc]
        rfl
      exact if_pos hword
  rw [startOf_text hp hy] at hhead
  cases p with
  | nil => cases hhead
  | group inner rest => cases hhead
  | tok t rest =>
    cases t with
    | sym c => cases hhead
    | quoted q body => cases hhead
    | word w =>
      obtain ⟨-, hw, hnot, hrest⟩ := hp
      obtain ⟨s, hs⟩ := h
      rw [text, Token.text, List.append_assoc, upper_append] at hs
      have hword : ∀ c ∈ upper w, isWordChar c = true := by
        intro c hc
        obtain ⟨d, hd, rfl⟩ := List.mem_map.1 hc
        rw [isWordChar_toUpper]
        exact hw d hd
      have hnext : ∀ c ∈ (upper (rest.text ++ y)).head?, isWordChar c = false := by
        intro c hc
        rw [upper, List.head?_map, Option.mem_map] at hc
        obtain ⟨d, hd, rfl⟩ := hc
        rw [isWordChar_toUpper]
        exact PhraseText.head_not_word hrest hnot hy d hd
      have hsplit : "SET".toList ++ (' ' :: s) = upper w ++ upper (rest.text ++ y) := by
        rw [← hs]
        rfl
      have hblank : ∀ c ∈ (' ' :: s).head?, isWordChar c = false := by
        rintro _ ⟨⟩
        rfl
      exact hset.1 (word_unique (by decide) hword hblank hnext hsplit).1.symm

/-- **The text of a phrase without the word `SET` is passed by the search.** -/
theorem quiet_set {p : Phrase} (hp : p.Lexed) (hset : p.SetFree) {y : List Char} (hy : Ends y) :
    Quiet " SET ".toList p.text y := by
  have hset_eq : " SET ".toList = ' ' :: "SET ".toList := rfl
  rw [hset_eq]
  have hne : ∀ c : Char, c ≠ ' ' → ∀ s, startsWith (' ' :: "SET ".toList) (c :: s) = false := by
    intro c hc s
    rw [← Bool.not_eq_true, startsWith, List.isPrefixOf_iff_prefix]
    intro h
    have hup : ' ' = c.toUpper := (List.cons_prefix_cons.1 h).1
    have hmem : ' ' ∈ upper [c] := by simp [upper, ← hup]
    exact hc (List.mem_singleton.1 (mem_of_mem_upper rfl hmem)).symm
  induction p generalizing y with
  | nil => trivial
  | tok t rest ih =>
    cases t with
    | word w =>
      obtain ⟨-, hw, -, hrest⟩ := hp
      refine Quiet.append (Quiet.of_ne (fun c hc heq => ?_) _) (ih hrest hset.2 hy)
      have hword := hw c hc
      rw [← isWordChar_toUpper, heq] at hword
      cases hword
    | sym c =>
      refine Quiet.append (x := [c]) ⟨?_, trivial⟩ (ih hp.2.2 hset hy)
      rw [List.nil_append]
      by_cases hc : c = ' '
      · subst hc
        rw [← Bool.not_eq_true, startsWith, List.isPrefixOf_iff_prefix]
        intro h
        exact set_not_prefix hp.2.2 hset hy (List.cons_prefix_cons.1 h).2
      · exact hne c hc _
    | quoted q body =>
      obtain ⟨hq, -, -, hrest⟩ := hp
      have hq : q = '\'' ∨ q = '"' := by simpa using hq
      have hblank : q ≠ ' ' := by rcases hq with rfl | rfl <;> decide
      have hbody : Quiet (' ' :: "SET ".toList) body (q :: (rest.text ++ y)) := by
        refine Quiet.of_without hset.1 ?_
        rintro _ ⟨⟩
        rcases hq with rfl | rfl <;> decide
      have hlast : Quiet (' ' :: "SET ".toList) [q] (rest.text ++ y) := ⟨hne q hblank _, trivial⟩
      have hfirst : Quiet (' ' :: "SET ".toList) [q] (body ++ (q :: (rest.text ++ y))) :=
        ⟨hne q hblank _, trivial⟩
      refine Quiet.append ?_ (ih hrest hset.2 hy)
      exact Quiet.append (x := [q]) (by simpa using hfirst) (Quiet.append (by simpa using hbody) hlast)
  | group inner rest ihi ihr =>
    have hclose : Ends (')' :: (rest.text ++ y)) := by
      rintro _ ⟨⟩
      rfl
    have hinner := ihi hp.1 hset.1 hclose
    have hrest := ihr hp.2 hset.2 hy
    have hpar : Quiet (' ' :: "SET ".toList) [')'] (rest.text ++ y) :=
      ⟨hne ')' (by decide) _, trivial⟩
    refine Quiet.append (x := ['(']) ⟨hne '(' (by decide) _, trivial⟩ ?_
    exact Quiet.append hinner (Quiet.append (x := [')']) hpar hrest)

/-- A substitution brings in no more than its phrases. -/
lemma subst_setFree {σ : List Char → Option Phrase} {p : Phrase} (hp : p.SetFree)
    (hσ : ∀ w q, σ w = some q → q.SetFree) : (p.subst σ).SetFree := by
  induction p with
  | nil => trivial
  | tok t rest ih =>
    cases t with
    | word w =>
      rw [subst]
      cases hw : σ w with
      | none => exact ⟨hp.1, ih hp.2⟩
      | some q => exact ⟨hσ w q hw, ih hp.2⟩
    | sym c => exact ih hp
    | quoted q body => exact ⟨hp.1, ih hp.2⟩
  | group inner rest ihi ihr => exact ⟨ihi hp.1, ihr hp.2⟩

end Text.Phrase
