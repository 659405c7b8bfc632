import DbSaci.Library.Text

set_option relaxedAutoImplicit false
set_option autoImplicit false

/-!
# The last words of a text

What a text ends with: its last word between white space, and a keyword in any letter case.

## Main definitions

* `lastWord`, `beforeLast` — the last word, and what stands in front of it.
* `stripSuffix` — a text in front of what it ends with.
* `EndWord` — a keyword with the white space in front of it.

## Main results

* `lastWord_keyword`, `beforeLast_keyword` — a keyword is the last word.
* `suffix_word_iff` — what ends with a blank and a word.
* `exists_of_suffix_upper` — the text behind what its capitals end with.
-/

namespace Text

/-- The last word of a text. -/
def lastWord (s : List Char) : List Char := (trimEnd s).rtakeWhile fun c => !isSpace c

/-- What stands in front of the last word, without the white space at its end. -/
def beforeLast (s : List Char) : List Char :=
  trimEnd ((trimEnd s).rdropWhile fun c => !isSpace c)

/-- `strip_suffix`: a text in front of what it ends with. -/
def stripSuffix (suffix s : List Char) : Option (List Char) :=
  if suffix <:+ s then some (s.take (s.length - suffix.length)) else none

/-- A keyword with the white space in front of it, in any letter case. -/
structure EndWord (word : List Char) where
  gap : List Char
  blank : Char
  text : List Char
  isGap : Gap gap
  isBlank : blank.isWhitespace = true
  spelled : upper text = word

/-- The keyword as it is written. -/
def EndWord.written {word : List Char} (k : EndWord word) : List Char := k.gap ++ k.blank :: k.text

/-! ### Words -/

/-- A word: characters that are no white space. -/
structure Word (w : List Char) : Prop where
  ne_nil : w ≠ []
  solid : ∀ c ∈ w, isSpace c = false

instance (w : List Char) : Decidable (Word w) :=
  decidable_of_iff (w ≠ [] ∧ ∀ c ∈ w, isSpace c = false)
    ⟨fun h => ⟨h.1, h.2⟩, fun h => ⟨h.ne_nil, h.solid⟩⟩

lemma EndWord.isWord {word : List Char} (k : EndWord word) (h : Word word) : Word k.text where
  ne_nil := by
    rintro heq
    apply h.ne_nil
    rw [← k.spelled, heq]
    rfl
  solid := not_isSpace_of_upper h.solid k.spelled

/-- A word ends with a character that is no white space. -/
lemma Word.exists_concat {w : List Char} (hw : Word w) :
    ∃ v c, w = v ++ [c] ∧ isSpace c = false :=
  ⟨w.dropLast, w.getLast hw.ne_nil, (List.dropLast_append_getLast hw.ne_nil).symm,
    hw.solid _ (List.getLast_mem hw.ne_nil)⟩

/-- A text that ends with a word is not trimmed at its end. -/
lemma trimEnd_word {w : List Char} (hw : Word w) (x : List Char) : trimEnd (x ++ w) = x ++ w := by
  obtain ⟨v, c, rfl, hc⟩ := hw.exists_concat
  have hlast : (x ++ (v ++ [c])).getLast? = some c := by
    rw [← List.append_assoc, List.getLast?_append_cons]
    rfl
  have h := trimEnd_append hlast hc []
  have hnil : trimEnd [] = [] := rfl
  rwa [hnil, List.append_nil] at h

/-- The characters behind the last white space. -/
lemma rtakeWhile_word {c : Char} (hc : isSpace c = true) {w : List Char}
    (hw : ∀ d ∈ w, isSpace d = false) (x : List Char) :
    (x ++ c :: w).rtakeWhile (fun d => !isSpace d) = w := by
  induction w using List.reverseRecOn with
  | nil => exact List.rtakeWhile_concat_neg _ _ _ (by rw [hc]; decide)
  | append_singleton w d ih =>
    have hd : isSpace d = false := hw d (List.mem_append_right w List.mem_cons_self)
    have htext : x ++ c :: (w ++ [d]) = (x ++ c :: w) ++ [d] := by simp
    rw [htext, List.rtakeWhile_concat_pos _ _ _ (by rw [hd]; rfl),
      ih fun e he => hw e (List.mem_append_left _ he)]

/-- The characters up to the last white space. -/
lemma rdropWhile_word {c : Char} (hc : isSpace c = true) {w : List Char}
    (hw : ∀ d ∈ w, isSpace d = false) (x : List Char) :
    (x ++ c :: w).rdropWhile (fun d => !isSpace d) = x ++ [c] := by
  have h := List.rdropWhile_append_rtakeWhile (l := x ++ c :: w) (p := fun d => !isSpace d)
  rw [rtakeWhile_word hc hw] at h
  have htext : x ++ c :: w = (x ++ [c]) ++ w := by simp
  rw [htext] at h ⊢
  exact List.append_cancel_right h

section Keywords

variable {word : List Char} (k : EndWord word) (h : Word word) (x : List Char)

include h in
lemma trimEnd_keyword : trimEnd (x ++ k.written) = x ++ k.written := by
  have htext : x ++ k.written = (x ++ (k.gap ++ [k.blank])) ++ k.text := by simp [EndWord.written]
  rw [htext]
  exact trimEnd_word (k.isWord h) _

include h in
/-- **A keyword is the last word.** -/
theorem lastWord_keyword : lastWord (x ++ k.written) = k.text := by
  rw [lastWord, trimEnd_keyword k h, EndWord.written, ← List.append_assoc]
  exact rtakeWhile_word (isSpace_of_isWhitespace k.isBlank) (k.isWord h).solid _

include h in
/-- **What stands in front of a keyword.** -/
theorem beforeLast_keyword : beforeLast (x ++ k.written) = trimEnd x := by
  rw [beforeLast, trimEnd_keyword k h, EndWord.written, ← List.append_assoc,
    rdropWhile_word (isSpace_of_isWhitespace k.isBlank) (k.isWord h).solid, List.append_assoc]
  apply trimEnd_gap
  intro c hc
  rcases List.mem_append.1 hc with hc | hc
  · exact k.isGap c hc
  · rw [List.mem_singleton.1 hc]
    exact k.isBlank

end Keywords

/-! ### What a text ends with -/

/-- **What ends with a blank and a word.** -/
theorem suffix_word_iff {u v w z : List Char} {c : Char} (hc : isSpace c = true)
    (hv : ∀ d ∈ v, isSpace d = false) (hw : ∀ d ∈ w, isSpace d = false) :
    u ++ ' ' :: v <:+ z ++ c :: w ↔ v = w ∧ c = ' ' ∧ u <:+ z := by
  constructor
  · rintro ⟨y, hy⟩
    rw [← List.append_assoc] at hy
    have hword := congrArg (List.rtakeWhile fun d => !isSpace d) hy
    rw [rtakeWhile_word rfl hv, rtakeWhile_word hc hw] at hword
    have hfront := congrArg (List.rdropWhile fun d => !isSpace d) hy
    rw [rdropWhile_word rfl hv, rdropWhile_word hc hw] at hfront
    obtain ⟨hz, hblank⟩ := List.append_inj' hfront rfl
    obtain ⟨rfl, -⟩ := List.cons.inj hblank
    exact ⟨hword, rfl, ⟨y, hz⟩⟩
  · rintro ⟨rfl, rfl, y, rfl⟩
    exact ⟨y, by rw [List.append_assoc]⟩

/-- **The text behind what its capitals end with.** -/
theorem exists_of_suffix_upper {w s : List Char} (h : w <:+ upper s) :
    ∃ z v, s = z ++ v ∧ upper v = w := by
  obtain ⟨y, hy⟩ := h
  obtain ⟨z, v, rfl, -, hv⟩ := List.map_eq_append_iff.1 hy.symm
  exact ⟨z, v, rfl, hv⟩

/-- A text that ends in a gap does not end in a word. -/
lemma not_suffix_of_blank {v z : List Char} {c : Char} (hc : isSpace c = true) (hv : Word v)
    (u : List Char) : ¬ u ++ v <:+ z ++ [c] := by
  rintro ⟨y, hy⟩
  obtain ⟨w, d, rfl, hd⟩ := hv.exists_concat
  have htext : y ++ (u ++ (w ++ [d])) = (y ++ (u ++ w)) ++ [d] := by simp
  rw [htext] at hy
  obtain ⟨-, hlast⟩ := List.append_inj' hy rfl
  obtain ⟨rfl, -⟩ := List.cons.inj hlast
  rw [hc] at hd
  cases hd

lemma stripSuffix_append (x suffix : List Char) : stripSuffix suffix (x ++ suffix) = some x := by
  rw [stripSuffix, if_pos (List.suffix_append x suffix)]
  simp

lemma stripSuffix_eq_none {suffix s : List Char} (h : ¬ suffix <:+ s) :
    stripSuffix suffix s = none := if_neg h

/-- A character whose capital is a blank is one. -/
lemma eq_of_toUpper_blank {c : Char} (h : c.toUpper = ' ') : c = ' ' := by
  rcases toUpper_cases c with hc | ⟨-, hc⟩
  · rwa [hc] at h
  · rw [h] at hc
    cases hc

/-- A text whose capitals start with a blank. -/
lemma eq_of_upper_blank {v w : List Char} (h : upper v = ' ' :: w) :
    ∃ t, v = ' ' :: t ∧ upper t = w := by
  cases v with
  | nil => cases h
  | cons c t =>
    obtain ⟨hc, ht⟩ := List.cons.inj h
    exact ⟨t, by rw [eq_of_toUpper_blank hc], ht⟩

end Text
