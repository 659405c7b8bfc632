import Mathlib.Data.List.DropRight
import Mathlib.Data.List.Infix
import Mathlib.Data.List.TakeWhile
import Mathlib.Tactic.NormNum
import Mathlib.Tactic.Ring

set_option relaxedAutoImplicit false
set_option autoImplicit false

/-!
# Searching and cutting texts

A text is a list of characters. Keywords are searched without regard to ASCII letter case, and
parentheses are matched outside quoted parts.

## Main definitions

* `Text.upper`, `Text.startsWith`, `Text.find` — letter case, prefixes and searching.
* `Text.Quiet` — a word does not start in a text.
* `Text.occurrences` — how often a word starts in a text.
* `Text.isSpace`, `Text.trimStart`, `Text.trim` — white space.
* `Text.solid` — the other characters of a text.
* `Text.matchingParen` — where the first parenthesis that is closed is closed.
* `Text.Closed` — every parenthesis and every quote in the text is closed in it.

## Main results

* `Text.find_append` — a pattern is found where it stands, unless it occurs before.
* `Text.Quiet.find_append` — a text in which a word does not start is passed by the search.
* `Text.front_eq` — a text is cut at one place, given how many of these are in front.
* `Text.matchingParen_closed` — a closed text in parentheses ends at its parenthesis.
-/

namespace Text

/-- Characters are finitely many; a test of the characters of a text looks at those alone. -/
instance (priority := high) decidableForallMem {p : Char → Prop} [DecidablePred p]
    (s : List Char) : Decidable (∀ c ∈ s, p c) :=
  List.decidableBAll p s

/-! ### Letter case and prefixes -/

/-- The text in ASCII upper case. -/
def upper (s : List Char) : List Char := s.map Char.toUpper

/-- The text starts with a word that is written in upper case, in any letter case. -/
def startsWith (word s : List Char) : Bool := word.isPrefixOf (upper s)

/-- Where a pattern first occurs. -/
def find (p : List Char) : List Char → Option ℕ
  | [] => if p.isEmpty then some 0 else none
  | c :: s => if p.isPrefixOf (c :: s) then some 0 else (find p s).map (· + 1)

@[simp] lemma upper_nil : upper [] = [] := rfl

@[simp] lemma upper_cons (c : Char) (s : List Char) : upper (c :: s) = c.toUpper :: upper s := rfl

@[simp] lemma upper_append (s t : List Char) : upper (s ++ t) = upper s ++ upper t :=
  List.map_append

@[simp] lemma length_upper (s : List Char) : (upper s).length = s.length := List.length_map _

lemma upper_drop (n : ℕ) (s : List Char) : upper (s.drop n) = (upper s).drop n := List.map_drop

/-- A pattern whose first letter does not come again in it cannot overlap itself. -/
lemma not_prefix_of_overlap {c : Char} {t a b : List Char} (hc : c ∉ t) {x : Char}
    (hfree : ¬ c :: t <:+: x :: a) : ¬ c :: t <+: x :: a ++ (c :: t ++ b) := by
  intro h
  rcases Nat.lt_or_ge (x :: a).length (c :: t).length with hlt | hge
  · -- the pattern would reach into the occurrence that follows
    obtain ⟨r, hr⟩ := (List.prefix_of_prefix_length_le (List.prefix_append _ _) h hlt.le)
    have hrne : r ≠ [] := by
      rintro rfl
      rw [List.append_nil] at hr
      exact absurd (congrArg List.length hr) hlt.ne
    have hreach : r <+: c :: (t ++ b) := by
      rw [← List.prefix_append_right_inj (x :: a), hr]
      exact h
    obtain ⟨d, r', rfl⟩ := List.exists_cons_of_ne_nil hrne
    obtain rfl : d = c := (List.cons_prefix_cons.1 hreach).1
    refine hc ?_
    rw [List.cons_append, List.cons.injEq] at hr
    rw [← hr.2]
    exact List.mem_append_right _ List.mem_cons_self
  · exact hfree (List.prefix_of_prefix_length_le h (List.prefix_append _ _) hge).isInfix

/-- **A pattern is found where it stands**, unless it occurs before. -/
theorem find_append {c : Char} {t : List Char} (hc : c ∉ t) (a b : List Char)
    (hfree : ¬ c :: t <:+: a) : find (c :: t) (a ++ (c :: t ++ b)) = some a.length := by
  induction a with
  | nil =>
    have hp : (c :: t).isPrefixOf (c :: (t ++ b)) = true :=
      List.isPrefixOf_iff_prefix.2 (List.prefix_append (c :: t) b)
    simp only [List.nil_append, List.cons_append, find, hp, if_true, List.length_nil]
  | cons x a ih =>
    have hp : ¬ (c :: t).isPrefixOf (x :: (a ++ (c :: t ++ b))) = true := fun h =>
      not_prefix_of_overlap hc hfree (List.isPrefixOf_iff_prefix.1 h)
    have ha : ¬ c :: t <:+: a := fun h => hfree (h.trans (List.suffix_cons x a).isInfix)
    rw [List.cons_append, find, if_neg hp, ih ha]
    rfl

/-- A pattern is found in a text if it is found in a longer one and ends in the text. -/
lemma find_eq_some_iff {p : List Char} (x y : List Char) (i : ℕ) :
    find p x = some i ↔ find p (x ++ y) = some i ∧ i + p.length ≤ x.length := by
  induction x generalizing i with
  | nil =>
    cases p with
    | nil =>
      have hempty : find [] ([] ++ y) = some 0 := by cases y <;> rfl
      rw [hempty, find, if_pos List.isEmpty_nil, Option.some.injEq, List.length_nil]
      omega
    | cons a p => simp [find]
  | cons c x ih =>
    rw [List.cons_append, find, find]
    by_cases hshort : p <+: c :: x
    · have hlong : p.isPrefixOf (c :: (x ++ y)) = true :=
        List.isPrefixOf_iff_prefix.2 (hshort.trans (List.prefix_append (c :: x) y))
      have hle := hshort.length_le
      rw [if_pos (List.isPrefixOf_iff_prefix.2 hshort), if_pos hlong, Option.some.injEq]
      omega
    · have hnot : ∀ hle : p.length ≤ (c :: x).length, ¬ p <+: c :: (x ++ y) := fun hle hlong =>
        hshort (List.prefix_of_prefix_length_le hlong (List.prefix_append (c :: x) y) hle)
      rw [if_neg fun h => hshort (List.isPrefixOf_iff_prefix.1 h)]
      rw [List.length_cons] at hnot ⊢
      by_cases hlong : p <+: c :: (x ++ y)
      · rw [if_pos (List.isPrefixOf_iff_prefix.2 hlong)]
        refine iff_of_false ?_ fun h => hnot (by omega) hlong
        intro h
        obtain ⟨j, hj, -⟩ := Option.map_eq_some_iff.1 h
        have hle := ((ih j).1 hj).2
        exact hnot (by omega) hlong
      · rw [if_neg fun h => hlong (List.isPrefixOf_iff_prefix.1 h), Option.map_eq_some_iff,
          Option.map_eq_some_iff]
        constructor
        · rintro ⟨j, hj, rfl⟩
          obtain ⟨hfind, hle⟩ := (ih j).1 hj
          exact ⟨⟨j, hfind, rfl⟩, by omega⟩
        · rintro ⟨⟨j, hfind, rfl⟩, hle⟩
          exact ⟨j, (ih j).2 ⟨hfind, by omega⟩, rfl⟩

/-! ### ASCII -/

/-- The text consists of ASCII characters. -/
def Ascii (s : List Char) : Prop := ∀ c ∈ s, c.utf8Size = 1

instance (s : List Char) : Decidable (Ascii s) := by
  unfold Ascii
  infer_instance

lemma Ascii.mono {s t : List Char} (ht : Ascii t) (h : s ⊆ t) : Ascii s := fun c hc => ht c (h hc)

lemma Ascii.append {s t : List Char} (hs : Ascii s) (ht : Ascii t) : Ascii (s ++ t) := by
  intro c hc
  rcases List.mem_append.1 hc with h | h
  · exact hs c h
  · exact ht c h

/-- The upper case of a character is the character itself, or both are letters. -/
lemma toUpper_cases (c : Char) :
    c.toUpper = c ∨ (c.isAlpha = true ∧ c.toUpper.isAlpha = true) := by
  by_cases h : 'a'.val ≤ c.val ∧ c.val ≤ 'z'.val
  · right
    have hval : c.toUpper.val = c.val + ('A'.val - 'a'.val) := by
      delta Char.toUpper
      rw [dif_pos h]
    obtain ⟨hlo, hhi⟩ := h
    rw [UInt32.le_iff_toNat_le] at hlo hhi
    change 97 ≤ c.val.toNat at hlo
    change c.val.toNat ≤ 122 at hhi
    have hdiff : ('A'.val - 'a'.val).toNat = 4294967264 := rfl
    have hnat : c.toUpper.val.toNat = c.val.toNat - 32 := by
      rw [hval, UInt32.toNat_add, hdiff]
      omega
    have hlower : c.isLower = true := by
      delta Char.isLower
      simp only [Bool.and_eq_true, decide_eq_true_eq, ge_iff_le,
        UInt32.le_iff_toNat_le]
      exact ⟨hlo, hhi⟩
    have hupper : c.toUpper.isUpper = true := by
      delta Char.isUpper
      simp only [decide_eq_true_eq, ge_iff_le, UInt32.le_iff_toNat_le, hnat]
      change 65 ≤ _ ∧ _ ≤ 90
      omega
    show (c.isUpper || c.isLower) = true ∧ (c.toUpper.isUpper || c.toUpper.isLower) = true
    rw [hlower, hupper]
    exact ⟨Bool.or_true _, Bool.true_or _⟩
  · left
    delta Char.toUpper
    rw [dif_neg h]

/-- Upper case adds no character but letters. -/
lemma mem_of_mem_upper {d : Char} (hd : d.isAlpha = false) {s : List Char} (h : d ∈ upper s) :
    d ∈ s := by
  obtain ⟨c, hc, rfl⟩ := List.mem_map.1 h
  rcases toUpper_cases c with heq | ⟨-, halpha⟩
  · rw [heq]
    exact hc
  · rw [hd] at halpha
    cases halpha

/-! ### Bytes -/

/-- How many bytes a text has. -/
def byteLen (s : List Char) : ℕ := (s.map Char.utf8Size).sum

@[simp] lemma byteLen_append (x y : List Char) : byteLen (x ++ y) = byteLen x + byteLen y := by
  simp [byteLen]

/-- A character boundary lies after so many bytes. -/
def isCharBoundary : ℕ → List Char → Bool
  | 0, _ => true
  | _ + 1, [] => false
  | n + 1, c :: s => decide (c.utf8Size ≤ n + 1) && isCharBoundary (n + 1 - c.utf8Size) s

/-- The parts before and after so many bytes, if a character boundary lies there. -/
def splitAtByte : ℕ → List Char → Option (List Char × List Char)
  | 0, s => some ([], s)
  | _ + 1, [] => none
  | n + 1, c :: s =>
    if c.utf8Size ≤ n + 1 then
      (splitAtByte (n + 1 - c.utf8Size) s).map fun (a, b) => (c :: a, b)
    else none

/-- A text is cut behind the bytes of its first part. -/
lemma splitAtByte_append (a b : List Char) : splitAtByte (byteLen a) (a ++ b) = some (a, b) := by
  induction a with
  | nil =>
    have hzero : byteLen [] = 0 := rfl
    rw [hzero, splitAtByte, List.nil_append]
  | cons c a ih =>
    have hpos := c.utf8Size_pos
    have hlen : byteLen (c :: a) = c.utf8Size + byteLen a := by simp [byteLen]
    obtain ⟨n, hn⟩ : ∃ n, byteLen (c :: a) = n + 1 :=
      Nat.exists_eq_succ_of_ne_zero (by omega)
    have hsub : n + 1 - c.utf8Size = byteLen a := by omega
    rw [hn, List.cons_append, splitAtByte, if_pos (by omega), hsub, ih]
    rfl

/-! ### Where a word starts -/

/-- A word does not occur in the text, in any letter case. -/
def Without (word s : List Char) : Prop := ¬ word <:+: upper s

instance (word s : List Char) : Decidable (Without word s) := by
  unfold Without
  infer_instance

/-- No occurrence of the word starts in the first text when it is followed by the second. -/
def Quiet (word : List Char) : List Char → List Char → Prop
  | [], _ => True
  | c :: x, y => startsWith word (c :: (x ++ y)) = false ∧ Quiet word x y

namespace Quiet

variable {word x y z : List Char}

lemma append (hx : Quiet word x (y ++ z)) (hy : Quiet word y z) : Quiet word (x ++ y) z := by
  induction x with
  | nil => exact hy
  | cons c x ih => exact ⟨by simpa using hx.1, ih hx.2⟩

/-- Where its first letter does not occur the word does not start. -/
lemma of_ne {d : Char} {w : List Char} (hx : ∀ c ∈ x, c.toUpper ≠ d) (y : List Char) :
    Quiet (d :: w) x y := by
  induction x with
  | nil => trivial
  | cons c x ih =>
    simp only [List.mem_cons, forall_eq_or_imp] at hx
    refine ⟨?_, ih hx.2⟩
    rw [← Bool.not_eq_true, startsWith, List.isPrefixOf_iff_prefix]
    exact fun h => hx.1 (List.cons_prefix_cons.1 h).1.symm

/-- A word that does not occur in a text, and does not go on after it, does not start in it. -/
lemma of_without {d : Char} {w : List Char} (hx : Without (d :: w) x)
    (hy : ∀ c ∈ y.head?, c.toUpper ∉ w) : Quiet (d :: w) x y := by
  induction x with
  | nil => trivial
  | cons c x ih =>
    refine ⟨?_, ih fun h => hx (h.trans (List.suffix_cons _ _).isInfix)⟩
    rw [← Bool.not_eq_true, startsWith, List.isPrefixOf_iff_prefix]
    intro h
    rw [← List.cons_append, upper_append] at h
    rcases Nat.lt_or_ge (upper (c :: x)).length (d :: w).length with hlt | hge
    · -- the word would go on in the text that follows
      obtain ⟨r, hr⟩ := List.prefix_of_prefix_length_le (List.prefix_append _ _) h hlt.le
      rw [← hr, List.prefix_append_right_inj] at h
      cases r with
      | nil =>
        rw [List.append_nil] at hr
        exact absurd (congrArg List.length hr) hlt.ne
      | cons e r =>
        cases y with
        | nil => simp at h
        | cons e' y =>
          obtain rfl : e = e'.toUpper := (List.cons_prefix_cons.1 h).1
          refine hy e' rfl ?_
          rw [upper_cons, List.cons_append] at hr
          rw [← (List.cons.inj hr).2]
          simp
    · exact hx (List.prefix_of_prefix_length_le h (List.prefix_append _ _) hge).isInfix

/-- The search goes on after a text in which the word does not start. -/
lemma find_append (h : Quiet word x y) :
    find word (upper (x ++ y)) = (find word (upper y)).map (· + x.length) := by
  induction x with
  | nil => simp
  | cons c x ih =>
    have hpre : ¬ word.isPrefixOf (upper (c :: (x ++ y))) = true := by
      rw [Bool.not_eq_true]
      exact h.1
    rw [List.cons_append, upper_cons, find, ← upper_cons, if_neg hpre, ih h.2, Option.map_map]
    rfl

/-- A word is found behind a text in which it does not start. -/
lemma find_word (h : Quiet word x (word ++ y)) (hup : upper word = word) (hne : word ≠ []) :
    find word (upper (x ++ (word ++ y))) = some x.length := by
  have hhere : find word (upper (word ++ y)) = some 0 := by
    obtain ⟨c, w, rfl⟩ := List.exists_cons_of_ne_nil hne
    have hpre : (c :: w).isPrefixOf (c :: (w ++ upper y)) = true :=
      List.isPrefixOf_iff_prefix.2 (List.prefix_append (c :: w) (upper y))
    rw [upper_append, hup, List.cons_append, find, if_pos hpre]
  rw [h.find_append, hhere, Option.map_some, Nat.zero_add]

end Quiet

/-- How often a word starts in a text. -/
def occurrences (word : List Char) : List Char → ℕ
  | [] => 0
  | c :: s => (if startsWith word (c :: s) then 1 else 0) + occurrences word s

section Occurrences

variable {word x y : List Char}

lemma occurrences_quiet (h : Quiet word x y) : occurrences word (x ++ y) = occurrences word y := by
  induction x with
  | nil => rfl
  | cons c x ih =>
    rw [List.cons_append, occurrences, if_neg (Bool.eq_false_iff.1 h.1), ih h.2, Nat.zero_add]

lemma occurrences_le_append (word x y : List Char) :
    occurrences word y ≤ occurrences word (x ++ y) := by
  induction x with
  | nil => exact Nat.le_refl _
  | cons c x ih => exact ih.trans (Nat.le_add_left _ _)

lemma occurrences_le_of_suffix (h : x <:+ y) : occurrences word x ≤ occurrences word y := by
  obtain ⟨z, rfl⟩ := h
  exact occurrences_le_append word z x

/-- A text that adds no occurrence is quiet. -/
lemma quiet_of_occurrences_le (h : occurrences word (x ++ y) ≤ occurrences word y) :
    Quiet word x y := by
  induction x with
  | nil => trivial
  | cons c x ih =>
    rw [List.cons_append, occurrences] at h
    have hle := occurrences_le_append word x y
    refine ⟨?_, ih (by omega)⟩
    rw [← Bool.not_eq_true]
    intro hstart
    rw [if_pos hstart] at h
    omega

end Occurrences

/-- Where a pattern last occurs. -/
def rfind (p : List Char) : List Char → Option ℕ
  | [] => if p.isEmpty then some 0 else none
  | c :: s =>
    match rfind p s with
    | some n => some (n + 1)
    | none => if p.isPrefixOf (c :: s) then some 0 else none

/-- The last occurrence of a pattern is found behind any text. -/
lemma rfind_append {p b : List Char} {n : ℕ} (h : rfind p b = some n) (a : List Char) :
    rfind p (a ++ b) = some (a.length + n) := by
  induction a with
  | nil => rw [List.nil_append, h, List.length_nil, Nat.zero_add]
  | cons c a ih =>
    rw [List.cons_append, rfind, ih, List.length_cons, Nat.add_right_comm]

/-! ### White space -/

/-- Unicode white space. -/
def isSpace (c : Char) : Bool :=
  (9 ≤ c.toNat && c.toNat ≤ 13) || c.toNat == 32 || c.toNat == 0x85 || c.toNat == 0xA0 ||
    c.toNat == 0x1680 || (0x2000 ≤ c.toNat && c.toNat ≤ 0x200A) || c.toNat == 0x2028 ||
    c.toNat == 0x2029 || c.toNat == 0x202F || c.toNat == 0x205F || c.toNat == 0x3000

/-- A digit is no white space. -/
lemma isSpace_of_isDigit {c : Char} (h : c.isDigit = true) : isSpace c = false := by
  rw [Char.isDigit, Bool.and_eq_true, decide_eq_true_eq, decide_eq_true_eq] at h
  have hlow : 48 ≤ c.toNat := h.1
  have hhigh : c.toNat ≤ 57 := h.2
  simp only [isSpace]
  rw [← Bool.not_eq_true]
  simp only [Bool.or_eq_true, Bool.and_eq_true, decide_eq_true_eq, beq_iff_eq]
  omega

/-- The text without the white space it starts with. -/
def trimStart (s : List Char) : List Char := s.dropWhile isSpace

/-- The text without the white space it ends with. -/
def trimEnd (s : List Char) : List Char := s.rdropWhile isSpace

/-- The text without white space at its ends. -/
def trim (s : List Char) : List Char := trimEnd (trimStart s)

/-- The first word of a text between white space, and what follows it. -/
def nextWord (s : List Char) : Option (List Char × List Char) :=
  if trimStart s = [] then none
  else
    some ((trimStart s).takeWhile fun c => !isSpace c, (trimStart s).dropWhile fun c => !isSpace c)

/-- White space between words: blanks, tabs and line ends. -/
def Gap (g : List Char) : Prop := ∀ c ∈ g, c.isWhitespace = true

instance (g : List Char) : Decidable (Gap g) := by
  unfold Gap
  infer_instance

lemma isWhitespace_cases {c : Char} (h : c.isWhitespace = true) :
    c = ' ' ∨ c = '\t' ∨ c = '\r' ∨ c = '\n' := by
  simpa [Char.isWhitespace, or_assoc] using h

lemma isSpace_of_isWhitespace {c : Char} (h : c.isWhitespace = true) : isSpace c = true := by
  rcases isWhitespace_cases h with rfl | rfl | rfl | rfl <;> rfl

/-- White space is no letter. -/
lemma toUpper_of_isSpace {c : Char} (h : isSpace c = true) : c.toUpper = c := by
  delta Char.toUpper
  rw [dif_neg]
  rintro ⟨hlo, hhi⟩
  rw [UInt32.le_iff_toNat_le] at hlo hhi
  change 97 ≤ c.toNat at hlo
  change c.toNat ≤ 122 at hhi
  simp only [isSpace, Bool.or_eq_true, Bool.and_eq_true, decide_eq_true_eq, beq_iff_eq] at h
  omega

/-- The text neither starts nor ends with white space, and is not empty. -/
def Trimmed (s : List Char) : Prop :=
  ∃ h : s ≠ [], isSpace (s.head h) = false ∧ isSpace (s.getLast h) = false

lemma trimStart_gap {g : List Char} (hg : Gap g) (s : List Char) :
    trimStart (g ++ s) = trimStart s :=
  List.dropWhile_append_of_pos fun c hc => isSpace_of_isWhitespace (hg c hc)

lemma trimStart_of_head {c : Char} (h : isSpace c = false) (s : List Char) :
    trimStart (c :: s) = c :: s := by
  simp [trimStart, h]

lemma trimEnd_gap {g : List Char} (hg : Gap g) (s : List Char) : trimEnd (s ++ g) = trimEnd s := by
  rw [trimEnd, trimEnd, List.rdropWhile, List.rdropWhile, List.reverse_append,
    List.dropWhile_append_of_pos]
  intro c hc
  exact isSpace_of_isWhitespace (hg c (List.mem_reverse.1 hc))

lemma trimEnd_of_trimmed {s : List Char} (h : Trimmed s) : trimEnd s = s := by
  obtain ⟨hne, -, hlast⟩ := h
  rw [trimEnd, List.rdropWhile_eq_self_iff]
  intro _
  simp [hlast]

lemma trimStart_of_trimmed {s : List Char} (h : Trimmed s) (t : List Char) :
    trimStart (s ++ t) = s ++ t := by
  obtain ⟨hne, hhead, -⟩ := h
  obtain ⟨c, s, rfl⟩ := List.exists_cons_of_ne_nil hne
  exact trimStart_of_head hhead (s ++ t)

/-- A text between digits is trimmed. -/
lemma trim_between {a b : List Char} (ha : a ≠ []) (hb : b ≠ []) (hda : ∀ c ∈ a, c.isDigit = true)
    (hdb : ∀ c ∈ b, c.isDigit = true) (s : List Char) : trim (a ++ (s ++ b)) = a ++ (s ++ b) := by
  have htrimmed : Trimmed (a ++ (s ++ b)) := by
    refine ⟨by simp [ha], ?_, ?_⟩
    · rw [List.head_append_of_ne_nil ha]
      exact isSpace_of_isDigit (hda _ (List.head_mem ha))
    · rw [List.getLast_append_of_ne_nil _ (by simp [hb]), List.getLast_append_of_ne_nil _ hb]
      exact isSpace_of_isDigit (hdb _ (List.getLast_mem hb))
  have hstart := trimStart_of_trimmed htrimmed []
  rw [List.append_nil] at hstart
  rw [trim, hstart, trimEnd_of_trimmed htrimmed]

/-- The white space around a trimmed text is what is trimmed. -/
lemma trim_gaps {g g' s : List Char} (hg : Gap g) (hg' : Gap g') (hs : Trimmed s) :
    trim (g ++ (s ++ g')) = s := by
  rw [trim, trimStart_gap hg, trimStart_of_trimmed hs, trimEnd_gap hg', trimEnd_of_trimmed hs]

lemma trim_gap {g s : List Char} (hg : Gap g) (hs : Trimmed s) : trim (s ++ g) = s := by
  have hnil : Gap [] := fun _ h => absurd h List.not_mem_nil
  exact trim_gaps hnil hg hs

lemma trim_of_trimmed {s : List Char} (h : Trimmed s) : trim s = s := by
  have hnil : Gap [] := fun _ h => absurd h List.not_mem_nil
  have htrim := trim_gap hnil h
  rw [List.append_nil] at htrim
  exact htrim

/-- The characters of a text that are no white space. -/
def solid (s : List Char) : List Char := s.filter fun c => !isSpace c

lemma solid_append (s t : List Char) : solid (s ++ t) = solid s ++ solid t := List.filter_append s t

lemma solid_eq_nil {s : List Char} (h : ∀ c ∈ s, isSpace c = true) : solid s = [] := by
  rw [solid, List.filter_eq_nil_iff]
  intro c hc
  rw [h c hc]
  decide

lemma solid_eq_self {s : List Char} (h : ∀ c ∈ s, isSpace c = false) : solid s = s := by
  rw [solid, List.filter_eq_self]
  intro c hc
  rw [h c hc]
  rfl

lemma solid_trimStart (s : List Char) : solid (trimStart s) = solid s := by
  have hblank : solid (s.takeWhile isSpace) = [] :=
    solid_eq_nil fun c hc => List.mem_takeWhile_imp hc
  calc solid (trimStart s) = solid (s.takeWhile isSpace) ++ solid (trimStart s) := by
        rw [hblank, List.nil_append]
    _ = solid s := by rw [← solid_append, trimStart, List.takeWhile_append_dropWhile]

lemma solid_trimEnd (s : List Char) : solid (trimEnd s) = solid s := by
  have hblank : solid (s.rtakeWhile isSpace) = [] := 
    solid_eq_nil fun c hc => List.mem_rtakeWhile_imp hc
  calc solid (trimEnd s) = solid (trimEnd s) ++ solid (s.rtakeWhile isSpace) := by
        rw [hblank, List.append_nil]
    _ = solid s := by rw [← solid_append, trimEnd, List.rdropWhile_append_rtakeWhile]

/-- White space at the ends is all that is trimmed. -/
lemma solid_trim (s : List Char) : solid (trim s) = solid s := by
  rw [trim, solid_trimEnd, solid_trimStart]

/-- A text in front that ends with no white space stays. -/
lemma trimEnd_append {a : List Char} {c : Char} (h : a.getLast? = some c) (hc : isSpace c = false)
    (s : List Char) : trimEnd (a ++ s) = a ++ trimEnd s := by
  induction s using List.reverseRecOn with
  | nil =>
    obtain ⟨b, rfl⟩ := List.getLast?_eq_some_iff.1 h
    rw [List.append_nil, trimEnd, List.rdropWhile_concat_neg isSpace b c (by rw [hc]; decide),
      trimEnd, List.rdropWhile_nil, List.append_nil]
  | append_singleton s d ih =>
    rw [← List.append_assoc, trimEnd, trimEnd, List.rdropWhile_concat, List.rdropWhile_concat]
    split_ifs
    · exact ih
    · rw [List.append_assoc]

/-- A text that is trimmed starts with no white space. -/
lemma head_trim {s t : List Char} {c : Char} (h : trim s = c :: t) : isSpace c = false := by
  obtain ⟨r, hr⟩ : trim s <+: trimStart s := List.rdropWhile_prefix isSpace _
  rw [h, List.cons_append] at hr
  have hhead := List.head?_dropWhile_not isSpace s
  rw [trimStart] at hr
  rw [← hr] at hhead
  simpa using hhead

/-- It ends with none. -/
lemma trimEnd_concat_ne {s t : List Char} {c : Char} (h : trimEnd s = t ++ [c]) :
    isSpace c = false := by
  have hlast := List.rdropWhile_last_not isSpace s (by
    rw [← trimEnd, h]
    exact List.append_ne_nil_of_right_ne_nil t (List.cons_ne_nil c []))
  have heq : s.rdropWhile isSpace = t ++ [c] := h
  simp only [heq, List.getLast_append_singleton] at hlast
  exact Bool.eq_false_iff.2 hlast

/-- One blank in front is trimmed. -/
lemma trim_blank_cons {c : Char} (hc : isSpace c = false) (s : List Char) :
    trim (' ' :: c :: s) = trimEnd (c :: s) := by
  rw [trim, trimStart, List.dropWhile_cons_of_pos rfl, ← trimStart, trimStart_of_head hc]

/-- Nothing but white space can be added in front of other characters without adding to those. -/
lemma eq_nil_of_solid {f r b s : List Char} {c : Char} (hr : c :: s = r ++ b)
    (hc : isSpace c = false) (hsolid : (solid (f ++ r)).length = (solid f).length) : r = [] := by
  cases r with
  | nil => rfl
  | cons e r =>
    rw [List.cons_append] at hr
    obtain ⟨rfl, -⟩ := List.cons.inj hr
    have hpos : 0 < (solid (c :: r)).length := by
      rw [solid, List.filter_cons_of_pos (by rw [hc]; rfl), List.length_cons]
      exact Nat.succ_pos _
    rw [solid_append, List.length_append] at hsolid
    omega

/-- Where a text is cut in front of such a character goes by the number of those in front. -/
lemma front_eq {f g s t : List Char} {c d : Char} (h : f ++ c :: s = g ++ d :: t)
    (hc : isSpace c = false) (hd : isSpace d = false)
    (hsolid : (solid f).length = (solid g).length) : f = g ∧ c :: s = d :: t := by
  rcases List.append_eq_append_iff.1 h with ⟨r, rfl, hr⟩ | ⟨r, rfl, hr⟩
  · obtain rfl := eq_nil_of_solid hr hc hsolid.symm
    exact ⟨(List.append_nil f).symm, hr⟩
  · obtain rfl := eq_nil_of_solid hr hd hsolid
    exact ⟨List.append_nil g, hr.symm⟩

/-- A word of letters has no white space. -/
lemma not_isSpace_of_upper {word s : List Char} (hword : ∀ c ∈ word, isSpace c = false)
    (h : upper s = word) : ∀ c ∈ s, isSpace c = false := by
  intro c hc
  by_contra hspace
  rw [Bool.not_eq_false] at hspace
  have hmem : c.toUpper ∈ word := h ▸ List.mem_map_of_mem hc
  rw [toUpper_of_isSpace hspace] at hmem
  rw [hword c hmem] at hspace
  cases hspace

/-- A word ends where white space stands. -/
lemma nextWord_append {g w y : List Char} (hg : Gap g) (hne : w ≠ [])
    (hw : ∀ c ∈ w, isSpace c = false) (hy : ∀ c ∈ y.head?, isSpace c = true) :
    nextWord (g ++ (w ++ y)) = some (w, y) := by
  have hstart : trimStart (g ++ (w ++ y)) = w ++ y := by
    obtain ⟨c, w, rfl⟩ := List.exists_cons_of_ne_nil hne
    rw [trimStart_gap hg]
    exact trimStart_of_head (hw c List.mem_cons_self) (w ++ y)
  have hall : ∀ c ∈ w, (!isSpace c) = true := fun c hc => by rw [hw c hc]; rfl
  have htake : (w ++ y).takeWhile (fun c => !isSpace c) = w := by
    rw [List.takeWhile_append_of_pos hall]
    cases y with
    | nil => simp
    | cons c y => simp [hy c rfl]
  have hdrop : (w ++ y).dropWhile (fun c => !isSpace c) = y := by
    rw [List.dropWhile_append_of_pos hall]
    cases y with
    | nil => rfl
    | cons c y => simp [hy c rfl]
  rw [nextWord, hstart, if_neg (List.append_ne_nil_of_left_ne_nil hne y), htake, hdrop]

/-- Texts with commas between them. -/
def commas : List (List Char) → List Char
  | [] => []
  | [x] => x
  | x :: y :: xs => x ++ (", ".toList ++ commas (y :: xs))

/-! ### Parentheses and quotes -/

/-- Where the depth returns to zero at a closing parenthesis, if it does. -/
def matchingParenFrom : ℤ → Option Char → List Char → Option ℕ
  | _, _, [] => none
  | depth, some q, c :: s =>
    (matchingParenFrom depth (if c = q then none else some q) s).map (· + 1)
  | depth, none, c :: s =>
    if c = '\'' ∨ c = '"' then (matchingParenFrom depth (some c) s).map (· + 1)
    else if c = '(' then (matchingParenFrom (depth + 1) none s).map (· + 1)
    else if c = ')' then
      if depth - 1 = 0 then some 0 else (matchingParenFrom (depth - 1) none s).map (· + 1)
    else (matchingParenFrom depth none s).map (· + 1)

/-- Index of the `)` that closes the `(` at the start of the text. -/
def matchingParen (s : List Char) : Option ℕ := matchingParenFrom 0 none s

/-- Follow parentheses and quotes through a text; `none` if a parenthesis is closed that was not
opened in it. -/
def follow : ℕ → Option Char → List Char → Option (ℕ × Option Char)
  | depth, quote, [] => some (depth, quote)
  | depth, some q, c :: s => follow depth (if c = q then none else some q) s
  | depth, none, c :: s =>
    if c = '\'' ∨ c = '"' then follow depth (some c) s
    else if c = '(' then follow (depth + 1) none s
    else if c = ')' then
      match depth with
      | 0 => none
      | depth + 1 => follow depth none s
    else follow depth none s

/-- Every parenthesis and every quote of the text is closed in it. -/
def Closed (s : List Char) : Prop := follow 0 none s = some (0, none)

instance (s : List Char) : Decidable (Closed s) := inferInstanceAs (Decidable (_ = _))

lemma follow_append (x y : List Char) (depth : ℕ) (quote : Option Char) :
    follow depth quote (x ++ y) =
      (follow depth quote x).bind fun reached => follow reached.1 reached.2 y := by
  induction x generalizing depth quote with
  | nil => rfl
  | cons c x ih =>
    cases quote with
    | some q => simp only [List.cons_append, follow, ih]
    | none =>
      simp only [List.cons_append, follow, ih]
      split_ifs
      · rfl
      · rfl
      · cases depth <;> rfl
      · rfl

/-- What a text does to the depth it does everywhere. -/
lemma follow_add {s : List Char} {depth depth' : ℕ} {quote quote' : Option Char}
    (h : follow depth quote s = some (depth', quote')) (k : ℕ) :
    follow (depth + k) quote s = some (depth' + k, quote') := by
  induction s generalizing depth quote with
  | nil =>
    obtain ⟨rfl, rfl⟩ : depth = depth' ∧ quote = quote' := by simpa [follow] using h
    rfl
  | cons c s ih =>
    cases quote with
    | some q => exact ih h
    | none =>
      simp only [follow] at h ⊢
      split_ifs at h ⊢
      · exact ih h
      · rw [Nat.add_right_comm]
        exact ih h
      · cases depth with
        | zero => cases h
        | succ depth =>
          rw [Nat.add_right_comm]
          exact ih h
      · exact ih h

lemma Closed.append {x y : List Char} (hx : Closed x) (hy : Closed y) : Closed (x ++ y) := by
  unfold Closed at *
  rw [follow_append, hx]
  exact hy

lemma Closed.parens {s : List Char} (h : Closed s) : Closed ('(' :: (s ++ [')'])) := by
  have h1 : follow 1 none s = some (1, none) := follow_add h 1
  have hopen : follow 0 none ('(' :: (s ++ [')'])) = follow 1 none (s ++ [')']) := by
    simp [follow]
  rw [Closed, hopen, follow_append, h1]
  simp [follow]

/-- A text without parentheses and quotes is closed. -/
lemma closed_of_ordinary {s : List Char}
    (h : ∀ c ∈ s, c ≠ '\'' ∧ c ≠ '"' ∧ c ≠ '(' ∧ c ≠ ')') : Closed s := by
  induction s with
  | nil => rfl
  | cons c s ih =>
    simp only [List.mem_cons, forall_eq_or_imp] at h
    obtain ⟨⟨h1, h2, h3, h4⟩, hs⟩ := h
    have := ih hs
    unfold Closed at this ⊢
    simpa [follow, h1, h2, h3, h4] using this

/-- A text that is closed from a positive depth on does not return to depth zero. -/
lemma matchingParenFrom_follow (s rest : List Char) (depth : ℕ) (quote : Option Char)
    (h : follow depth quote s = some (0, none)) :
    matchingParenFrom (depth + 1) quote (s ++ rest) =
      (matchingParenFrom 1 none rest).map (· + s.length) := by
  induction s generalizing depth quote with
  | nil =>
    obtain ⟨rfl, rfl⟩ : depth = 0 ∧ quote = none := by simpa [follow] using h
    simp
  | cons c s ih =>
    have hmap : ∀ o : Option ℕ, (o.map (· + s.length)).map (· + 1) =
        o.map (· + (c :: s).length) := by
      intro o
      rw [Option.map_map]
      rfl
    cases quote with
    | some q =>
      simp only [follow] at h
      rw [List.cons_append, matchingParenFrom, ih _ _ h, hmap]
    | none =>
      simp only [follow] at h
      rw [List.cons_append, matchingParenFrom]
      by_cases hq : c = '\'' ∨ c = '"'
      · rw [if_pos hq] at h ⊢
        rw [ih _ _ h, hmap]
      · rw [if_neg hq] at h ⊢
        by_cases ho : c = '('
        · rw [if_pos ho] at h ⊢
          have := ih _ _ h
          rw [Nat.cast_add, Nat.cast_one] at this
          rw [this, hmap]
        · rw [if_neg ho] at h ⊢
          by_cases hc : c = ')'
          · rw [if_pos hc] at h ⊢
            cases depth with
            | zero => simp at h
            | succ depth =>
              have hd : ((depth + 1 : ℕ) : ℤ) + 1 - 1 = (depth : ℤ) + 1 := by push_cast; ring
              rw [hd, if_neg (by omega), ih _ _ h, hmap]
          · rw [if_neg hc] at h ⊢
            rw [ih _ _ h, hmap]

/-- **A closed text in parentheses ends at its parenthesis.** -/
theorem matchingParen_closed {s : List Char} (h : Closed s) (rest : List Char) :
    matchingParen ('(' :: (s ++ ')' :: rest)) = some (s.length + 1) := by
  have hfrom := matchingParenFrom_follow s (')' :: rest) 0 none h
  have hclose : matchingParenFrom 1 none (')' :: rest) = some 0 := by simp [matchingParenFrom]
  rw [hclose, Nat.cast_zero, zero_add, Option.map_some, zero_add] at hfrom
  simp [matchingParen, matchingParenFrom, hfrom]

end Text
