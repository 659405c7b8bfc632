import DbSaci.Translate.CommaParts

set_option relaxedAutoImplicit false
set_option autoImplicit false

/-!
# The first call of a function

Several passes look for the first place where the name of a function stands with a parenthesis
behind it, in any letter case, and read the call up to the parenthesis that closes it. What comes
behind that call they do not look at.

## Main definitions

* `findCall` — the first call of a function.
* `behindWord` — the text behind a word that is written in one of two ways.

## Main results

* `findCall_append` — it is found where it stands.
-/

namespace DbSaci.Translate

open Text

/-- Where the first call of a function starts, and how far behind its name it is closed. -/
def findCall (name sql : List Char) : Option (ℕ × ℕ) :=
  match find (name ++ ['(']) (upper sql) with
  | none => none
  | some start => (matchingParen (sql.drop (start + name.length))).map (start, ·)

/-- `strip_prefix(capital).or_else(|| strip_prefix(small))`. -/
def behindWord (capital small s : List Char) : Option (List Char) :=
  if capital <+: s ∨ small <+: s then some (s.drop capital.length) else none

/-- A pattern is found where it stands if its last letter does not come before in it. -/
lemma find_append_last {c : Char} {w : List Char} (hc : c ∉ w) (a b : List Char)
    (hfree : ¬ w ++ [c] <:+: a) : find (w ++ [c]) (a ++ (w ++ c :: b)) = some a.length := by
  have htext : w ++ c :: b = (w ++ [c]) ++ b := by simp
  induction a with
  | nil =>
    have hp : (w ++ [c]).isPrefixOf (w ++ c :: b) = true := by
      rw [htext]
      exact List.isPrefixOf_iff_prefix.2 (List.prefix_append _ b)
    obtain ⟨d, s, hs⟩ : ∃ d s, w ++ c :: b = d :: s :=
      List.exists_cons_of_ne_nil (by simp)
    rw [hs] at hp
    rw [List.nil_append, hs, find, if_pos hp, List.length_nil]
  | cons x a ih =>
    have hp : ¬ w ++ [c] <+: x :: (a ++ (w ++ c :: b)) := by
      rw [← List.cons_append]
      intro h
      rcases Nat.lt_or_ge (x :: a).length (w ++ [c]).length with hlt | hge
      · -- the last letter of the pattern would stand in the word that follows
        obtain ⟨r, hr⟩ := List.prefix_of_prefix_length_le (List.prefix_append _ _) h hlt.le
        rw [List.length_append, List.length_singleton] at hlt
        obtain ⟨r, rfl⟩ : ∃ r', r = r' ++ [c] := by
          rcases List.eq_nil_or_concat r with rfl | ⟨r', d, rfl⟩
          · have hlen := congrArg List.length hr
            rw [List.append_nil, List.length_append, List.length_singleton] at hlen
            omega
          · rw [List.concat_eq_append, ← List.append_assoc] at hr
            obtain ⟨-, hd⟩ := List.append_inj' hr rfl
            rw [List.concat_eq_append, hd]
            exact ⟨r', rfl⟩
        rw [← hr, List.prefix_append_right_inj] at h
        have hlen := congrArg List.length hr
        simp only [List.length_append, List.length_cons, List.length_nil] at hlen
        have hle : (r ++ [c]).length ≤ w.length := by
          rw [List.length_append, List.length_singleton]
          omega
        have hw : r ++ [c] <+: w := List.prefix_of_prefix_length_le h (List.prefix_append _ _) hle
        exact hc (hw.subset (by simp))
      · exact hfree (List.prefix_of_prefix_length_le h (List.prefix_append _ _) hge).isInfix
    have ha : ¬ w ++ [c] <:+: a := fun h => hfree (h.trans (List.suffix_cons x a).isInfix)
    rw [List.cons_append, find, if_neg fun h => hp (List.isPrefixOf_iff_prefix.1 h), ih ha]
    rfl

/-- **The first call is found where it stands**, with all that stands in its parentheses. -/
theorem findCall_append {name front spelled inner : List Char} (hname : '(' ∉ name)
    (hspelled : upper spelled = name) (hfree : Without (name ++ ['(']) front)
    (hinner : Closed inner) (behind : List Char) :
    findCall name (front ++ (spelled ++ '(' :: (inner ++ ')' :: behind))) =
      some (front.length, inner.length + 1) := by
  have hfind : find (name ++ ['(']) (upper (front ++ (spelled ++ '(' :: (inner ++ ')' :: behind)))) =
      some front.length := by
    rw [upper_append, upper_append, upper_cons, hspelled, ← length_upper front]
    exact find_append_last hname _ _ hfree
  have hlen : name.length = spelled.length := by
    rw [← hspelled, length_upper]
  have hdrop : (front ++ (spelled ++ '(' :: (inner ++ ')' :: behind))).drop
      (front.length + name.length) = '(' :: (inner ++ ')' :: behind) := by
    rw [hlen, ← List.append_assoc, ← List.length_append, List.drop_left]
  rw [findCall, hfind]
  simp only [hdrop, matchingParen_closed hinner, Option.map_some]

section Cut

variable (front spelled inner behind : List Char)

/-- What stands in front of a call. -/
lemma take_call : (front ++ (spelled ++ '(' :: (inner ++ ')' :: behind))).take front.length =
    front := List.take_left

/-- What stands in the parentheses of a call. -/
lemma inner_call : ((front ++ (spelled ++ '(' :: (inner ++ ')' :: behind))).take
    (front.length + spelled.length + (inner.length + 1))).drop
      (front.length + spelled.length + 1) = inner := by
  have htext : front ++ (spelled ++ '(' :: (inner ++ ')' :: behind)) =
      (front ++ (spelled ++ ['('])) ++ (inner ++ ')' :: behind) := by simp
  have hlen : front.length + spelled.length + 1 = (front ++ (spelled ++ ['('])).length := by
    simp only [List.length_append, List.length_singleton]
    omega
  have hsum : front.length + spelled.length + (inner.length + 1) =
      (front ++ (spelled ++ ['('])).length + inner.length := by
    rw [← hlen]
    omega
  rw [htext, hlen, hsum, List.take_length_add_append, List.take_left, List.drop_left]

/-- What stands behind a call. -/
lemma drop_call : (front ++ (spelled ++ '(' :: (inner ++ ')' :: behind))).drop
    (front.length + spelled.length + (inner.length + 1) + 1) = behind := by
  have htext : front ++ (spelled ++ '(' :: (inner ++ ')' :: behind)) =
      (front ++ (spelled ++ '(' :: (inner ++ [')']))) ++ behind := by simp
  have hlen : front.length + spelled.length + (inner.length + 1) + 1 =
      (front ++ (spelled ++ '(' :: (inner ++ [')']))).length := by
    simp only [List.length_append, List.length_cons, List.length_nil]
    omega
  rw [htext, hlen, List.drop_left]

/-- A text in parentheses, and what stands behind it. -/
lemma take_parens : ('(' :: (inner ++ ')' :: behind)).take (inner.length + 1 + 1) =
    '(' :: (inner ++ [')']) := by
  have htext : '(' :: (inner ++ ')' :: behind) = ('(' :: (inner ++ [')'])) ++ behind := by simp
  have hlen : inner.length + 1 + 1 = ('(' :: (inner ++ [')'])).length := by simp
  rw [htext, hlen, List.take_left]

lemma drop_parens : ('(' :: (inner ++ ')' :: behind)).drop (inner.length + 1 + 1) = behind := by
  have htext : '(' :: (inner ++ ')' :: behind) = ('(' :: (inner ++ [')'])) ++ behind := by simp
  have hlen : inner.length + 1 + 1 = ('(' :: (inner ++ [')'])).length := by simp
  rw [htext, hlen, List.drop_left]

end Cut

/-- A word of letters has no white space around it. -/
lemma trimmed_of_upper {word s : List Char} (hne : word ≠ [])
    (hword : ∀ c ∈ word, isSpace c = false) (h : upper s = word) : Trimmed s := by
  have hspace := not_isSpace_of_upper hword h
  have hs : s ≠ [] := by
    rintro rfl
    exact hne h.symm
  exact ⟨hs, hspace _ (List.head_mem hs), hspace _ (List.getLast_mem hs)⟩

/-- Nothing is found without a call. -/
lemma findCall_none {name sql : List Char} (h : Without (name ++ ['(']) sql) :
    findCall name sql = none := by
  have hfind : ∀ s : List Char, ¬ name ++ ['('] <:+: s → find (name ++ ['(']) s = none := by
    intro s hs
    induction s with
    | nil => rw [find, if_neg (by simp)]
    | cons c s ih =>
      have hpre : ¬ (name ++ ['(']).isPrefixOf (c :: s) = true := fun hp =>
        hs (List.isPrefixOf_iff_prefix.1 hp).isInfix
      rw [find, if_neg hpre, ih fun hi => hs (hi.trans (List.suffix_cons c s).isInfix)]
      rfl
  rw [findCall, hfind _ h]

lemma behindWord_capital {capital : List Char} (small s : List Char) :
    behindWord capital small (capital ++ s) = some s := by
  rw [behindWord, if_pos (Or.inl (List.prefix_append _ _)), List.drop_left]

lemma behindWord_small {capital small : List Char} (h : capital.length = small.length)
    (s : List Char) : behindWord capital small (small ++ s) = some s := by
  rw [behindWord, if_pos (Or.inr (List.prefix_append _ _)), h, List.drop_left]

/-- Of a word, only the two ways are read. -/
lemma behindWord_none {capital small word : List Char} (hlen : capital.length = word.length)
    (hsmall : small.length = word.length) (hne : word ≠ capital ∧ word ≠ small) (s : List Char) :
    behindWord capital small (word ++ s) = none := by
  have hpre : ∀ {v : List Char}, v.length = word.length → v <+: word ++ s → v = word := by
    intro v hv h
    exact (List.prefix_of_prefix_length_le h (List.prefix_append word s) hv.le).eq_of_length hv
  rw [behindWord, if_neg]
  rintro (h | h)
  · exact hne.1 (hpre hlen h).symm
  · exact hne.2 (hpre hsmall h).symm

/-- A list with commas in between is closed. -/
lemma closed_intercalate {xs : List (List Char)} (h : ∀ x ∈ xs, Part x) :
    Closed ([','].intercalate xs) := by
  have hcomma : Closed [','] := closed_of_ordinary (by decide)
  induction xs with
  | nil => exact closed_of_ordinary (by simp [List.intercalate])
  | cons x xs ih =>
    have hx := (h x List.mem_cons_self).closed
    cases xs with
    | nil =>
      rw [List.intercalate_singleton]
      exact hx
    | cons y xs =>
      have ih := ih fun z hz => h z (List.mem_cons_of_mem x hz)
      have htext : [','].intercalate (x :: y :: xs) =
          x ++ ([','] ++ [','].intercalate (y :: xs)) := by
        simp [List.intercalate]
      rw [htext]
      exact hx.append (hcomma.append ih)

end DbSaci.Translate
