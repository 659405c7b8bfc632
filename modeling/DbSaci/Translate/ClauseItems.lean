import DbSaci.Translate.PhysicalClauses

set_option relaxedAutoImplicit false
set_option autoImplicit false

/-!
# Statements with storage clauses

A statement is a list of tokens and of clauses, and it says itself which of its words belong to a
clause: a table may be called `query_cache`, and `CACHE` in a sequence is no storage clause.

## Main definitions

* `Tok`, `Clause`, `Item` — tokens, storage clauses and both, with their texts.
* `Lexed` — the tokens of a statement are those of its text.
* `expected` — the clauses are left out, and nothing else.
* `Spared` — the condition on a statement.

## Main results

* `firstWord_of_startsKeyword` — at a word, a keyword stands only if it starts with that word.
* `clauseConsumed_valued`, `clauseConsumed_flag` and the like — what the tests give at a keyword.
-/

namespace DbSaci.Translate.Physical

open Text

/-! ### Statements -/

/-- The characters of names. -/
def isNameChar (c : Char) : Bool :=
  isWordByte c || c = '$' || c = '#' || (decide (128 ≤ c.toNat) && !isSpace c)

/-- A name, a number or a keyword; a character between them; a quoted part; and a quoted part that
is not closed. -/
inductive Tok where
  | word (w : List Char)
  | sym (c : Char)
  | quoted (q : Char) (body : List Char)
  | unclosed (q : Char) (body : List Char)

/-- The text of a token. -/
def Tok.text : Tok → List Char
  | word w => w
  | sym c => [c]
  | quoted q body => q :: (body ++ [q])
  | unclosed q body => q :: body

/-- A storage clause or a constraint state: keywords alone, a keyword and its value, `PARALLEL`
without a value, `STORAGE (..)`, `LOB (..) STORE AS (..)`, and `ENABLE` or `DISABLE` with or without
a word behind it. -/
inductive Clause where
  | flag (spelled : List Char)
  | valued (spelled gap value : List Char)
  | parallel (spelled : List Char)
  | storage (spelled gap body : List Char)
  | lob (spelled gap cols gap' store gap'' attrs : List Char)
  | state (spelled : List Char) (follow : Option (List Char × List Char))

/-- The text of a clause. -/
def Clause.text : Clause → List Char
  | flag spelled => spelled
  | valued spelled gap value => spelled ++ (gap ++ value)
  | parallel spelled => spelled
  | storage spelled gap body => spelled ++ (gap ++ '(' :: (body ++ [')']))
  | lob spelled gap cols gap' store gap'' attrs =>
    spelled ++ (gap ++ '(' :: (cols ++ ')' :: (gap' ++ (store ++ (gap'' ++ '(' :: (attrs ++ [')']))))))
  | state spelled follow => spelled ++ follow.elim [] fun f => f.1 ++ f.2

/-- A token or a clause. -/
inductive Item where
  | tok (t : Tok)
  | clause (c : Clause)

/-- The text of it. -/
def Item.text : Item → List Char
  | tok t => t.text
  | clause c => c.text

/-- The text of a statement. -/
def itemsText (items : List Item) : List Char := items.flatMap Item.text

/-- White space. -/
def Spaces (g : List Char) : Prop := ∀ c ∈ g, isSpace c = true

/-- The text does not go on with a name. -/
def NameEnds (rest : List Char) : Prop := ∀ c ∈ rest.head?, isNameChar c = false

/-- A value ends where white space, a comma or a closing parenthesis stands. -/
def isStop (c : Char) : Bool := isSpace c || c = ',' || c = ')'

/-- The token is one of the text, with some text behind it. -/
def Tok.Lexed (rest : List Char) : Tok → Prop
  | word w => w ≠ [] ∧ (∀ c ∈ w, isNameChar c = true) ∧ NameEnds rest
  | sym c => isNameChar c = false ∧ c ≠ '\'' ∧ c ≠ '"'
  | quoted q body => (q = '\'' ∨ q = '"') ∧ Doubled q body ∧ ∀ c ∈ rest.head?, c ≠ q
  | unclosed q body => (q = '\'' ∨ q = '"') ∧ skipQuoted q body = body.length ∧ rest = []

/-- The clause is one of the text, with some text behind it. -/
def Clause.Lexed (rest : List Char) : Clause → Prop
  | flag spelled =>
    upper spelled ∈ "ENABLE ROW MOVEMENT".toList :: flagKeywords ∧ NameEnds rest
  | valued spelled gap value =>
    upper spelled ∈ "SEGMENT CREATION".toList :: valuedKeywords ∧ Spaces gap ∧ gap ≠ [] ∧
      value ≠ [] ∧ (∀ c ∈ value.head?, isSpace c = false) ∧ NameEnds rest
  | parallel spelled => upper spelled = "PARALLEL".toList ∧ NameEnds rest
  | storage spelled gap body => upper spelled = "STORAGE".toList ∧ Spaces gap ∧ Closed body
  | lob spelled gap cols gap' store gap'' attrs =>
    upper spelled = "LOB".toList ∧ Spaces gap ∧ Closed cols ∧ Spaces gap' ∧
      upper store = "STORE AS".toList ∧ Spaces gap'' ∧ Closed attrs
  | state spelled none =>
    upper spelled ∈ ["ENABLE".toList, "DISABLE".toList] ∧ NameEnds rest ∧
      ∀ k ∈ tableLevel ++ followKeywords, startsKeyword k (trimStart rest) = false
  | state spelled (some (gap, follow)) =>
    upper spelled ∈ ["ENABLE".toList, "DISABLE".toList] ∧ Spaces gap ∧ gap ≠ [] ∧
      upper follow ∈ followKeywords ∧ NameEnds rest

/-- The tokens of a statement are those of its text, and behind a clause stands a token. -/
def Lexed : List Item → Prop
  | [] => True
  | .tok t :: rest => t.Lexed (itemsText rest) ∧ Lexed rest
  | .clause c :: rest =>
    c.Lexed (itemsText rest) ∧ (∀ i ∈ rest.head?, ∃ t, i = .tok t) ∧ Lexed rest

/-- The clauses are left out, and nothing else. -/
def expected : List Item → List (Char × Bool)
  | [] => []
  | .tok t :: rest => t.text.map (fun c => (c, true)) ++ expected rest
  | .clause c :: rest => c.text.map (fun c => (c, false)) ++ expected rest

section Spared

variable (alphanumeric : Char → Bool)

/-- The last character behind a text. -/
def lastAfter (last : Option Char) (s : List Char) : Option Char := s.getLast?.or last

/-- No test of the pass is met at a letter of a word. -/
def Quiet (depth : ℤ) (last : Option Char) (w rest : List Char) : Prop :=
  ∀ x y, w = x ++ y → y ≠ [] → consumed alphanumeric depth (lastAfter last x) (y ++ rest) = none

/-- The pass reads the clause: it stands outside parentheses, and if it ends in a value, the value
has no white space, comma or closing parenthesis, and one of these stands behind it; `PARALLEL` alone
stands in front of a comma, of a closing parenthesis or at the end; and a constraint state stands
behind no identifier. -/
def Clause.Read (depth : ℤ) (last : Option Char) (rest : List Char) : Clause → Prop
  | flag _ => depth = 0
  | valued _ _ value =>
    depth = 0 ∧ (∀ c ∈ value, isStop c = false) ∧ ∀ c ∈ rest.head?, isStop c = true
  | parallel _ => depth = 0 ∧ ∀ c ∈ rest.head?, c = ',' ∨ c = ')'
  | storage _ _ _ => depth = 0
  | lob _ _ _ _ _ _ _ => depth = 0
  | state _ _ => atBoundary alphanumeric last = true

/-- **The condition on a statement**: in its words, except those of clauses, no keyword of the pass
is found, and the pass reads its clauses. -/
def Spared : ℤ → Option Char → List Item → Prop
  | _, _, [] => True
  | depth, last, .tok (.word w) :: rest =>
    Quiet alphanumeric depth last w (itemsText rest) ∧ Spared depth (lastAfter last w) rest
  | depth, _, .tok (.sym c) :: rest => Spared (depthAfter depth c) (some c) rest
  | depth, _, .tok (.quoted q _) :: rest => Spared depth (some q) rest
  | _, _, .tok (.unclosed _ _) :: _ => True
  | depth, last, .clause c :: rest =>
    c.Read alphanumeric depth last (itemsText rest) ∧ Spared depth last rest

end Spared

/-! ### Words and keywords -/

/-- The first word of a keyword. -/
def firstWord (k : List Char) : List Char := k.takeWhile isWordByte

lemma isWordByte_toUpper (c : Char) : isWordByte c.toUpper = isWordByte c := by
  rcases toUpper_cases c with h | ⟨h, h'⟩
  · rw [h]
  · simp [isWordByte, Char.isAlphanum, h, h']

lemma takeWhile_word {w t : List Char} (hw : ∀ c ∈ w, isWordByte c = true)
    (ht : ∀ c ∈ t.head?, isWordByte c = false) : (w ++ t).takeWhile isWordByte = w := by
  rw [List.takeWhile_append_of_pos hw]
  cases t with
  | nil => exact List.append_nil w
  | cons c t => rw [List.takeWhile_cons_of_neg (by rw [ht c rfl]; decide), List.append_nil]

lemma head_upper {p : Char → Prop} (hp : ∀ c, p c → p c.toUpper) {t : List Char}
    (h : ∀ c ∈ t.head?, p c) : ∀ c ∈ (upper t).head?, p c := by
  cases t with
  | nil => exact h
  | cons d t =>
    intro c hc
    obtain rfl := Option.some.inj hc
    exact hp d (h d rfl)

/-- **At a word, a keyword stands only if it starts with that word.** -/
theorem firstWord_of_startsKeyword {k w t : List Char} (hw : ∀ c ∈ w, isWordByte c = true)
    (ht : ∀ c ∈ t.head?, isWordByte c = false) (h : startsKeyword k (w ++ t) = true) :
    firstWord k = upper w := by
  rw [startsKeyword, Bool.and_eq_true, startsWith, List.isPrefixOf_iff_prefix] at h
  obtain ⟨⟨r, hr⟩, hend⟩ := h
  have hword : (k ++ r).takeWhile isWordByte = upper w := by
    rw [hr, upper_append]
    apply takeWhile_word
    · intro c hc
      obtain ⟨d, hd, rfl⟩ := List.mem_map.1 hc
      rw [isWordByte_toUpper]
      exact hw d hd
    · exact head_upper (p := fun c => isWordByte c = false)
        (fun c hc => by rw [isWordByte_toUpper]; exact hc) ht
  have hr' : r = upper ((w ++ t).drop k.length) := by
    rw [upper_drop, ← hr, List.drop_left]
  rw [← hword, firstWord]
  by_cases hall : ∀ c ∈ k, isWordByte c = true
  · have hhead : ∀ c ∈ r.head?, isWordByte c = false := by
      rw [hr']
      refine head_upper (p := fun c => isWordByte c = false)
        (fun c hc => by rw [isWordByte_toUpper]; exact hc) ?_
      intro c hc
      rw [Option.mem_def] at hc
      rw [hc] at hend
      simpa using hend
    have hk := takeWhile_word (t := []) hall (by simp)
    rw [List.append_nil] at hk
    rw [takeWhile_word hall hhead, hk]
  · -- the keyword has a blank, and the word ends in front of it
    rw [List.takeWhile_append]
    rw [if_neg]
    intro hlen
    exact hall (List.takeWhile_eq_self_iff.1
      ((List.takeWhile_sublist isWordByte).eq_of_length hlen))

/-- A keyword that is spelled somewhere stands there. -/
lemma startsKeyword_self {k w t : List Char} (hw : upper w = k)
    (ht : ∀ c ∈ t.head?, isWordByte c = false) : startsKeyword k (w ++ t) = true := by
  have hlen : k.length = w.length := by
    rw [← hw, length_upper]
  have hstart : startsWith k (w ++ t) = true := by
    rw [startsWith, List.isPrefixOf_iff_prefix, upper_append, hw]
    exact List.prefix_append k _
  rw [startsKeyword, hstart, hlen, List.drop_left]
  cases hhead : t.head? with
  | none => rfl
  | some c => simp [ht c hhead]

section Tests

variable {tail W : List Char} (hfirst : ∀ k, startsKeyword k tail = true → firstWord k = W)

include hfirst

lemma startsKeyword_false {k : List Char} (hk : firstWord k ≠ W) :
    startsKeyword k tail = false := by
  rw [← Bool.not_eq_true]
  exact fun h => hk (hfirst k h)

lemma find_keyword_none {L : List (List Char)} (hL : ∀ k ∈ L, firstWord k ≠ W) :
    L.find? (fun k => startsKeyword k tail) = none := by
  rw [List.find?_eq_none]
  intro k hk
  rw [startsKeyword_false hfirst (hL k hk)]
  decide

lemma find_keyword_some {L : List (List Char)} {k : List Char} (hk : k ∈ L)
    (hL : ∀ k' ∈ L, firstWord k' = W → k' = k) (htrue : startsKeyword k tail = true) :
    L.find? (fun k => startsKeyword k tail) = some k := by
  cases hfind : L.find? (fun k => startsKeyword k tail) with
  | none =>
    have hnone := List.find?_eq_none.1 hfind k hk
    exact absurd htrue hnone
  | some k' =>
    have hk' := List.find?_some hfind
    rw [hL k' (List.mem_of_find?_eq_some hfind) (hfirst k' hk')]

lemma storageConsumed_none (hW : firstWord "STORAGE".toList ≠ W) :
    storageConsumed tail = none := by
  rw [storageConsumed, startsKeyword_false hfirst hW]
  rfl

lemma lobConsumed_none (hW : firstWord "LOB".toList ≠ W) : lobConsumed tail = none := by
  rw [lobConsumed, startsKeyword_false hfirst hW]
  rfl

lemma stateConsumed_none (henable : firstWord "ENABLE".toList ≠ W)
    (hdisable : firstWord "DISABLE".toList ≠ W) : stateConsumed tail = none := by
  have hone : ∀ k, firstWord k ≠ W → oneStateConsumed k tail = none := by
    intro k hk
    rw [oneStateConsumed, startsKeyword_false hfirst hk, if_neg]
    rintro ⟨h, -⟩
    cases h
  rw [stateConsumed, hone _ henable, hone _ hdisable]
  rfl

/-- At a word that starts none of the keywords, nothing is left out. -/
lemma clauseConsumed_none (hL : ∀ k ∈ valuedKeywords ++ flagKeywords ++
    ["ENABLE ROW MOVEMENT".toList, "SEGMENT CREATION".toList, "STORAGE".toList, "LOB".toList],
      firstWord k ≠ W) : clauseConsumed tail = none := by
  have hv : ∀ k ∈ valuedKeywords, firstWord k ≠ W := fun k hk => hL k (by simp [hk])
  have hf : ∀ k ∈ flagKeywords, firstWord k ≠ W := fun k hk => hL k (by simp [hk])
  have he := startsKeyword_false hfirst (hL "ENABLE ROW MOVEMENT".toList (by simp))
  have hs := startsKeyword_false hfirst (hL "SEGMENT CREATION".toList (by simp))
  rw [clauseConsumed, find_keyword_none hfirst hv, find_keyword_none hfirst hf, he, hs,
    storageConsumed_none hfirst (hL "STORAGE".toList (by simp)),
    lobConsumed_none hfirst (hL "LOB".toList (by simp))]
  rfl

end Tests

/-- Nothing is left out where no letter stands. -/
lemma consumed_none_of_head (alphanumeric : Char → Bool) (depth : ℤ) (last : Option Char)
    {tail : List Char} (h : ∀ c ∈ tail.head?, isWordByte c = false) :
    consumed alphanumeric depth last tail = none := by
  have hfirst : ∀ k, startsKeyword k tail = true → firstWord k = [] := by
    intro k hk
    exact firstWord_of_startsKeyword (w := []) (by simp) h hk
  have hclause : clauseConsumed tail = none := clauseConsumed_none hfirst (by decide)
  have hstate : stateConsumed tail = none := stateConsumed_none hfirst (by decide) (by decide)
  rw [consumed, hclause, hstate, ite_self, ite_self]
  rfl

/-! ### Clauses -/

lemma NameEnds.head {rest : List Char} (h : NameEnds rest) :
    ∀ c ∈ rest.head?, isWordByte c = false := by
  intro c hc
  have hname := h c hc
  simp only [isNameChar, Bool.or_eq_false_iff] at hname
  exact hname.1.1.1

lemma not_isWordByte_of_isSpace {c : Char} (h : isSpace c = true) : isWordByte c = false := by
  have hunderscore : c ≠ '_' := by
    rintro rfl
    cases h
  have hdigit : c.isDigit = false := by
    rw [← Bool.not_eq_true]
    intro hd
    rw [isSpace_of_isDigit hd] at h
    cases h
  have halpha : c.isAlpha = false := by
    rw [← Bool.not_eq_true]
    intro ha
    delta Char.isAlpha Char.isUpper Char.isLower at ha
    simp only [Bool.or_eq_true, Bool.and_eq_true, decide_eq_true_eq, ge_iff_le,
      UInt32.le_iff_toNat_le] at ha
    change 65 ≤ c.toNat ∧ c.toNat ≤ 90 ∨ 97 ≤ c.toNat ∧ c.toNat ≤ 122 at ha
    simp only [isSpace, Bool.or_eq_true, Bool.and_eq_true, decide_eq_true_eq, beq_iff_eq] at h
    omega
  rw [isWordByte, Char.isAlphanum, halpha, hdigit, decide_eq_false hunderscore]
  rfl

lemma Spaces.head {g : List Char} (hg : Spaces g) (hne : g ≠ []) (t : List Char) :
    ∀ c ∈ (g ++ t).head?, isWordByte c = false := by
  obtain ⟨d, g, rfl⟩ := List.exists_cons_of_ne_nil hne
  intro c hc
  obtain rfl := Option.some.inj hc
  exact not_isWordByte_of_isSpace (hg d List.mem_cons_self)

/-- At a keyword, another one stands only if it starts with the same word. -/
lemma firstWord_of_spelled {K w t : List Char} (hw : upper w = K)
    (ht : ∀ c ∈ t.head?, isWordByte c = false) {k : List Char}
    (h : startsKeyword k (w ++ t) = true) : firstWord k = firstWord K := by
  have hword : ∀ c ∈ w.takeWhile isWordByte, isWordByte c = true := fun c hc =>
    List.mem_takeWhile_imp hc
  have hfirst : firstWord K = upper (w.takeWhile isWordByte) := by
    rw [← hw, firstWord, upper, upper, List.takeWhile_map]
    congr 1
    apply congrFun (congrArg List.takeWhile ?_)
    funext c
    exact isWordByte_toUpper c
  have hrest : ∀ c ∈ (w.dropWhile isWordByte ++ t).head?, isWordByte c = false := by
    cases hdrop : w.dropWhile isWordByte with
    | nil => exact ht
    | cons d s =>
      intro c hc
      obtain rfl := Option.some.inj hc
      have hnot := List.head?_dropWhile_not isWordByte w
      rw [hdrop] at hnot
      simpa using hnot
  rw [hfirst]
  apply firstWord_of_startsKeyword hword hrest
  rw [← List.append_assoc, List.takeWhile_append_dropWhile]
  exact h

section Spelled

variable {K w t : List Char} (hw : upper w = K) (ht : ∀ c ∈ t.head?, isWordByte c = false)

include hw ht

lemma clauseConsumed_valued (hK : K ∈ valuedKeywords) :
    clauseConsumed (w ++ t) = some (skipClauseValue (w ++ t) K.length) := by
  have huniq : ∀ K ∈ valuedKeywords, ∀ k ∈ valuedKeywords, firstWord k = firstWord K → k = K := by
    decide
  rw [clauseConsumed, find_keyword_some (fun k hk => firstWord_of_spelled hw ht hk) hK
    (huniq K hK) (startsKeyword_self hw ht)]
  rfl

lemma clauseConsumed_flag (hK : K ∈ flagKeywords) :
    clauseConsumed (w ++ t) = some K.length := by
  have hfirst : ∀ k, startsKeyword k (w ++ t) = true → firstWord k = firstWord K :=
    fun k hk => firstWord_of_spelled hw ht hk
  have hvalued : ∀ K ∈ flagKeywords, ∀ k ∈ valuedKeywords, firstWord k ≠ firstWord K := by
    decide
  have huniq : ∀ K ∈ flagKeywords, ∀ k ∈ flagKeywords, firstWord k = firstWord K → k = K := by
    decide
  rw [clauseConsumed, find_keyword_none hfirst (hvalued K hK),
    find_keyword_some hfirst hK (huniq K hK) (startsKeyword_self hw ht)]
  rfl

lemma clauseConsumed_rowMovement (hK : K = "ENABLE ROW MOVEMENT".toList) :
    clauseConsumed (w ++ t) = some K.length := by
  have hfirst : ∀ k, startsKeyword k (w ++ t) = true → firstWord k = firstWord K :=
    fun k hk => firstWord_of_spelled hw ht hk
  subst hK
  rw [clauseConsumed, find_keyword_none hfirst (by decide), find_keyword_none hfirst (by decide),
    startsKeyword_self hw ht]
  rfl

lemma clauseConsumed_segment (hK : K = "SEGMENT CREATION".toList) :
    clauseConsumed (w ++ t) = some (skipClauseValue (w ++ t) K.length) := by
  have hfirst : ∀ k, startsKeyword k (w ++ t) = true → firstWord k = firstWord K :=
    fun k hk => firstWord_of_spelled hw ht hk
  subst hK
  rw [clauseConsumed, find_keyword_none hfirst (by decide), find_keyword_none hfirst (by decide),
    startsKeyword_false hfirst (by decide), startsKeyword_self hw ht]
  rfl

lemma clauseConsumed_storage (hK : K = "STORAGE".toList) :
    clauseConsumed (w ++ t) = storageConsumed (w ++ t) := by
  have hfirst : ∀ k, startsKeyword k (w ++ t) = true → firstWord k = firstWord K :=
    fun k hk => firstWord_of_spelled hw ht hk
  subst hK
  rw [clauseConsumed, find_keyword_none hfirst (by decide), find_keyword_none hfirst (by decide),
    startsKeyword_false hfirst (by decide), startsKeyword_false hfirst (by decide),
    lobConsumed_none hfirst (by decide)]
  simp

lemma clauseConsumed_lob (hK : K = "LOB".toList) :
    clauseConsumed (w ++ t) = lobConsumed (w ++ t) := by
  have hfirst : ∀ k, startsKeyword k (w ++ t) = true → firstWord k = firstWord K :=
    fun k hk => firstWord_of_spelled hw ht hk
  subst hK
  rw [clauseConsumed, find_keyword_none hfirst (by decide), find_keyword_none hfirst (by decide),
    startsKeyword_false hfirst (by decide), startsKeyword_false hfirst (by decide),
    storageConsumed_none hfirst (by decide)]
  simp

/-- At a keyword that is no constraint state, the tests for these fail. -/
lemma stateConsumed_spelled (hK : firstWord K ∉ ["ENABLE".toList, "DISABLE".toList]) :
    stateConsumed (w ++ t) = none := by
  have hfirst : ∀ k, startsKeyword k (w ++ t) = true → firstWord k = firstWord K :=
    fun k hk => firstWord_of_spelled hw ht hk
  simp only [List.mem_cons, List.not_mem_nil, or_false, not_or] at hK
  exact stateConsumed_none hfirst (fun h => hK.1 h.symm) fun h => hK.2 h.symm

end Spelled

end DbSaci.Translate.Physical
