import DbSaci.Library.Phrase

set_option relaxedAutoImplicit false
set_option autoImplicit false

/-!
# Replacing identifiers in a text

`replaceIdentifierOutsideLiterals` replaces a qualified name in the text of an expression. It works
on bytes: quoted parts are copied, and what is copied from outside them is put down byte by byte,
each as a character of its own.

## Main definitions

* `replaceIdentifierOutsideLiterals` — the replacement.
* `Text.Phrase.Lexed` — the tokens of a phrase are those of its text.
* `Clean` — a word is the name to replace, or does not have it in it.

## Main results

* `replaceIdentifier_text` — on the text of a phrase, the replacement puts a group for each word
  that is the name.
-/

namespace DbSaci.Translate

open Text

/-! ### The replacement -/

/-- `skip_quoted`: how much of the text behind a quote belongs to the quoted part. -/
def skipQuoted (q : Char) : List Char → ℕ
  | [] => 0
  | [_] => 1
  | c :: d :: s =>
    if c = q then if d = q then skipQuoted q s + 2 else 1
    else skipQuoted q (d :: s) + 1

/-- The characters that make an identifier longer. -/
def isWordByte (c : Char) : Bool := c.isAlphanum || c = '_'

/-- The name stands at the start of a text, and no longer identifier does. -/
def isHit (needle : List Char) (before : Option Char) (s : List Char) : Bool :=
  startsWith (upper needle) s && !before.any isWordByte &&
    !(s.drop needle.length).head?.any isWordByte

/-- The bytes of a character, each as a character. -/
def pushBytes (c : Char) : List Char := (String.utf8EncodeChar c).map fun b => Char.ofNat b.toNat

/-- The loop of `replace_identifier_outside_literals`: so many characters are copied, and then so
many are left out. -/
def replaceFrom (needle replacement : List Char) : ℕ → ℕ → Option Char → List Char → List Char
  | _, _, _, [] => []
  | copy + 1, skip, _, c :: s => c :: replaceFrom needle replacement copy skip (some c) s
  | 0, skip + 1, _, c :: s => replaceFrom needle replacement 0 skip (some c) s
  | 0, 0, before, c :: s =>
    if c = '\'' ∨ c = '"' then
      c :: replaceFrom needle replacement (skipQuoted c s) 0 (some c) s
    else if isHit needle before (c :: s) = true then
      replacement ++ replaceFrom needle replacement 0 (needle.length - 1) (some c) s
    else pushBytes c ++ replaceFrom needle replacement 0 0 (some c) s

/-- `replace_identifier_outside_literals`. -/
def replaceIdentifierOutsideLiterals (sql needle replacement : List Char) : List Char :=
  replaceFrom needle replacement 0 0 none sql

/-! ### Tokens -/

/-- The characters of a word. -/
def isWordChar (c : Char) : Bool :=
  isWordByte c || c = '.' || c = '$' || c = '#' || decide (128 ≤ c.toNat)

/-- A quote inside a quoted part is doubled. -/
def Doubled (q : Char) : List Char → Prop
  | [] => True
  | [c] => c ≠ q
  | c :: d :: s => if c = q then d = q ∧ Doubled q s else Doubled q (d :: s)

instance (q : Char) : ∀ s : List Char, Decidable (Doubled q s)
  | [] => inferInstanceAs (Decidable True)
  | [c] => inferInstanceAs (Decidable (c ≠ q))
  | c :: d :: s =>
    have := instDecidableDoubled q s
    have := instDecidableDoubled q (d :: s)
    inferInstanceAs (Decidable (if c = q then _ else _))

end DbSaci.Translate

namespace Text.Phrase

open DbSaci.Translate

/-- The phrase starts with a word. -/
def startsWord : Phrase → Bool
  | tok (.word _) _ => true
  | _ => false

/-- The phrase starts with a quoted part. -/
def startsQuoted (q : Char) : Phrase → Bool
  | tok (.quoted q' _) _ => q = q'
  | _ => false

/-- The tokens of a phrase are those of its text. -/
def Lexed : Phrase → Prop
  | nil => True
  | tok (.word w) rest =>
    w ≠ [] ∧ (∀ c ∈ w, isWordChar c = true) ∧ rest.startsWord = false ∧ rest.Lexed
  | tok (.sym c) rest => isWordChar c = false ∧ c ∉ ['\'', '"', '(', ')'] ∧ rest.Lexed
  | tok (.quoted q body) rest =>
    q ∈ ['\'', '"'] ∧ Doubled q body ∧ rest.startsQuoted q = false ∧ rest.Lexed
  | group inner rest => inner.Lexed ∧ rest.Lexed

/-- `decide` can tell. -/
instance decidableLexed : ∀ p : Phrase, Decidable p.Lexed
  | nil => inferInstanceAs (Decidable True)
  | tok (.word w) rest =>
    have := decidableLexed rest
    inferInstanceAs (Decidable
      (w ≠ [] ∧ (∀ c ∈ w, isWordChar c = true) ∧ rest.startsWord = false ∧ rest.Lexed))
  | tok (.sym c) rest =>
    have := decidableLexed rest
    inferInstanceAs (Decidable
      (isWordChar c = false ∧ c ∉ ['\'', '"', '(', ')'] ∧ rest.Lexed))
  | tok (.quoted q body) rest =>
    have := decidableLexed rest
    inferInstanceAs (Decidable
      (q ∈ ['\'', '"'] ∧ Doubled q body ∧ rest.startsQuoted q = false ∧ rest.Lexed))
  | group inner rest =>
    have := decidableLexed inner
    have := decidableLexed rest
    inferInstanceAs (Decidable (inner.Lexed ∧ rest.Lexed))

end Text.Phrase

namespace DbSaci.Translate

open Text

/-! ### Characters -/

lemma ne_quote_of_isWordChar {c : Char} (h : isWordChar c = true) : ¬ (c = '\'' ∨ c = '"') := by
  rintro (rfl | rfl) <;> revert h <;> decide

lemma isWordChar_of_isWordByte {c : Char} (h : isWordByte c = true) : isWordChar c = true := by
  simp [isWordChar, h]

lemma isWordByte_of_not_isWordChar {c : Char} (h : isWordChar c = false) :
    isWordByte c = false := by
  rw [← Bool.not_eq_true]
  intro hbyte
  rw [isWordChar_of_isWordByte hbyte] at h
  cases h

/-- The case of a letter does not make it a word character. -/
lemma isWordChar_toUpper (c : Char) : isWordChar c.toUpper = isWordChar c := by
  rcases toUpper_cases c with h | ⟨h, h'⟩
  · rw [h]
  · have hword : ∀ d : Char, d.isAlpha = true → isWordChar d = true := by
      intro d hd
      simp [isWordChar, isWordByte, Char.isAlphanum, hd]
    rw [hword c h, hword _ h']

lemma utf8Size_of_not_isWordChar {c : Char} (h : isWordChar c = false) : c.utf8Size = 1 := by
  simp only [isWordChar, Bool.or_eq_false_iff, decide_eq_false_iff_not] at h
  rw [Char.utf8Size_eq_one_iff, UInt32.le_iff_toNat_le]
  have hlt := h.2
  change ¬ 128 ≤ c.val.toNat at hlt
  change c.val.toNat ≤ 127
  omega

/-- An ASCII character is put down as it is. -/
lemma pushBytes_ascii {c : Char} (h : c.utf8Size = 1) : pushBytes c = [c] := by
  rw [pushBytes, String.utf8EncodeChar_eq_singleton h]
  have hle : c.val.toNat ≤ 127 := by
    rw [Char.utf8Size_eq_one_iff, UInt32.le_iff_toNat_le] at h
    exact h
  have hbyte : c.val.toUInt8.toNat = c.val.toNat := by
    rw [UInt32.toNat_toUInt8]
    omega
  rw [List.map_singleton, hbyte]
  exact congrArg (fun x => [x]) (Char.ofNat_toNat c)

/-! ### Copied and skipped parts -/

section Parts

variable (needle replacement : List Char)

lemma replaceFrom_copy (x y : List Char) (before : Option Char) :
    replaceFrom needle replacement x.length 0 before (x ++ y) =
      x ++ replaceFrom needle replacement 0 0 (x.getLast?.or before) y := by
  induction x generalizing before with
  | nil => rfl
  | cons c x ih =>
    have hlast : (c :: x).getLast?.or before = x.getLast?.or (some c) := by
      cases x with
      | nil => rfl
      | cons d x =>
        obtain ⟨e, he⟩ : ∃ e, (d :: x).getLast? = some e :=
          ⟨_, List.getLast?_eq_some_getLast (by simp)⟩
        rw [List.getLast?_cons_cons, he]
        rfl
    rw [List.length_cons, List.cons_append, replaceFrom, ih (some c), hlast]
    rfl

lemma replaceFrom_skip (x y : List Char) (before : Option Char) :
    ∃ before', replaceFrom needle replacement 0 x.length before (x ++ y) =
      replaceFrom needle replacement 0 0 before' y := by
  induction x generalizing before with
  | nil => exact ⟨before, rfl⟩
  | cons c x ih =>
    obtain ⟨before', h⟩ := ih (some c)
    exact ⟨before', by rw [List.length_cons, List.cons_append, replaceFrom, h]⟩

lemma skipQuoted_doubled {q : Char} {body y : List Char} (hbody : Doubled q body)
    (hy : ∀ c ∈ y.head?, c ≠ q) : skipQuoted q (body ++ q :: y) = body.length + 1 := by
  induction body using skipQuoted.induct q with
  | case1 =>
    cases y with
    | nil => rfl
    | cons c y => simp [skipQuoted, hy c rfl]
  | case2 c =>
    have hc : c ≠ q := hbody
    cases y with
    | nil => simp [skipQuoted, hc]
    | cons d y => simp [skipQuoted, hc, hy d rfl]
  | case3 s ih =>
    simp only [Doubled, if_true] at hbody
    simp [skipQuoted, ih hbody.2]
  | case4 d s hd =>
    simp only [Doubled, if_true] at hbody
    exact absurd hbody.1 hd
  | case5 c d s hc ih =>
    simp only [Doubled, if_neg hc] at hbody
    have := ih hbody
    simp only [List.cons_append, skipQuoted, if_neg hc, List.length_cons] at this ⊢
    rw [this]

/-- A quoted part is copied. -/
lemma replaceFrom_quoted {q : Char} {body y : List Char} (hq : q ∈ ['\'', '"'])
    (hbody : Doubled q body) (hy : ∀ c ∈ y.head?, c ≠ q) (before : Option Char) :
    replaceFrom needle replacement 0 0 before (q :: (body ++ q :: y)) =
      q :: (body ++ [q]) ++ replaceFrom needle replacement 0 0 (some q) y := by
  have hquote : q = '\'' ∨ q = '"' := by simpa using hq
  have h := replaceFrom_copy needle replacement (body ++ [q]) y (some q)
  have hlast : (body ++ [q]).getLast?.or (some q) = some q := by simp
  rw [List.length_append, List.length_singleton, List.append_assoc, List.singleton_append,
    hlast] at h
  rw [replaceFrom, if_pos hquote, skipQuoted_doubled hbody hy, h]
  rfl

end Parts

/-! ### Words -/

/-- The name stands somewhere in a text. -/
def hasHit (needle : List Char) : Option Char → List Char → Bool
  | _, [] => false
  | before, c :: s => isHit needle before (c :: s) || hasHit needle (some c) s

/-- The word is ASCII, and it is the name or does not have it in it. -/
def Clean (needle w : List Char) : Prop :=
  Ascii w ∧ (upper w = upper needle ∨ hasHit needle none w = false)

instance (needle w : List Char) : Decidable (Clean needle w) := by
  unfold Clean
  infer_instance

section Words

variable {needle : List Char} (hneedle : ∀ c ∈ needle, isWordChar c = true) {w y : List Char}
  (hy : ∀ c ∈ y.head?, isWordChar c = false)

include hneedle hy in
/-- Whether the name stands at the start of a word does not depend on what follows the word. -/
lemma isHit_append (before : Option Char) :
    isHit needle before (w ++ y) = isHit needle before w := by
  have hstart : startsWith (upper needle) (w ++ y) = startsWith (upper needle) w := by
    rw [Bool.eq_iff_iff, startsWith, startsWith, List.isPrefixOf_iff_prefix,
      List.isPrefixOf_iff_prefix, upper_append]
    constructor
    · intro h
      rcases Nat.lt_or_ge (upper w).length (upper needle).length with hlt | hge
      · -- what follows would go on with the name
        exfalso
        obtain ⟨t, ht⟩ := List.prefix_of_prefix_length_le (List.prefix_append _ _) h hlt.le
        rw [← ht, List.prefix_append_right_inj] at h
        cases t with
        | nil =>
          rw [List.append_nil] at ht
          exact absurd (congrArg List.length ht) hlt.ne
        | cons d t =>
          cases y with
          | nil => simp at h
          | cons e y =>
            obtain rfl : d = e.toUpper := (List.cons_prefix_cons.1 h).1
            have hmem : e.toUpper ∈ upper needle := by rw [← ht]; simp
            obtain ⟨f, hf, hfe⟩ := List.mem_map.1 hmem
            have h1 := hneedle f hf
            rw [← isWordChar_toUpper, hfe, isWordChar_toUpper, hy e rfl] at h1
            cases h1
      · exact List.prefix_of_prefix_length_le h (List.prefix_append _ _) hge
    · exact fun h => h.trans (List.prefix_append _ _)
  rw [isHit, isHit, hstart]
  cases hw : startsWith (upper needle) w with
  | false => rfl
  | true =>
    rw [startsWith, List.isPrefixOf_iff_prefix] at hw
    have hlen := hw.length_le
    rw [length_upper, length_upper] at hlen
    rw [List.drop_append_of_le_length hlen]
    congr 2
    cases w.drop needle.length with
    | cons d t => rfl
    | nil =>
      cases y with
      | nil => rfl
      | cons e y =>
        have he := isWordByte_of_not_isWordChar (hy e rfl)
        simp [he]

include hneedle hy in
/-- A word without the name is copied. -/
lemma replaceFrom_word (replacement : List Char) (hword : ∀ c ∈ w, isWordChar c = true)
    (hascii : Ascii w) (before : Option Char) (hno : hasHit needle before w = false) :
    ∃ before', replaceFrom needle replacement 0 0 before (w ++ y) =
      w ++ replaceFrom needle replacement 0 0 before' y := by
  induction w generalizing before with
  | nil => exact ⟨before, rfl⟩
  | cons c w ih =>
    simp only [List.mem_cons, forall_eq_or_imp] at hword
    rw [hasHit, Bool.or_eq_false_iff] at hno
    obtain ⟨before', h⟩ := ih hword.2 (hascii.mono (List.subset_cons_self c w)) (some c) hno.2
    have hhit := isHit_append hneedle hy (w := c :: w) before
    rw [hno.1, List.cons_append] at hhit
    refine ⟨before', ?_⟩
    rw [List.cons_append, replaceFrom, if_neg (ne_quote_of_isWordChar hword.1),
      if_neg (Bool.eq_false_iff.1 hhit), pushBytes_ascii (hascii c List.mem_cons_self), h]
    rfl

include hneedle hy in
/-- The name is replaced. -/
lemma replaceFrom_name (replacement : List Char) (hword : ∀ c ∈ w, isWordChar c = true)
    (hne : w ≠ []) {before : Option Char} (hbefore : before.any isWordByte = false)
    (hname : upper w = upper needle) :
    ∃ before', replaceFrom needle replacement 0 0 before (w ++ y) =
      replacement ++ replaceFrom needle replacement 0 0 before' y := by
  have hlen : w.length = needle.length := by
    rw [← length_upper w, hname, length_upper]
  have hhit := isHit_append hneedle hy (w := w) before
  have hself : isHit needle before w = true := by
    rw [isHit, hbefore, startsWith, hname, List.isPrefixOf_iff_prefix.2 List.prefix_rfl, ← hlen,
      List.drop_length]
    rfl
  obtain ⟨c, w, rfl⟩ := List.exists_cons_of_ne_nil hne
  obtain ⟨before', h⟩ := replaceFrom_skip needle replacement w y (some c)
  refine ⟨before', ?_⟩
  rw [hself, List.cons_append] at hhit
  rw [List.cons_append, replaceFrom, if_neg (ne_quote_of_isWordChar (hword c List.mem_cons_self)),
    if_pos hhit, ← hlen, List.length_cons, Nat.add_sub_cancel, h]

include hneedle in
/-- No name starts with a symbol. -/
lemma isHit_sym (hne : needle ≠ []) {c : Char} (hc : isWordChar c = false)
    (before : Option Char) (s : List Char) : isHit needle before (c :: s) = false := by
  obtain ⟨d, n, rfl⟩ := List.exists_cons_of_ne_nil hne
  have hstart : startsWith (upper (d :: n)) (c :: s) = false := by
    rw [← Bool.not_eq_true, startsWith, List.isPrefixOf_iff_prefix]
    intro h
    have heq : d.toUpper = c.toUpper := (List.cons_prefix_cons.1 h).1
    have h1 := hneedle d List.mem_cons_self
    rw [← isWordChar_toUpper, heq, isWordChar_toUpper, hc] at h1
    cases h1
  rw [isHit, hstart]
  rfl

end Words

/-! ### Phrases -/

/-- The groups that stand for the name. -/
def nameGroup (needle : List Char) (replacement : Phrase) (w : List Char) : Option Phrase :=
  if upper w = upper needle then some replacement else none

/-- What stands behind a phrase: nothing, or a parenthesis. -/
def Ends (y : List Char) : Prop := ∀ c ∈ y.head?, c = ')'

lemma Ends.not_isWordChar {y : List Char} (h : Ends y) : ∀ c ∈ y.head?, isWordChar c = false := by
  intro c hc
  rw [h c hc]
  rfl

namespace PhraseText

variable {p : Phrase} {y : List Char}

/-- A phrase that starts with no word starts with no character of one. -/
lemma head_not_word (hp : p.Lexed) (hstart : p.startsWord = false) (hy : Ends y) :
    ∀ c ∈ (p.text ++ y).head?, isWordChar c = false := by
  cases p with
  | nil => exact hy.not_isWordChar
  | group inner rest =>
    rintro _ ⟨⟩
    rfl
  | tok t rest =>
    cases t with
    | word w => cases hstart
    | sym c =>
      rintro _ ⟨⟩
      exact hp.1
    | quoted q body =>
      rintro _ ⟨⟩
      have hq : q = '\'' ∨ q = '"' := by simpa using hp.1
      rcases hq with rfl | rfl <;> rfl

/-- A phrase that does not start with a quoted part does not start with its quote. -/
lemma head_ne_quote {q : Char} (hq : q ∈ ['\'', '"']) (hp : p.Lexed)
    (hstart : p.startsQuoted q = false) (hy : Ends y) : ∀ c ∈ (p.text ++ y).head?, c ≠ q := by
  have hquote : q = '\'' ∨ q = '"' := by simpa using hq
  cases p with
  | nil =>
    rintro c hc rfl
    rw [hy c hc] at hquote
    revert hquote
    decide
  | group inner rest =>
    rintro _ ⟨⟩ rfl
    revert hquote
    decide
  | tok t rest =>
    cases t with
    | word w =>
      obtain ⟨c, w, rfl⟩ := List.exists_cons_of_ne_nil hp.1
      rintro _ ⟨⟩ rfl
      exact ne_quote_of_isWordChar (hp.2.1 c List.mem_cons_self) hquote
    | sym c =>
      rintro _ ⟨⟩ rfl
      refine hp.2.1 ?_
      rcases hquote with h | h <;> simp [h]
    | quoted q' body =>
      rintro _ ⟨⟩ rfl
      simp [Phrase.startsQuoted] at hstart

end PhraseText

section Replace

variable {needle : List Char} (hneedle : ∀ c ∈ needle, isWordChar c = true) (hne : needle ≠ [])
  (replacement : Phrase)

include hneedle hne in
/-- What the loop makes of the text of a phrase. -/
lemma replaceFrom_phrase {p : Phrase} (hp : p.Lexed) (hclean : ∀ w ∈ p.words, Clean needle w)
    {b : Option Char} (hbefore : p.startsWord = true → b.any isWordByte = false)
    {y : List Char} (hy : Ends y) :
    ∃ b', replaceFrom needle ('(' :: (replacement.text ++ [')'])) 0 0 b (p.text ++ y) =
      (p.subst (nameGroup needle replacement)).text ++
        replaceFrom needle ('(' :: (replacement.text ++ [')'])) 0 0 b' y := by
  induction p generalizing b y with
  | nil => exact ⟨b, rfl⟩
  | tok t rest ih =>
    cases t with
    | word w =>
      simp only [Phrase.words, List.mem_cons, forall_eq_or_imp] at hclean
      obtain ⟨hwne, hword, hstart, hrest⟩ := hp
      have hhead := PhraseText.head_not_word hrest hstart hy
      have hb := hbefore rfl
      have ih := fun b => ih hrest hclean.2 (b := b)
        (fun h => absurd h (Bool.eq_false_iff.1 hstart)) hy
      rw [Phrase.text, List.append_assoc, Phrase.subst, nameGroup]
      by_cases hname : upper w = upper needle
      · obtain ⟨b, h⟩ := replaceFrom_name hneedle hhead ('(' :: (replacement.text ++ [')'])) hword
          hwne hb hname
        obtain ⟨b', h'⟩ := ih b
        refine ⟨b', ?_⟩
        rw [if_pos hname]
        simp only [Token.text, Phrase.text]
        rw [h, h']
        simp
      · have hno : hasHit needle b w = false := by
          have hno := hclean.1.2.resolve_left hname
          cases w with
          | nil => rfl
          | cons c w =>
            rw [hasHit] at hno ⊢
            rw [isHit] at hno ⊢
            rw [hb]
            exact hno
        obtain ⟨b, h⟩ := replaceFrom_word hneedle hhead ('(' :: (replacement.text ++ [')'])) hword
          hclean.1.1 b hno
        obtain ⟨b', h'⟩ := ih b
        refine ⟨b', ?_⟩
        rw [if_neg hname]
        simp only [Token.text, Phrase.text]
        rw [h, h', List.append_assoc]
    | sym c =>
      obtain ⟨hc, hsym, hrest⟩ := hp
      have hquote : ¬ (c = '\'' ∨ c = '"') := by
        rintro (rfl | rfl) <;> simp at hsym
      obtain ⟨b', h'⟩ := ih hrest hclean (b := some c)
        (fun _ => isWordByte_of_not_isWordChar hc) hy
      refine ⟨b', ?_⟩
      rw [Phrase.text, List.append_assoc, Token.text, List.singleton_append, replaceFrom,
        if_neg hquote, if_neg (Bool.eq_false_iff.1 (isHit_sym hneedle hne hc _ _)),
        pushBytes_ascii (utf8Size_of_not_isWordChar hc), h', Phrase.subst, Phrase.text, Token.text,
        List.append_assoc]
    | quoted q body =>
      obtain ⟨hq, hbody, hstart, hrest⟩ := hp
      have hquote : isWordByte q = false := by
        have hq : q = '\'' ∨ q = '"' := by simpa using hq
        rcases hq with rfl | rfl <;> rfl
      obtain ⟨b', h'⟩ := ih hrest hclean (b := some q) (fun _ => hquote) hy
      have h := replaceFrom_quoted needle ('(' :: (replacement.text ++ [')'])) hq hbody
        (PhraseText.head_ne_quote hq hrest hstart hy) b
      refine ⟨b', ?_⟩
      simp only [Phrase.text, Token.text, Phrase.subst, List.append_assoc, List.cons_append,
        List.nil_append] at h h' ⊢
      rw [h, h']
  | group inner rest ihi ihr =>
    obtain ⟨hinner, hrest⟩ := hp
    simp only [Phrase.words, List.mem_append] at hclean
    obtain ⟨b, h⟩ := ihi hinner (fun w hw => hclean w (.inl hw)) (b := some '(')
      (fun _ => rfl) (y := ')' :: (rest.text ++ y)) (by rintro _ ⟨⟩; rfl)
    obtain ⟨b', h'⟩ := ihr hrest (fun w hw => hclean w (.inr hw)) (b := some ')')
      (fun _ => rfl) hy
    have hstep : ∀ (c : Char) before s, c = '(' ∨ c = ')' →
        replaceFrom needle ('(' :: (replacement.text ++ [')'])) 0 0 before (c :: s) =
          c :: replaceFrom needle ('(' :: (replacement.text ++ [')'])) 0 0 (some c) s := by
      intro c before s hc
      have hword : isWordChar c = false := by rcases hc with rfl | rfl <;> rfl
      have hquote : ¬ (c = '\'' ∨ c = '"') := by rcases hc with rfl | rfl <;> decide
      rw [replaceFrom, if_neg hquote,
        if_neg (Bool.eq_false_iff.1 (isHit_sym hneedle hne hword _ _)),
        pushBytes_ascii (utf8Size_of_not_isWordChar hword)]
      rfl
    refine ⟨b', ?_⟩
    simp only [Phrase.text, Phrase.subst, List.cons_append, List.append_assoc]
    rw [hstep _ _ _ (.inl rfl), h, hstep _ _ _ (.inr rfl), h']

include hneedle hne in
/-- **On the text of a phrase, the replacement puts a group for each word that is the name.** -/
theorem replaceIdentifier_text {p : Phrase} (hp : p.Lexed)
    (hclean : ∀ w ∈ p.words, Clean needle w) :
    replaceIdentifierOutsideLiterals p.text needle ('(' :: (replacement.text ++ [')'])) =
      (p.subst (nameGroup needle replacement)).text := by
  obtain ⟨b, h⟩ := replaceFrom_phrase hneedle hne replacement hp hclean (b := none)
    (fun _ => rfl) (y := []) (fun c hc => by cases hc)
  rw [List.append_nil, replaceFrom, List.append_nil] at h
  exact h

end Replace

end DbSaci.Translate

namespace Text.Phrase

open DbSaci.Translate

variable {σ : List Char → Option Phrase}

/-- Groups come in for words, so the tokens stay apart. -/
lemma subst_lexed {p : Phrase} (hp : p.Lexed) (hσ : ∀ w q, σ w = some q → q.Lexed) :
    (p.subst σ).Lexed := by
  have hword : ∀ r : Phrase, r.startsWord = false → (r.subst σ).startsWord = false := by
    intro r h
    cases r with
    | nil => rfl
    | group inner rest => rfl
    | tok t rest =>
      cases t with
      | word w => cases h
      | sym c => rfl
      | quoted q body => rfl
  have hquoted : ∀ (q : Char) (r : Phrase), r.startsQuoted q = false →
      (r.subst σ).startsQuoted q = false := by
    intro q r h
    cases r with
    | nil => rfl
    | group inner rest => rfl
    | tok t rest =>
      cases t with
      | word w =>
        rw [subst]
        cases σ w <;> rfl
      | sym c => rfl
      | quoted q' body => exact h
  induction p with
  | nil => trivial
  | tok t rest ih =>
    cases t with
    | word w =>
      rw [subst]
      cases hσw : σ w with
      | none => exact ⟨hp.1, hp.2.1, hword _ hp.2.2.1, ih hp.2.2.2⟩
      | some q => exact ⟨hσ w q hσw, ih hp.2.2.2⟩
    | sym c => exact ⟨hp.1, hp.2.1, ih hp.2.2⟩
    | quoted q body => exact ⟨hp.1, hp.2.1, hquoted _ _ hp.2.2.1, ih hp.2.2.2⟩
  | group inner rest ihi ihr => exact ⟨ihi hp.1, ihr hp.2⟩

end Text.Phrase
