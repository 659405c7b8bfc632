import DbSaci.Wire.BindParameters
import Mathlib.Data.List.DropRight

set_option relaxedAutoImplicit false
set_option autoImplicit false

/-!
# Tokens of a statement

What a text means that is put in the place of a placeholder goes by the tokens of the statement. The
tokens of SQL are read here as Postgres reads them: words and numbers are runs of their characters,
and operators are runs of theirs that no comment starts in and that do not end with a sign, unless
there is one of some characters in them. Quotes, comments and placeholders are read as in the code.

## Main definitions

* `sqlCut`, `sqlTokens` — the tokens of a text.
* `IsPlaceholder` — a placeholder that is a token of its own.
* `Unchanged` — the tokens next to a text that is put in are those that there were.
* `Detached` — a number at its place is a token of its own.

## Main results

* `parted_number` — which tokens a number can stand behind.
* `unchanged_iff` — where a number does not change the statement.
-/

namespace DbSaci.Wire

open Text

/-! ### Tokens -/

/-- What a token is. Blanks and punctuation are symbols. -/
inductive SqlKind
  | quoted
  | comment
  | placeholder
  | word
  | operator
  | symbol
  deriving DecidableEq, Repr

/-- The characters of words and numbers. A point is part of both. -/
def isLexemeChar (c : Char) : Bool :=
  c.isAlphanum || c == '_' || c == '$' || c == '.' || decide (128 ≤ c.toNat)

/-- The characters of operators. -/
def isOperatorChar (c : Char) : Bool := "+-*/<>=~!@#%^&|\x60?".toList.contains c

/-- An operator with one of these may end with a sign. -/
def keepsSign (c : Char) : Bool := "~!@#%^&|\x60?".toList.contains c

/-- A sign. -/
def isSign (c : Char) : Bool := c == '+' || c == '-'

/-- The characters of operators that a text starts with, in front of a comment. -/
def operatorRun : List Char → List Char
  | [] => []
  | c :: s =>
    if isOperatorChar c = false ∨ (c = '-' ∧ s.head? = some '-') ∨
        (c = '/' ∧ s.head? = some '*') then []
    else c :: operatorRun s

/-- How far an operator goes behind the character it starts with. -/
def operatorEnd (c : Char) (s : List Char) : ℕ :=
  if (c :: operatorRun s).any keepsSign then (operatorRun s).length
  else ((operatorRun s).rdropWhile isSign).length

/-- The token that starts with a character, and how far it goes behind it. -/
def sqlCut (c : Char) (s : List Char) : SqlKind × ℕ :=
  if c = '\'' ∨ c = '"' then (.quoted, quotedEnd c s)
  else if c = '-' ∧ s.head? = some '-' then (.comment, lineEnd s)
  else if c = '/' ∧ s.head? = some '*' then (.comment, commentEnd s)
  else if c = ':' then
    if s.head? = some ':' then (.symbol, 1)
    else if s.takeWhile isNameChar ≠ [] then (.placeholder, (s.takeWhile isNameChar).length)
    else (.symbol, 0)
  else if isLexemeChar c then (.word, (s.takeWhile isLexemeChar).length)
  else if isOperatorChar c then (.operator, operatorEnd c s)
  else (.symbol, 0)

/-- The tokens of a text. -/
def sqlTokens (s : List Char) : List (SqlKind × List Char) := scan (cutting sqlCut) s

/-- Between two texts stands a placeholder that is a token of its own. -/
def IsPlaceholder (pre name post : List Char) : Prop :=
  sqlTokens (pre ++ (':' :: name ++ post)) =
    sqlTokens pre ++ (.placeholder, ':' :: name) :: sqlTokens post

/-- A text that is put between two others leaves the tokens of these as they are. -/
def Unchanged (pre text post : List Char) : Prop :=
  sqlTokens (pre ++ (text ++ post)) = sqlTokens pre ++ (sqlTokens text ++ sqlTokens post)

/-- `decide` can tell. -/
instance (pre name post : List Char) : Decidable (IsPlaceholder pre name post) :=
  inferInstanceAs (Decidable (_ = _))

/-- `decide` can tell. -/
instance (pre text post : List Char) : Decidable (Unchanged pre text post) :=
  inferInstanceAs (Decidable (_ = _))

/-- The tokens that grow if a number is put behind them. -/
def grows (negative : Bool) (token : SqlKind × List Char) : Bool :=
  match token.1 with
  | .word | .placeholder => !negative
  | .operator => negative && (token.2.getLast? == some '-' || token.2.any keepsSign)
  | _ => false

/-- A number between two texts is a token of its own, as its sign is. -/
def Detached (negative : Bool) (pre post : List Char) : Prop :=
  (∀ token ∈ (sqlTokens pre).getLast?, grows negative token = false) ∧
    ∀ c ∈ post.head?, isLexemeChar c = false

/-- `decide` can tell. -/
instance (negative : Bool) (pre post : List Char) : Decidable (Detached negative pre post) :=
  inferInstanceAs (Decidable (_ ∧ _))

/-! ### How far the tokens go -/

lemma quotedEnd_le (quote : Char) (s : List Char) : quotedEnd quote s ≤ s.length := by
  induction s using quotedEnd.induct quote with
  | case1 => exact Nat.le_refl 0
  | case2 c => exact Nat.le_refl 1
  | case3 s ih =>
    rw [quotedEnd, if_pos rfl, if_pos rfl, List.length_cons, List.length_cons]
    omega
  | case4 d s hd =>
    rw [quotedEnd, if_pos rfl, if_neg hd, List.length_cons]
    omega
  | case5 c d s hc ih =>
    rw [quotedEnd, if_neg hc, List.length_cons]
    omega

lemma lineEnd_le (s : List Char) : lineEnd s ≤ s.length :=
  (List.takeWhile_prefix _).length_le

lemma commentEnd_le (s : List Char) : commentEnd s ≤ s.length := by
  rw [commentEnd]
  cases hfind : find ['*', '/'] (s.drop 1) with
  | none => exact Nat.le_refl _
  | some i =>
    have hle := ((find_eq_some_iff _ [] i).1 hfind).2
    rw [List.length_drop] at hle
    show i + 3 ≤ s.length
    simp only [List.length_cons, List.length_nil] at hle
    omega

lemma operatorRun_front (s : List Char) : operatorRun s <+: s := by
  induction s with
  | nil => exact List.prefix_refl []
  | cons c s ih =>
    rw [operatorRun]
    split_ifs with hend
    · exact List.nil_prefix
    · exact List.cons_prefix_cons.2 ⟨rfl, ih⟩

lemma operatorEnd_le (c : Char) (s : List Char) : operatorEnd c s ≤ s.length := by
  rw [operatorEnd]
  split_ifs
  · exact (operatorRun_front s).length_le
  · exact ((List.rdropWhile_prefix isSign _).trans (operatorRun_front s)).length_le

lemma sqlTokens_cons (c : Char) (s : List Char) :
    sqlTokens (c :: s) =
      ((sqlCut c s).1, c :: s.take (sqlCut c s).2) :: sqlTokens (s.drop (sqlCut c s).2) :=
  scan_cons _ c s

/-- A token is part of the text. -/
lemma sqlCut_le (c : Char) (s : List Char) : (sqlCut c s).2 ≤ s.length := by
  unfold sqlCut
  split_ifs with hquote hline hcomment hcolon hcast hname
  · exact quotedEnd_le c s
  · exact lineEnd_le s
  · exact commentEnd_le s
  · cases s with
    | nil => cases hcast
    | cons d s => exact Nat.succ_le_succ (Nat.zero_le _)
  · exact (List.takeWhile_prefix _).length_le
  · exact Nat.zero_le _
  · exact (List.takeWhile_prefix _).length_le
  · exact operatorEnd_le c s
  · exact Nat.zero_le _

/-! ### What stands behind a token -/

section Append

variable {s y z : List Char} {c d : Char}

/-- A quoted text that is closed in front of a character is closed in front of another. -/
lemma quotedEnd_append {quote : Char} (hd : d ≠ quote)
    (h : quotedEnd quote (s ++ c :: z) = quotedEnd quote s) :
    quotedEnd quote (s ++ d :: y) = quotedEnd quote s := by
  have hpos : ∀ (a : Char) (t : List Char), quotedEnd quote (a :: t) ≠ 0 := by
    intro a t
    cases t with
    | nil => exact Nat.one_ne_zero
    | cons b t =>
      rw [quotedEnd]
      split_ifs <;> exact Nat.succ_ne_zero _
  induction s using quotedEnd.induct quote with
  | case1 => exact absurd h (hpos c z)
  | case2 a =>
    rw [List.singleton_append, quotedEnd, quotedEnd]
    rw [List.singleton_append, quotedEnd, quotedEnd] at h
    by_cases ha : a = quote
    · rw [if_pos ha, if_neg hd]
    · rw [if_neg ha] at h
      exact absurd (Nat.succ.inj h) (hpos c z)
  | case3 s ih =>
    have hdouble : ∀ t, quotedEnd quote (quote :: quote :: t) = quotedEnd quote t + 2 := by
      intro t
      rw [quotedEnd, if_pos rfl, if_pos rfl]
    rw [List.cons_append, List.cons_append, hdouble, hdouble] at h ⊢
    rw [ih (Nat.add_right_cancel h)]
  | case4 a s ha =>
    rw [List.cons_append, List.cons_append, quotedEnd, quotedEnd, if_pos rfl, if_neg ha, if_pos rfl,
      if_neg ha]
  | case5 a b s ha ih =>
    rw [List.cons_append, List.cons_append, quotedEnd, quotedEnd, if_neg ha, if_neg ha] at h ⊢
    rw [← List.cons_append] at h ⊢
    rw [ih (Nat.succ.inj h)]

/-- A run of characters goes on in what stands behind it, if that starts with such a character. -/
lemma takeWhile_append_iff (p : Char → Bool) (s y : List Char) :
    ((s ++ y).takeWhile p).length = (s.takeWhile p).length ↔
      (s.length ≤ (s.takeWhile p).length → ∀ a ∈ y.head?, p a = false) := by
  rw [List.takeWhile_append]
  split_ifs with hall
  · have hnil : ((s ++ y.takeWhile p).length = (s.takeWhile p).length) ↔ y.takeWhile p = [] := by
      rw [hall, List.length_append, ← List.length_eq_zero_iff]
      omega
    rw [hnil, forall_prop_of_true (hall ▸ Nat.le_refl _)]
    cases y with
    | nil => simp
    | cons a y => simp [List.takeWhile_cons]
  · have hle := (List.takeWhile_prefix (l := s) p).length_le
    refine iff_of_true rfl fun hge => absurd (Nat.le_antisymm hle hge) hall

lemma lineEnd_append (hc : c ≠ '\n') (h : lineEnd (s ++ c :: z) = lineEnd s) :
    lineEnd (s ++ y) = lineEnd s := by
  refine (takeWhile_append_iff _ s y).2 fun hle => ?_
  have hstop := (takeWhile_append_iff _ s (c :: z)).1 h hle c rfl
  exact absurd (of_decide_eq_false hstop) (not_not.2 hc)

lemma commentEnd_append (hs : s ≠ []) (h : commentEnd (s ++ c :: z) = commentEnd s) :
    commentEnd (s ++ y) = commentEnd s := by
  obtain ⟨a, s, rfl⟩ := List.exists_cons_of_ne_nil hs
  simp only [commentEnd, List.cons_append, List.drop_succ_cons, List.drop_zero] at h ⊢
  cases hfind : find ['*', '/'] s with
  | some i => rw [((find_eq_some_iff s y i).1 hfind).1]; rfl
  | none =>
    rw [hfind] at h
    cases hlong : find ['*', '/'] (s ++ c :: z) with
    | none =>
      rw [hlong] at h
      simp only [Option.elim_none, List.length_cons, List.length_append] at h
      omega
    | some i =>
      rw [hlong] at h
      simp only [Option.elim_none, Option.elim_some, List.length_cons] at h
      have hshort := (find_eq_some_iff s (c :: z) i).2 ⟨hlong, by
        simp only [List.length_cons, List.length_nil]
        omega⟩
      rw [hfind] at hshort
      cases hshort

/-- An operator that ends in the text is not changed by what stands behind it. -/
lemma operatorRun_append_of_ne (h : operatorRun s ≠ s) (y : List Char) :
    operatorRun (s ++ y) = operatorRun s := by
  induction s with
  | nil => exact absurd rfl h
  | cons c s ih =>
    rw [operatorRun] at h
    rw [List.cons_append, operatorRun, operatorRun]
    cases s with
    | nil =>
      split_ifs at h with hend
      · obtain hop | ⟨-, hhead⟩ | ⟨-, hhead⟩ := hend
        · rw [if_pos (Or.inl hop), if_pos (Or.inl hop)]
        · cases hhead
        · cases hhead
      · exact absurd rfl h
    | cons b s =>
      rw [List.cons_append, List.head?_cons, List.head?_cons, ← List.cons_append]
      rw [List.head?_cons] at h
      split_ifs at h ⊢ with hend
      · rfl
      · rw [ih fun heq => h (by rw [heq])]

/-- An operator up to the end of the text grows by a sign: a second `-` starts a comment. -/
lemma operatorRun_append_sign (h : operatorRun s = s) (hd : isOperatorChar d = false) :
    operatorRun (s ++ '-' :: d :: y) =
      if s.getLast? = some '-' then s.dropLast else s ++ ['-'] := by
  have hdash : d ≠ '-' := by
    rintro rfl
    cases hd
  have hsign : operatorRun ('-' :: d :: y) = ['-'] := by
    rw [operatorRun, if_neg, operatorRun, if_pos (Or.inl hd)]
    rintro (hop | ⟨-, hhead⟩ | ⟨hslash, -⟩)
    · cases hop
    · exact hdash (Option.some.inj hhead)
    · cases hslash
  induction s with
  | nil => exact hsign
  | cons c s ih =>
    rw [operatorRun] at h
    split_ifs at h with hend
    have hs : operatorRun s = s := (List.cons.inj h).2
    rw [List.cons_append, operatorRun]
    cases s with
    | nil =>
      by_cases hc : c = '-'
      · rw [if_pos (Or.inr (Or.inl ⟨hc, rfl⟩)), hc]
        rfl
      · rw [if_neg, List.nil_append, hsign, if_neg]
        · rfl
        · exact fun hlast => hc (Option.some.inj hlast)
        · rintro (hop | ⟨hc', -⟩ | ⟨-, hhead⟩)
          · exact hend (Or.inl hop)
          · exact hc hc'
          · cases hhead
    | cons b s =>
      rw [List.head?_cons] at hend
      rw [List.cons_append, List.head?_cons, ← List.cons_append, if_neg hend, ih hs,
        List.getLast?_cons_cons]
      split_ifs
      · rfl
      · rfl

/-- An operator up to the end of the text does not grow by another character. -/
lemma operatorRun_append_of_not (hd : isOperatorChar d = false) :
    operatorRun (s ++ d :: y) = operatorRun s := by
  by_cases h : operatorRun s = s
  · have hdash : d ≠ '-' := by
      rintro rfl
      cases hd
    have hstar : d ≠ '*' := by
      rintro rfl
      cases hd
    induction s with
    | nil => exact if_pos (Or.inl hd)
    | cons c s ih =>
      rw [List.cons_append, operatorRun, operatorRun]
      rw [operatorRun] at h
      split_ifs at h with hend
      have hs : operatorRun s = s := (List.cons.inj h).2
      rw [ih hs, if_neg hend, if_neg]
      cases s with
      | nil =>
        rintro (hop | ⟨-, hhead⟩ | ⟨-, hhead⟩)
        · exact hend (Or.inl hop)
        · exact hdash (Option.some.inj hhead)
        · exact hstar (Option.some.inj hhead)
      | cons b s => exact hend
  · exact operatorRun_append_of_ne h _

lemma operatorEnd_append_of_not (hd : isOperatorChar d = false) :
    operatorEnd c (s ++ d :: y) = operatorEnd c s := by
  rw [operatorEnd, operatorEnd, operatorRun_append_of_not hd]

/-- A sign behind an operator is one of its own, unless the operator may end with it, or the two
start a comment. -/
lemma operatorEnd_append_sign (hd : isOperatorChar d = false) (hs : s = [] → c ≠ '-') :
    operatorEnd c (s ++ '-' :: d :: y) = operatorEnd c s ↔
      (s.length ≤ operatorEnd c s →
        ((c :: s).getLast? == some '-' || (c :: s).any keepsSign) = false) := by
  have hdrop : ∀ t : List Char, (t ++ ['-']).rdropWhile isSign = t.rdropWhile isSign := fun t =>
    List.rdropWhile_concat_pos isSign t '-' rfl
  by_cases h : operatorRun s = s
  swap
  · -- the operator ends in the text
    have hlt : (operatorRun s).length < s.length :=
      lt_of_le_of_ne (operatorRun_front s).length_le fun hlen =>
        h ((operatorRun_front s).eq_of_length hlen)
    have hle : operatorEnd c s ≤ (operatorRun s).length := by
      rw [operatorEnd]
      split_ifs
      · exact Nat.le_refl _
      · exact (List.rdropWhile_prefix isSign _).length_le
    rw [operatorEnd, operatorRun_append_of_ne h, ← operatorEnd]
    exact iff_of_true rfl fun hge => by omega
  rw [operatorEnd, operatorEnd, operatorRun_append_sign h hd, h]
  by_cases hlast : s.getLast? = some '-'
  · obtain ⟨t, rfl⟩ : ∃ t, s = t ++ ['-'] :=
      ⟨s.dropLast, (List.dropLast_append_getLast? '-' hlast).symm⟩
    have hany : (c :: (t ++ ['-'])).any keepsSign = (c :: t).any keepsSign := by
      rw [← List.cons_append, List.any_append]
      exact Bool.or_false _
    have hle := (List.rdropWhile_prefix isSign t).length_le
    rw [if_pos hlast, List.dropLast_concat, hany, hdrop, List.length_append, List.length_singleton]
    have hend : (c :: (t ++ ['-'])).getLast? = some '-' := by
      rw [← List.cons_append, List.getLast?_concat]
    rw [hend]
    split_ifs with hkeep
    · refine iff_of_false (by omega) fun hall => ?_
      cases hall (Nat.le_refl _)
    · exact iff_of_true rfl fun hge => by omega
  · have hend : ((c :: s).getLast? == some '-') = false := by
      rw [beq_eq_false_iff_ne]
      cases s with
      | nil => exact fun heq => hs rfl (Option.some.inj heq)
      | cons b s => rwa [List.getLast?_cons_cons]
    have hany : (c :: (s ++ ['-'])).any keepsSign = (c :: s).any keepsSign := by
      rw [← List.cons_append, List.any_append]
      exact Bool.or_false _
    rw [if_neg hlast, hany, hdrop, List.length_append, List.length_singleton, hend, Bool.false_or]
    cases hkeep : (c :: s).any keepsSign with
    | true =>
      rw [if_pos rfl, if_pos rfl]
      refine iff_of_false (by omega) fun hall => ?_
      cases hall (Nat.le_refl _)
    | false => exact iff_of_true rfl fun _ => rfl

/-- **A token is changed by a character behind it** if it is a run that goes on, or an operator that
does. -/
theorem sqlCut_append_iff (h : sqlCut c (s ++ ':' :: z) = sqlCut c s)
    (hd : d ≠ '\'' ∧ d ≠ '"' ∧ d ≠ '*' ∧ d ≠ ':') (hs : s = [] → c = '-' → d ≠ '-') :
    sqlCut c (s ++ d :: y) = sqlCut c s ↔
      match (sqlCut c s).1 with
      | .placeholder => s.length ≤ (sqlCut c s).2 → isNameChar d = false
      | .word => s.length ≤ (sqlCut c s).2 → isLexemeChar d = false
      | .operator => operatorEnd c (s ++ d :: y) = operatorEnd c s
      | _ => True := by
  have hhead : ∀ e, d ≠ e → ((s ++ d :: y).head? = some e ↔ s.head? = some e) := by
    intro e he
    cases s with
    | nil => exact iff_of_false (fun heq => he (Option.some.inj heq)) nofun
    | cons b s => exact Iff.rfl
  have hline : c = '-' ∧ (s ++ d :: y).head? = some '-' ↔ c = '-' ∧ s.head? = some '-' := by
    refine and_congr_right fun hc => ?_
    cases s with
    | nil => exact iff_of_false (fun heq => hs rfl hc (Option.some.inj heq)) nofun
    | cons b s => exact Iff.rfl
  have hcomment := and_congr_right_iff.2 fun _ : c = '/' => hhead '*' hd.2.2.1
  have hsecond : ∀ (e : Char) (t : List Char), s.head? = some e → (s ++ t).head? = some e := by
    intro e t he
    cases s with
    | nil => cases he
    | cons b s => exact he
  by_cases hquote : c = '\'' ∨ c = '"'
  · have hcut : ∀ t, sqlCut c t = (.quoted, quotedEnd c t) := fun t => if_pos hquote
    have hne : d ≠ c := by
      rintro rfl
      exact hquote.elim hd.1 hd.2.1
    rw [hcut, hcut] at h ⊢
    exact iff_of_true (by rw [quotedEnd_append hne (Prod.mk.inj h).2]) trivial
  by_cases hdash : c = '-' ∧ s.head? = some '-'
  · have hcut : ∀ t, c = '-' ∧ t.head? = some '-' → sqlCut c t = (.comment, lineEnd t) := by
      intro t ht
      rw [sqlCut, if_neg hquote, if_pos ht]
    rw [hcut s hdash, hcut _ ⟨hdash.1, hsecond _ _ hdash.2⟩] at h ⊢
    exact iff_of_true (by rw [lineEnd_append (by decide) (Prod.mk.inj h).2]) trivial
  by_cases hslash : c = '/' ∧ s.head? = some '*'
  · have hcut : ∀ t, c = '/' ∧ t.head? = some '*' → sqlCut c t = (.comment, commentEnd t) := by
      intro t ht
      rw [sqlCut, if_neg hquote, if_neg (fun hc => absurd (ht.1.symm.trans hc.1) (by decide)),
        if_pos ht]
    have hne : s ≠ [] := by
      rintro rfl
      cases hslash.2
    rw [hcut s hslash, hcut _ ⟨hslash.1, hsecond _ _ hslash.2⟩] at h ⊢
    exact iff_of_true (by rw [commentEnd_append hne (Prod.mk.inj h).2]) trivial
  have hcut : sqlCut c (s ++ d :: y) = sqlCut c s ↔
      (if c = ':' then
        if s.head? = some ':' then (.symbol, 1)
        else if (s ++ d :: y).takeWhile isNameChar ≠ [] then
          (.placeholder, ((s ++ d :: y).takeWhile isNameChar).length)
        else (.symbol, 0)
      else if isLexemeChar c then (.word, ((s ++ d :: y).takeWhile isLexemeChar).length)
      else if isOperatorChar c then (.operator, operatorEnd c (s ++ d :: y))
      else (.symbol, 0)) = sqlCut c s := by
    rw [sqlCut, if_neg hquote, if_neg (hline.not.2 hdash), if_neg (hcomment.not.2 hslash)]
    simp only [hhead ':' hd.2.2.2]
  have hrun : ∀ (kind : SqlKind) (p : Char → Bool),
      (kind, ((s ++ d :: y).takeWhile p).length) = (kind, (s.takeWhile p).length) ↔
        (s.length ≤ (s.takeWhile p).length → p d = false) := by
    intro kind p
    rw [Prod.mk.injEq, and_iff_right rfl, takeWhile_append_iff]
    refine forall_congr' fun _ => ?_
    rw [List.head?_cons]
    exact ⟨fun hall => hall d rfl, fun hone a ha => Option.some.inj ha ▸ hone⟩
  rw [hcut, sqlCut, if_neg hquote, if_neg hdash, if_neg hslash]
  by_cases hcolon : c = ':'
  · rw [if_pos hcolon, if_pos hcolon]
    by_cases hcast : s.head? = some ':'
    · rw [if_pos hcast, if_pos hcast]
      exact iff_of_true rfl trivial
    · rw [if_neg hcast, if_neg hcast]
      cases s with
      | nil =>
        rw [hcolon] at h
        exact absurd (Prod.mk.inj h).2 Nat.one_ne_zero
      | cons b s =>
        by_cases hb : isNameChar b = true
        · have hne : ∀ t, (b :: t).takeWhile isNameChar ≠ [] := by
            intro t
            rw [List.takeWhile_cons_of_pos hb]
            exact List.cons_ne_nil _ _
          rw [List.cons_append, if_pos (hne _), if_pos (hne _), ← List.cons_append]
          exact hrun .placeholder isNameChar
        · have hnil : ∀ t, (b :: t).takeWhile isNameChar = [] := fun t =>
            List.takeWhile_cons_of_neg hb
          rw [List.cons_append, hnil, hnil]
          exact iff_of_true rfl trivial
  rw [if_neg hcolon, if_neg hcolon]
  by_cases hword : isLexemeChar c = true
  · rw [if_pos hword, if_pos hword]
    exact hrun .word isLexemeChar
  rw [if_neg hword, if_neg hword]
  by_cases hoperator : isOperatorChar c = true
  · rw [if_pos hoperator, if_pos hoperator, Prod.mk.injEq, and_iff_right rfl]
  · rw [if_neg hoperator, if_neg hoperator]
    exact iff_of_true rfl trivial

lemma isOperatorChar_of_isDigit (hd : d.isDigit = true) : isOperatorChar d = false := by
  have hall : ∀ e ∈ "+-*/<>=~!@#%^&|\x60?".toList, e.isDigit = false := by decide
  rw [isOperatorChar, Bool.eq_false_iff]
  intro hmem
  rw [hall d (List.contains_iff_mem.1 hmem)] at hd
  cases hd

lemma isNameChar_of_isDigit (hd : d.isDigit = true) : isNameChar d = true := by
  rw [isNameChar, Char.isAlphanum, hd, Bool.or_true, Bool.true_or]

lemma isLexemeChar_of_isDigit (hd : d.isDigit = true) : isLexemeChar d = true := by
  rw [isLexemeChar, Char.isAlphanum, hd, Bool.or_true]
  rfl

/-- A digit is no other character that tokens start with. -/
lemma ne_of_isDigit {e : Char} (hd : d.isDigit = true) (he : e.isDigit = false) : d ≠ e := by
  rintro rfl
  rw [hd] at he
  cases he

lemma sqlCut_operator (h : (sqlCut c s).1 = .operator) : (sqlCut c s).2 = operatorEnd c s := by
  unfold sqlCut at h ⊢
  split_ifs at h ⊢
  rfl

/-- **A token is changed by a number behind it** if it ends the text and grows. -/
theorem sqlCut_append_number (negative : Bool) (hd : d.isDigit = true)
    (h : sqlCut c (s ++ ':' :: z) = sqlCut c s) :
    sqlCut c (s ++ ((if negative then ['-'] else []) ++ d :: y)) = sqlCut c s ↔
      (s.length ≤ (sqlCut c s).2 → grows negative ((sqlCut c s).1, c :: s) = false) := by
  have hoperator := isOperatorChar_of_isDigit hd
  cases negative with
  | false =>
    have hne : ∀ e : Char, e.isDigit = false → d ≠ e := fun e => ne_of_isDigit hd
    rw [if_neg Bool.false_ne_true, List.nil_append,
      sqlCut_append_iff h ⟨hne _ rfl, hne _ rfl, hne _ rfl, hne _ rfl⟩ fun _ _ => hne _ rfl,
      isNameChar_of_isDigit hd, isLexemeChar_of_isDigit hd, operatorEnd_append_of_not hoperator]
    cases hkind : (sqlCut c s).1 with
    | placeholder => exact Iff.rfl
    | word => exact Iff.rfl
    | operator =>
      rw [← sqlCut_operator hkind]
      exact iff_of_true rfl fun _ => rfl
    | quoted => exact iff_of_true trivial fun _ => rfl
    | comment => exact iff_of_true trivial fun _ => rfl
    | symbol => exact iff_of_true trivial fun _ => rfl
  | true =>
    rw [if_pos rfl, List.singleton_append]
    by_cases hdash : s = [] ∧ c = '-'
    · -- two signs start a comment
      obtain ⟨rfl, rfl⟩ := hdash
      refine iff_of_false (fun heq => ?_) fun hall => ?_
      · cases (Prod.mk.inj heq).1
      · cases hall (Nat.zero_le _)
    · rw [sqlCut_append_iff h (by decide) fun hs hc => absurd ⟨hs, hc⟩ hdash]
      cases hkind : (sqlCut c s).1 with
      | placeholder => exact iff_of_true (fun _ => rfl) fun _ => rfl
      | word => exact iff_of_true (fun _ => rfl) fun _ => rfl
      | operator =>
        rw [sqlCut_operator hkind]
        exact operatorEnd_append_sign hoperator fun hs hc => hdash ⟨hs, hc⟩
      | quoted => exact iff_of_true trivial fun _ => rfl
      | comment => exact iff_of_true trivial fun _ => rfl
      | symbol => exact iff_of_true trivial fun _ => rfl

/-- **Which tokens a number can stand behind**, where a placeholder is a token of its own. -/
theorem parted_number {pre : List Char} (negative : Bool) (hd : d.isDigit = true)
    (h : Parted sqlCut pre (':' :: z)) :
    Parted sqlCut pre ((if negative then ['-'] else []) ++ d :: y) ↔
      ∀ token ∈ (sqlTokens pre).getLast?, grows negative token = false := by
  induction pre using scan_induction with
  | nil => exact iff_of_true (parted_nil sqlCut _) nofun
  | cons c s ih =>
    obtain ⟨hcut, hrest⟩ := (parted_cons sqlCut_le c s _).1 h
    rw [parted_cons sqlCut_le, sqlCut_append_number negative hd hcut, ih _ hrest, sqlTokens_cons]
    by_cases hend : s.length ≤ (sqlCut c s).2
    · rw [List.drop_eq_nil_of_le hend, List.take_of_length_le hend, forall_prop_of_true hend]
      exact ⟨fun hg token ht => Option.some.inj ht ▸ hg.1, fun hall => ⟨hall _ rfl, nofun⟩⟩
    · rw [forall_prop_of_false hend, true_and]
      obtain ⟨b, t, hbt⟩ : ∃ b t, s.drop (sqlCut c s).2 = b :: t :=
        List.exists_cons_of_ne_nil fun hnil => hend (List.drop_eq_nil_iff.1 hnil)
      rw [hbt, sqlTokens_cons, List.getLast?_cons_cons]

/-- What a number can stand in front of. -/
lemma parted_digits {t post : List Char} (negative : Bool) (hd : d.isDigit = true)
    (ht : ∀ a ∈ t, isLexemeChar a = true) :
    Parted sqlCut ((if negative then ['-'] else []) ++ d :: t) post ↔
      ∀ a ∈ post.head?, isLexemeChar a = false := by
  have hne : ∀ e : Char, e.isDigit = false → d ≠ e := fun e => ne_of_isDigit hd
  have hword : ∀ t, sqlCut d t = (.word, (t.takeWhile isLexemeChar).length) := by
    intro t
    rw [sqlCut, if_neg (not_or.2 ⟨hne _ rfl, hne _ rfl⟩), if_neg fun hc => hne _ rfl hc.1,
      if_neg fun hc => hne _ rfl hc.1, if_neg (hne _ rfl), if_pos (isLexemeChar_of_isDigit hd)]
  have hall : t.takeWhile isLexemeChar = t := List.takeWhile_eq_self_iff.2 ht
  have hdigits : Parted sqlCut (d :: t) post ↔ ∀ a ∈ post.head?, isLexemeChar a = false := by
    rw [parted_cons sqlCut_le, hword, hword, Prod.mk.injEq, and_iff_right rfl,
      takeWhile_append_iff, hall, List.drop_length, and_iff_left (parted_nil sqlCut post),
      forall_prop_of_true (Nat.le_refl _)]
  cases negative with
  | false => exact hdigits
  | true =>
    have hsign : ∀ t, sqlCut '-' (d :: t) = (.operator, 0) := by
      intro t
      have hrun : operatorRun (d :: t) = [] := if_pos (Or.inl (isOperatorChar_of_isDigit hd))
      rw [sqlCut, if_neg (by decide), if_neg fun hc => hne _ rfl (Option.some.inj hc.2),
        if_neg (fun hc => absurd hc.1 (by decide)), if_neg (by decide), if_neg (by decide),
        if_pos (by decide), operatorEnd, hrun]
      rfl
    rw [if_pos rfl, List.singleton_append, parted_cons sqlCut_le, List.cons_append, hsign, hsign,
      and_iff_right rfl]
    exact hdigits

/-- **Where a number does not change the statement**: it is a token of its own. -/
theorem unchanged_iff {pre name t post : List Char} (h : IsPlaceholder pre name post)
    (negative : Bool) (hd : d.isDigit = true) (ht : ∀ a ∈ t, isLexemeChar a = true) :
    Unchanged pre ((if negative then ['-'] else []) ++ d :: t) post ↔
      Detached negative pre post := by
  have hparted := ((scan_append_eq_iff sqlCut_le pre _ _).1 h).1
  rw [Unchanged, sqlTokens, sqlTokens, scan_append_eq_iff sqlCut_le, List.append_assoc,
    List.cons_append]
  refine and_congr (parted_number negative hd hparted) ?_
  rw [← List.cons_append, ← List.append_assoc, eq_comm]
  exact parted_digits negative hd ht

end Append

end DbSaci.Wire
