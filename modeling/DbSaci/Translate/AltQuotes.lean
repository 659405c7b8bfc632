import DbSaci.Library.Fronts
import DbSaci.Library.Scanner
import DbSaci.Sql.Lexemes

set_option relaxedAutoImplicit false
set_option autoImplicit false

/-!
# Literals with a delimiter of their own

`normalize_alt_quotes` writes `q'[..]'` and its like as string literals. It copies string literals
and knows neither comments nor quoted identifiers. Each apostrophe that it copies opens or closes
what it takes for a literal.

## Main definitions

* `normalizeAltQuotes` — the pass.
* `Lexeme.normal` — what is meant for a token.
* `InStep`, `Detached` — the conditions on a statement.

## Main results

* `runFrom_iff` — when the pass replaces the literals that it should, and nothing else.
* `altQuotes_normal_iff` — that, for a whole statement.
-/

namespace DbSaci.Translate.AltQuotes

open Text Sql Sql.Lexeme

/-! ### The pass -/

/-- The text in front of the first delimiter with an apostrophe behind it, and what comes behind. -/
def findClose (close : Char) : List Char → Option (List Char × List Char)
  | [] => none
  | [_] => none
  | c :: d :: s =>
    if c = close ∧ d = '\'' then some ([], s)
    else (findClose close (d :: s)).map fun found => (c :: found.1, found.2)

/-- The literal behind its letters: what is in it, and what comes behind. A delimiter of several
bytes is looked for by the first of them, and never found. -/
def altBody : List Char → Option (List Char × List Char)
  | q :: delim :: s =>
    if q = '\'' ∧ delim.utf8Size = 1 then findClose (closer delim) s else none
  | _ => none

/-- The literal at the start of a text. -/
def altLiteral : List Char → Option (List Char × List Char)
  | [] => none
  | [_] => none
  | c :: d :: s =>
    if c = 'q' ∨ c = 'Q' then altBody (d :: s)
    else if (c = 'n' ∨ c = 'N') ∧ (d = 'q' ∨ d = 'Q') then altBody s
    else none

/-- Each apostrophe is doubled. -/
def doubleQuotes (s : List Char) : List Char :=
  s.flatMap fun c => if c = '\'' then ['\'', '\''] else [c]

/-- One step of the loop: what is written at a character, and how many of those behind are read. -/
def altNext (c : Char) (s : List Char) : List Char × ℕ :=
  if c = '\'' then (c :: s.take (skipQuoted c s), skipQuoted c s)
  else
    match altLiteral (c :: s) with
    | some (inner, rest) => ('\'' :: (doubleQuotes inner ++ ['\'']), s.length - rest.length)
    | none => ([c], 0)

/-- `normalize_alt_quotes`. -/
def normalizeAltQuotes (sql : List Char) : List Char := (scan altNext sql).flatten

/-! ### What is meant -/

/-- A literal with a delimiter of its own becomes a string literal. -/
def normal : Lexeme → Lexeme
  | .alternative _ _ content => .string (doubleQuotes content)
  | t => t

/-- What stays open behind a text: the apostrophes in it open and close. -/
def openAfter (b : Bool) (s : List Char) : Bool := s.foldl (fun b c => if c = '\'' then !b else b) b

/-- Nothing is read as a literal with a delimiter of its own that starts in a text. -/
def Still (b : Bool) (x y : List Char) : Prop :=
  ∀ u v, x = u ++ v → v ≠ [] → openAfter b u = false → altLiteral (v ++ y) = none

/-- **The pass is in step with the tokens**: in front of a literal with a delimiter of its own the
apostrophes are paired, the delimiter is one byte, and in no other token such a literal seems to
start. -/
def InStep : Bool → List Lexeme → Prop
  | _, [] => True
  | b, .alternative _ delim _ :: ts => b = false ∧ delim.utf8Size = 1 ∧ InStep false ts
  | b, t :: ts => Still b t.text (lexemesText ts) ∧ InStep (openAfter b t.text) ts

/-- No two literals stand side by side. -/
def Detached : List Lexeme → Prop
  | [] => True
  | t :: ts => (t.IsLiteral → ∀ u ∈ ts.head?, ¬ u.IsLiteral) ∧ Detached ts

/-! ### The run -/

/-- The pass from inside or outside a literal. -/
def runFrom : Bool → List Char → List Char
  | false, s => normalizeAltQuotes s
  | true, s => s.take (skipQuoted '\'' s) ++ normalizeAltQuotes (s.drop (skipQuoted '\'' s))

lemma normalizeAltQuotes_cons (c : Char) (s : List Char) :
    normalizeAltQuotes (c :: s) =
      (altNext c s).1 ++ normalizeAltQuotes (s.drop (altNext c s).2) := by
  rw [normalizeAltQuotes, scan_cons, List.flatten_cons, normalizeAltQuotes]

lemma runFrom_false (s : List Char) : runFrom false s = normalizeAltQuotes s := rfl

lemma runFrom_true (s : List Char) : runFrom true s =
    s.take (skipQuoted '\'' s) ++ normalizeAltQuotes (s.drop (skipQuoted '\'' s)) := rfl

lemma runFrom_nil (b : Bool) : runFrom b [] = [] := by
  cases b <;> rfl

/-- Inside a literal a character is copied. -/
lemma runFrom_true_cons (c : Char) (s : List Char) :
    runFrom true (c :: s) = c :: runFrom (if c = '\'' then false else true) s := by
  by_cases hc : c = '\''
  · subst hc
    rw [if_pos rfl]
    cases s with
    | nil => rfl
    | cons d s =>
      by_cases hd : d = '\''
      · -- a doubled apostrophe closes and opens
        subst hd
        have hskip : skipQuoted '\'' ('\'' :: '\'' :: s) = skipQuoted '\'' s + 2 := by
          rw [skipQuoted, if_pos rfl, if_pos rfl]
        rw [runFrom_true, hskip, List.take_succ_cons, List.take_succ_cons, List.drop_succ_cons,
          List.drop_succ_cons, runFrom_false, normalizeAltQuotes_cons, altNext, if_pos rfl]
        rfl
      · have hskip : skipQuoted '\'' ('\'' :: d :: s) = 1 := by
          rw [skipQuoted, if_pos rfl, if_neg hd]
        rw [runFrom_true, hskip]
        rfl
  · rw [if_neg hc]
    have hskip : skipQuoted '\'' (c :: s) = skipQuoted '\'' s + 1 := by
      cases s with
      | nil => rfl
      | cons d s => rw [skipQuoted, if_neg hc]
    rw [runFrom_true, hskip, List.take_succ_cons, List.drop_succ_cons, runFrom_true,
      List.cons_append]

/-- Outside a literal a character is copied where no literal with a delimiter starts. -/
lemma runFrom_false_cons {c : Char} {s : List Char} (h : altLiteral (c :: s) = none) :
    runFrom false (c :: s) = c :: runFrom (if c = '\'' then true else false) s := by
  by_cases hc : c = '\''
  · rw [if_pos hc, runFrom_false, normalizeAltQuotes_cons, altNext, if_pos hc, runFrom_true, hc]
    rfl
  · rw [if_neg hc, runFrom_false, normalizeAltQuotes_cons, altNext, if_neg hc, h, runFrom_false]
    rfl

lemma findClose_suffix {close : Char} {s inner rest : List Char}
    (h : findClose close s = some (inner, rest)) : rest <:+ s := by
  induction s generalizing inner with
  | nil => cases h
  | cons c s ih =>
    cases s with
    | nil => cases h
    | cons d s =>
      rw [findClose] at h
      split_ifs at h with hclose
      · obtain ⟨-, rfl⟩ := Prod.mk.inj (Option.some.inj h)
        exact (List.suffix_cons d s).trans (List.suffix_cons c _)
      · obtain ⟨⟨inner', rest'⟩, hfound, heq⟩ := Option.map_eq_some_iff.1 h
        obtain ⟨-, rfl⟩ := Prod.mk.inj heq
        exact (ih hfound).trans (List.suffix_cons c _)

lemma altLiteral_suffix {c : Char} {s inner rest : List Char}
    (h : altLiteral (c :: s) = some (inner, rest)) : rest <:+ s := by
  have hbody : ∀ {t : List Char}, altBody t = some (inner, rest) → rest <:+ t := by
    intro t ht
    match t, ht with
    | q :: delim :: t, ht =>
      rw [altBody] at ht
      split_ifs at ht
      exact (findClose_suffix ht).trans ((List.suffix_cons _ _).trans (List.suffix_cons _ _))
  cases s with
  | nil => cases h
  | cons d s =>
    rw [altLiteral] at h
    split_ifs at h
    · exact hbody h
    · exact (hbody h).trans (List.suffix_cons d s)

/-- A literal with a delimiter is replaced. -/
lemma runFrom_false_literal {c : Char} {s inner rest : List Char}
    (h : altLiteral (c :: s) = some (inner, rest)) :
    runFrom false (c :: s) = '\'' :: (doubleQuotes inner ++ ['\'']) ++ runFrom false rest := by
  have hc : c ≠ '\'' := by
    rintro rfl
    cases s <;> cases h
  obtain ⟨front, rfl⟩ := altLiteral_suffix h
  have hlen : (front ++ rest).length - rest.length = front.length := by
    rw [List.length_append, Nat.add_sub_cancel]
  rw [runFrom_false, normalizeAltQuotes_cons, altNext, if_neg hc, h, runFrom_false]
  simp only [hlen, List.drop_left]

/-- Such a literal starts with a letter. -/
lemma ne_quote_of_altLiteral {c : Char} {s : List Char} {found : List Char × List Char}
    (h : altLiteral (c :: s) = some found) : c ≠ '\'' := by
  rintro rfl
  cases s <;> cases h

/-- Such a literal at the start of a text is seen in what is written. -/
lemma runFrom_ne_of_altLiteral {c : Char} {s : List Char} {found : List Char × List Char}
    (h : altLiteral (c :: s) = some found) (z : List Char) : runFrom false (c :: s) ≠ c :: z := by
  obtain ⟨inner, rest⟩ := found
  rw [runFrom_false_literal h]
  intro heq
  exact ne_quote_of_altLiteral h (List.cons.inj heq).1.symm

/-! ### Tokens -/

lemma openAfter_cons (b : Bool) (c : Char) (x : List Char) :
    openAfter b (c :: x) = openAfter (if c = '\'' then !b else b) x := rfl

lemma still_cons {b : Bool} {c : Char} {x y : List Char} :
    Still b (c :: x) y ↔ (b = false → altLiteral (c :: (x ++ y)) = none) ∧
      Still (if c = '\'' then !b else b) x y := by
  constructor
  · intro h
    refine ⟨fun hb => h [] (c :: x) rfl (List.cons_ne_nil c x) hb, fun u v hx hv hopen => ?_⟩
    exact h (c :: u) v (by rw [hx, List.cons_append]) hv hopen
  · rintro ⟨hhere, hrest⟩ u v hx hv hopen
    cases u with
    | nil =>
      rw [List.nil_append] at hx
      rw [← hx]
      exact hhere hopen
    | cons d u =>
      obtain ⟨rfl, htail⟩ := List.cons.inj hx
      exact hrest u v htail hv hopen

/-- **A text is copied** if and only if no literal with a delimiter seems to start in it. -/
theorem runFrom_append_iff (b : Bool) (x y z : List Char) :
    runFrom b (x ++ y) = x ++ z ↔ Still b x y ∧ runFrom (openAfter b x) y = z := by
  induction x generalizing b with
  | nil =>
    have hstill : Still b [] y := by
      intro u v hx hv
      exact absurd (List.append_eq_nil_iff.1 hx.symm).2 hv
    exact (and_iff_right hstill).symm
  | cons c x ih =>
    rw [still_cons, openAfter_cons, and_assoc, ← ih, List.cons_append, List.cons_append]
    cases b with
    | true =>
      have hstep : (if c = '\'' then !true else true) = (if c = '\'' then false else true) := rfl
      rw [hstep, runFrom_true_cons, List.cons.injEq]
      simp
    | false =>
      have hstep : (if c = '\'' then !false else false) = (if c = '\'' then true else false) := rfl
      cases halt : altLiteral (c :: (x ++ y)) with
      | none =>
        rw [hstep, runFrom_false_cons halt, List.cons.injEq]
        simp
      | some found =>
        exact iff_of_false (runFrom_ne_of_altLiteral halt _) (by simp)

/-- The delimiter is found that closes the literal. -/
lemma findClose_append {close : Char} {content : List Char}
    (h : ¬ [close, '\''] <:+: content ++ [close]) (rest : List Char) :
    findClose close (content ++ close :: '\'' :: rest) = some (content, rest) := by
  induction content with
  | nil => rw [List.nil_append, findClose, if_pos ⟨rfl, rfl⟩]
  | cons c content ih =>
    have hrest : ¬ [close, '\''] <:+: content ++ [close] := fun hin =>
      h (hin.trans (List.suffix_cons c _).isInfix)
    obtain ⟨d, s, hds⟩ : ∃ d s, content ++ [close] = d :: s :=
      List.exists_cons_of_ne_nil (by simp)
    have htext : content ++ close :: '\'' :: rest = d :: (s ++ '\'' :: rest) := by
      have hsplit : content ++ close :: '\'' :: rest = (content ++ [close]) ++ '\'' :: rest := by simp
      rw [hsplit, hds, List.cons_append]
    have hnot : ¬ (c = close ∧ d = '\'') := by
      rintro ⟨rfl, rfl⟩
      apply h
      rw [List.cons_append, hds]
      exact (List.prefix_append [c, '\''] s).isInfix
    rw [List.cons_append, htext, findClose, if_neg hnot, ← htext, ih hrest]
    rfl

/-- A letter of the mark. -/
lemma isMark_cases {mark : List Char} (h : upper mark ∈ ["Q".toList, "NQ".toList]) :
    (∃ q, mark = [q] ∧ (q = 'q' ∨ q = 'Q')) ∨
      ∃ n q, mark = [n, q] ∧ (n = 'n' ∨ n = 'N') ∧ (q = 'q' ∨ q = 'Q') := by
  have hq : ∀ {c : Char}, c.toUpper = 'Q' → c = 'q' ∨ c = 'Q' := fun hc =>
    (eq_or_of_toUpper hc).symm
  have hn : ∀ {c : Char}, c.toUpper = 'N' → c = 'n' ∨ c = 'N' := fun hc =>
    (eq_or_of_toUpper hc).symm
  simp only [List.mem_cons, List.not_mem_nil, or_false] at h
  rcases h with h | h
  · obtain ⟨q, hmark, hup⟩ := List.map_eq_singleton_iff.1 h
    exact Or.inl ⟨q, hmark, hq hup⟩
  · obtain ⟨n, t, hmark, hup, ht⟩ := List.map_eq_cons_iff.1 h
    obtain ⟨q, rfl, hup'⟩ := List.map_eq_singleton_iff.1 ht
    exact Or.inr ⟨n, q, hmark, hn hup, hq hup'⟩

/-- **A literal with a delimiter is read** if and only if the delimiter is one byte. -/
theorem altLiteral_text {mark content rest : List Char} {delim : Char}
    (h : (Lexeme.alternative mark delim content).Reads rest) :
    altLiteral ((Lexeme.alternative mark delim content).text ++ rest) =
      if delim.utf8Size = 1 then some (content, rest) else none := by
  obtain ⟨hmark, -, hclose⟩ := h
  have hbody : altBody ('\'' :: delim :: (content ++ [closer delim, '\''] ++ rest)) =
      if delim.utf8Size = 1 then some (content, rest) else none := by
    have htext : content ++ [closer delim, '\''] ++ rest = content ++ closer delim :: '\'' :: rest := by
      simp
    rw [altBody, htext, findClose_append hclose]
    simp only [true_and]
  rcases isMark_cases hmark with ⟨q, rfl, hq⟩ | ⟨n, q, rfl, hn, hq⟩
  · show altLiteral (q :: '\'' :: delim :: (content ++ [closer delim, '\''] ++ rest)) = _
    rw [altLiteral, if_pos hq, hbody]
  · have hnot : ¬ (n = 'q' ∨ n = 'Q') := by
      rcases hn with rfl | rfl <;> decide
    show altLiteral (n :: q :: '\'' :: delim :: (content ++ [closer delim, '\''] ++ rest)) = _
    rw [altLiteral, if_neg hnot, if_pos ⟨hn, hq⟩, hbody]

/-- **When the pass replaces the literals that it should, and nothing else.** -/
theorem runFrom_iff (b : Bool) {ts : List Lexeme} (h : Lexed ts) :
    runFrom b (lexemesText ts) = lexemesText (ts.map normal) ↔ InStep b ts := by
  induction ts generalizing b with
  | nil => exact iff_of_true (runFrom_nil b) trivial
  | cons t ts ih =>
    obtain ⟨ht, hts⟩ := h
    rw [List.map_cons, lexemesText_cons, lexemesText_cons]
    have hcopied : runFrom b (t.text ++ lexemesText ts) = t.text ++ lexemesText (ts.map normal) ↔
        Still b t.text (lexemesText ts) ∧ InStep (openAfter b t.text) ts := by
      rw [runFrom_append_iff, ih _ hts]
    cases t with
    | word w => exact hcopied
    | sym c => exact hcopied
    | string body => exact hcopied
    | identifier body => exact hcopied
    | lineComment body => exact hcopied
    | blockComment body => exact hcopied
    | alternative mark delim content =>
      have halt := altLiteral_text ht
      obtain ⟨c, s, hcs⟩ := Lexeme.exists_cons ht
      have hc : c ≠ '\'' := by
        rcases isMark_cases ht.1 with ⟨q, rfl, hq⟩ | ⟨n, q, rfl, hn, -⟩
        · obtain rfl := (List.cons.inj hcs).1
          rcases hq with rfl | rfl <;> decide
        · obtain rfl := (List.cons.inj hcs).1
          rcases hn with rfl | rfl <;> decide
      have hkept : ∀ z, c :: z ≠ (normal (.alternative mark delim content)).text ++
          lexemesText (ts.map normal) := fun z heq => hc (List.cons.inj heq).1
      show _ ↔ b = false ∧ delim.utf8Size = 1 ∧ InStep false ts
      rw [hcs, List.cons_append] at halt ⊢
      cases b with
      | true =>
        rw [runFrom_true_cons]
        exact iff_of_false (hkept _) (by simp)
      | false =>
        by_cases hsize : delim.utf8Size = 1
        · rw [if_pos hsize] at halt
          rw [runFrom_false_literal halt, ← ih false hts]
          show _ ++ _ = ('\'' :: (doubleQuotes content ++ ['\''])) ++ _ ↔ _
          rw [List.append_cancel_left_eq]
          simp [hsize]
        · rw [if_neg hsize] at halt
          rw [runFrom_false_cons halt]
          exact iff_of_false (hkept _) fun hand => hsize hand.2.1

/-! ### The tokens of what is written -/

lemma doubled_doubleQuotes (s : List Char) : Doubled '\'' (doubleQuotes s) := by
  induction s with
  | nil => trivial
  | cons c s ih =>
    have hcons : doubleQuotes (c :: s) =
        (if c = '\'' then ['\'', '\''] else [c]) ++ doubleQuotes s := List.flatMap_cons
    rw [hcons]
    split_ifs with hc
    · show Doubled '\'' ('\'' :: '\'' :: doubleQuotes s)
      rw [Doubled, if_pos rfl]
      exact ⟨rfl, ih⟩
    · rw [List.singleton_append]
      cases hs : doubleQuotes s with
      | nil => exact hc
      | cons d t =>
        rw [Doubled, if_neg hc, ← hs]
        exact ih

/-- A literal is written with an apostrophe first, and no other token is. -/
lemma head_normal_iff {t : Lexeme} {rest : List Char} (h : t.Reads rest) (y : List Char) :
    ((normal t).text ++ y).head? = some '\'' ↔ t.IsLiteral := by
  cases t with
  | word w =>
    obtain ⟨c, w, rfl⟩ := List.exists_cons_of_ne_nil h.1
    refine iff_of_false ?_ (fun hlit => hlit)
    intro hhead
    obtain rfl := Option.some.inj hhead
    have hname := h.2.1 '\'' List.mem_cons_self
    exact absurd hname (by decide)
  | sym c =>
    refine iff_of_false ?_ (fun hlit => hlit)
    intro hhead
    exact h.2.1 (Option.some.inj hhead)
  | string body => exact iff_of_true rfl trivial
  | alternative mark delim content => exact iff_of_true rfl trivial
  | identifier body => exact iff_of_false (by simp [normal, Lexeme.text]) (fun hlit => hlit)
  | lineComment body => exact iff_of_false (by simp [normal, Lexeme.text]) (fun hlit => hlit)
  | blockComment body => exact iff_of_false (by simp [normal, Lexeme.text]) (fun hlit => hlit)

lemma head_lexemes_iff {ts : List Lexeme} (h : Lexed ts) :
    (lexemesText (ts.map normal)).head? = some '\'' ↔ ∃ u ∈ ts.head?, u.IsLiteral := by
  cases ts with
  | nil => simp
  | cons u ts =>
    rw [List.map_cons, lexemesText_cons, head_normal_iff h.1]
    simp

/-- Behind a token that is no literal, the next character is the same or opens a literal. -/
lemma head_lexemes_or {ts : List Lexeme} (h : Lexed ts) :
    (lexemesText (ts.map normal)).head? = (lexemesText ts).head? ∨
      ((lexemesText (ts.map normal)).head? = some '\'' ∧
        ∃ c ∈ (lexemesText ts).head?, Physical.isNameChar c = true) := by
  cases ts with
  | nil => exact Or.inl rfl
  | cons u ts =>
    have hsame : ∀ {t : Lexeme}, t.Reads (lexemesText ts) → ∀ y,
        (t.text ++ y).head? = t.text.head? := by
      intro t ht y
      obtain ⟨c, s, hcs⟩ := Lexeme.exists_cons ht
      rw [hcs]
      rfl
    rw [List.map_cons, lexemesText_cons, lexemesText_cons]
    cases u with
    | alternative mark delim content =>
      refine Or.inr ⟨rfl, ?_⟩
      have hletters : ∀ c ∈ ['q', 'Q', 'n', 'N'], Physical.isNameChar c = true := by decide
      rcases isMark_cases h.1.1 with ⟨q, rfl, hq⟩ | ⟨n, q, rfl, hn, -⟩
      · refine ⟨q, rfl, hletters q ?_⟩
        rcases hq with rfl | rfl <;> decide
      · refine ⟨n, rfl, hletters n ?_⟩
        rcases hn with rfl | rfl <;> decide
    | word w => exact Or.inl ((hsame h.1 _).trans (hsame h.1 _).symm)
    | sym c => exact Or.inl ((hsame h.1 _).trans (hsame h.1 _).symm)
    | string body => exact Or.inl ((hsame h.1 _).trans (hsame h.1 _).symm)
    | identifier body => exact Or.inl ((hsame h.1 _).trans (hsame h.1 _).symm)
    | lineComment body => exact Or.inl ((hsame h.1 _).trans (hsame h.1 _).symm)
    | blockComment body => exact Or.inl ((hsame h.1 _).trans (hsame h.1 _).symm)

/-- A token is one of what is written, unless it is a literal with another one behind it. -/
lemma reads_normal_iff {t : Lexeme} {ts : List Lexeme} (ht : t.Reads (lexemesText ts))
    (hts : Lexed ts) :
    (normal t).Reads (lexemesText (ts.map normal)) ↔
      (t.IsLiteral → ∀ u ∈ ts.head?, ¬ u.IsLiteral) := by
  have hhead := head_lexemes_iff hts
  have hnone : (lexemesText (ts.map normal)).head? ≠ some '\'' ↔
      ∀ u ∈ ts.head?, ¬ u.IsLiteral := by
    rw [Ne, hhead]
    exact ⟨fun hno u hu hlit => hno ⟨u, hu, hlit⟩, fun hno ⟨u, hu, hlit⟩ => hno u hu hlit⟩
  cases t with
  | string body =>
    show Doubled '\'' body ∧ _ ↔ (True → _)
    rw [and_iff_right ht.1, true_imp_iff]
    exact hnone
  | alternative mark delim content =>
    show Doubled '\'' (doubleQuotes content) ∧ _ ↔ (True → _)
    rw [and_iff_right (doubled_doubleQuotes content), true_imp_iff]
    exact hnone
  | identifier body => exact iff_of_true ht (fun hlit => absurd hlit id)
  | blockComment body => exact iff_of_true ht (fun hlit => absurd hlit id)
  | word w =>
    refine iff_of_true ?_ (fun hlit => absurd hlit id)
    obtain ⟨hne, hw, hends, hmark⟩ := ht
    rcases head_lexemes_or hts with hsame | ⟨-, c, hc, hname⟩
    · exact ⟨hne, hw, by rwa [hsame], by rwa [hsame]⟩
    · rw [hends c hc] at hname
      cases hname
  | lineComment body =>
    refine iff_of_true ?_ (fun hlit => absurd hlit id)
    obtain ⟨hbody, hends⟩ := ht
    rcases head_lexemes_or hts with hsame | ⟨-, c, hc, hname⟩
    · exact ⟨hbody, by rwa [hsame]⟩
    · rw [hends c hc] at hname
      cases hname
  | sym c =>
    refine iff_of_true ?_ (fun hlit => absurd hlit id)
    obtain ⟨hname, hquote, hquotes, hdash, hslash⟩ := ht
    rcases head_lexemes_or hts with hsame | ⟨hlit, -⟩
    · exact ⟨hname, hquote, hquotes, by rwa [hsame], by rwa [hsame]⟩
    · refine ⟨hname, hquote, hquotes, fun _ => ?_, fun _ => ?_⟩
      · rw [hlit]
        decide
      · rw [hlit]
        decide

/-- **What is written has the tokens that are meant** if and only if no literals stand side by
side. -/
theorem lexed_normal_iff {ts : List Lexeme} (h : Lexed ts) :
    Lexed (ts.map normal) ↔ Detached ts := by
  induction ts with
  | nil => exact Iff.rfl
  | cons t ts ih => exact and_congr (reads_normal_iff h.1 h.2) (ih h.2)

lemma map_normal_normal (ts : List Lexeme) : (ts.map normal).map normal = ts.map normal := by
  rw [List.map_map]
  apply List.map_congr_left
  intro t _
  cases t <;> rfl

/-! ### Whole statements -/

/-- The tokens of a statement are normalised: each literal with a delimiter becomes a string literal
with the same content, every other token stays as it is, what is written has these tokens, and the
pass changes it no more. -/
def Normalised (ts : List Lexeme) : Prop :=
  normalizeAltQuotes (lexemesText ts) = lexemesText (ts.map normal) ∧ Lexed (ts.map normal) ∧
    normalizeAltQuotes (lexemesText (ts.map normal)) = lexemesText (ts.map normal)

/-- **When a statement is normalised token by token**: if and only if the pass is in step with its
tokens and with those that are meant, and no literals stand side by side. -/
theorem altQuotes_normal_iff {ts : List Lexeme} (h : Lexed ts) :
    Normalised ts ↔ InStep false ts ∧ Detached ts ∧ InStep false (ts.map normal) := by
  refine and_congr (runFrom_iff false h) ?_
  rw [← lexed_normal_iff h]
  refine and_congr_right fun hnormal => ?_
  have hiff := runFrom_iff false hnormal
  rw [map_normal_normal] at hiff
  exact hiff

/-! ### Statements -/

/-- Without the letters of a mark, no literal with a delimiter seems to start in a text. -/
lemma still_of_letters {x : List Char} (h : ∀ c ∈ x, c.toUpper ≠ 'Q' ∧ c.toUpper ≠ 'N') (b : Bool)
    (y : List Char) : Still b x y := by
  intro u v hx hv _
  obtain ⟨c, s, rfl⟩ := List.exists_cons_of_ne_nil hv
  obtain ⟨hq, hn⟩ := h c (by rw [hx]; exact List.mem_append_right u List.mem_cons_self)
  have hc : ¬ (c = 'q' ∨ c = 'Q') := by
    intro hor
    apply hq
    rcases hor with rfl | rfl <;> decide
  have hc' : ¬ (c = 'n' ∨ c = 'N') := by
    intro hor
    apply hn
    rcases hor with rfl | rfl <;> decide
  rw [List.cons_append]
  cases s ++ y with
  | nil => rfl
  | cons d s => rw [altLiteral, if_neg hc, if_neg fun hand => hc' hand.1]

/-- `SELECT q'[it's]' FROM t`. -/
def quoted : List Lexeme :=
  [.word "SELECT".toList, .sym ' ', .alternative ['q'] '[' "it's".toList, .sym ' ',
    .word "FROM".toList, .sym ' ', .word "t".toList]

/-- `SELECT 1 -- it's` and, on the next line, `, q'[a]' FROM t`. -/
def commented : List Lexeme :=
  [.word "SELECT".toList, .sym ' ', .word "1".toList, .sym ' ', .lineComment " it's".toList,
    .sym '\n', .sym ',', .sym ' ', .alternative ['q'] '[' "a".toList, .sym ' ',
    .word "FROM".toList, .sym ' ', .word "t".toList]

lemma lexed_quoted : Lexed quoted := by
  refine ⟨reads_word (by decide) rfl rfl, reads_sym rfl (by decide), ?_,
    reads_sym rfl (by decide), reads_word (by decide) rfl rfl, reads_sym rfl (by decide),
    reads_word (by decide) rfl rfl, trivial⟩
  exact ⟨by decide, by decide, by decide⟩

lemma lexed_commented : Lexed commented := by
  refine ⟨reads_word (by decide) rfl rfl, reads_sym rfl (by decide),
    reads_word (by decide) rfl rfl, reads_sym rfl (by decide), ⟨by decide, ?_⟩,
    reads_sym rfl (by decide), reads_sym rfl (by decide), reads_sym rfl (by decide),
    ⟨by decide, by decide, by decide⟩, reads_sym rfl (by decide),
    reads_word (by decide) rfl rfl, reads_sym rfl (by decide), reads_word (by decide) rfl rfl,
    trivial⟩
  intro c hc
  exact (Option.some.inj hc).symm

lemma inStep_quoted : InStep false quoted :=
  ⟨still_of_letters (by decide) _ _, still_of_letters (by decide) _ _, rfl, rfl,
    still_of_letters (by decide) _ _, still_of_letters (by decide) _ _,
    still_of_letters (by decide) _ _, still_of_letters (by decide) _ _, trivial⟩

lemma inStep_normal_quoted : InStep false (quoted.map normal) :=
  ⟨still_of_letters (by decide) _ _, still_of_letters (by decide) _ _,
    still_of_letters (by decide) _ _,
    still_of_letters (by decide) _ _, still_of_letters (by decide) _ _,
    still_of_letters (by decide) _ _, still_of_letters (by decide) _ _, trivial⟩

lemma detached_quoted : Detached quoted := by
  refine ⟨fun h => absurd h id, fun h => absurd h id, ?_, fun h => absurd h id,
    fun h => absurd h id, fun h => absurd h id, fun h => absurd h id, trivial⟩
  intro _ u hu
  obtain rfl := Option.some.inj hu
  exact id

/-- A literal with an apostrophe in it is normalised. -/
theorem quoted_normalised : Normalised quoted :=
  (altQuotes_normal_iff lexed_quoted).2 ⟨inStep_quoted, detached_quoted, inStep_normal_quoted⟩

/-- Behind an apostrophe in a comment a literal is left as it is. -/
theorem comment_hides_literal : Lexed commented ∧ ¬ Normalised commented := by
  refine ⟨lexed_commented, fun h => absurd h.1 ?_⟩
  decide

end DbSaci.Translate.AltQuotes
