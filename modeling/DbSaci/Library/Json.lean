import Mathlib.Data.List.Forall2
import Mathlib.Tactic.IntervalCases

set_option relaxedAutoImplicit false
set_option autoImplicit false

/-!
# Reading JSON

A reader of JSON texts, with natural numbers as the only numbers, and rules for what it finds in a
text that has been put together from smaller ones. The rules are those of the grammar: a text that
is read as a value is read so in an array and in an object as well.

## Main definitions

* `Value` — numbers, strings, arrays and objects.
* `readChars`, `readValue`, `parse` — the reader, which fails on a text that is no JSON.
* `Reads` — a reader finds a value in a text, whatever is written behind it.
* `Spelled` — a text stands for a character in a string.

## Main results

* `readChars_spelled` — the rule for strings.
* `reads_number`, `reads_string`, `reads_array`, `reads_object` — the rules for values.
* `parse_reads` — a text with nothing behind it.
-/

namespace JsonText

/-! ### The reader -/

/-- A value. -/
inductive Value
  | number (n : ℕ)
  | string (s : List Char)
  | array (items : List Value)
  | object (members : List (List Char × Value))

/-- White space between tokens. -/
def isBlank (c : Char) : Bool := c == ' ' || c == '\t' || c == '\n' || c == '\r'

/-- The text behind its white space. -/
def skipBlanks (s : List Char) : List Char := s.dropWhile isBlank

/-- A hexadecimal digit. -/
def hexDigit (c : Char) : Option ℕ :=
  if '0' ≤ c ∧ c ≤ '9' then some (c.toNat - 48)
  else if 'a' ≤ c ∧ c ≤ 'f' then some (c.toNat - 87)
  else if 'A' ≤ c ∧ c ≤ 'F' then some (c.toNat - 55)
  else none

/-- The number that four hexadecimal digits are. -/
def hexUnit (a b c d : Char) : Option ℕ := do
  let a ← hexDigit a
  let b ← hexDigit b
  let c ← hexDigit c
  let d ← hexDigit d
  some (4096 * a + 256 * b + 16 * c + d)

/-- The four digits of a number. -/
def unitDigits (n : ℕ) : List Char :=
  [Nat.digitChar (n / 4096 % 16), Nat.digitChar (n / 256 % 16), Nat.digitChar (n / 16 % 16),
    Nat.digitChar (n % 16)]

/-- The character behind a backslash. A unit that is half of a character is not read. -/
def readEscape : List Char → Option (Char × List Char)
  | '"' :: s => some ('"', s)
  | '\\' :: s => some ('\\', s)
  | '/' :: s => some ('/', s)
  | 'b' :: s => some ('\x08', s)
  | 'f' :: s => some ('\x0c', s)
  | 'n' :: s => some ('\n', s)
  | 'r' :: s => some ('\r', s)
  | 't' :: s => some ('\t', s)
  | 'u' :: a :: b :: c :: d :: s =>
    (hexUnit a b c d).bind fun n => if n.isValidChar then some (Char.ofNat n, s) else none
  | _ => none

/-- The characters of a string and what stands behind its closing quote, in so many steps. -/
def readChars : ℕ → List Char → Option (List Char × List Char)
  | 0, _ => none
  | _ + 1, [] => none
  | n + 1, c :: s =>
    if c = '"' then some ([], s)
    else if c = '\\' then
      (readEscape s).bind fun (c, s) => (readChars n s).map fun (cs, s) => (c :: cs, s)
    else if c.toNat < 0x20 then none
    else (readChars n s).map fun (cs, s) => (c :: cs, s)

section Sequences

variable {α : Type} (read : List Char → Option (α × List Char))

/-- Values with commas between them, up to the closing bracket, in so many steps. -/
def readItems (close : Char) : ℕ → List Char → Option (List α × List Char)
  | 0, _ => none
  | n + 1, s =>
    (read s).bind fun (a, s) =>
      match skipBlanks s with
      | ',' :: s => (readItems close n s).map fun (as, s) => (a :: as, s)
      | c :: s => if c = close then some ([a], s) else none
      | [] => none

/-- What stands behind an opening bracket. -/
def readSequence (close : Char) (s : List Char) : Option (List α × List Char) :=
  match skipBlanks s with
  | [] => none
  | c :: t => if c = close then some ([], t) else readItems read close s.length s

/-- A name and a value. -/
def readMember (s : List Char) : Option ((List Char × α) × List Char) :=
  match skipBlanks s with
  | '"' :: s =>
    (readChars s.length s).bind fun (name, s) =>
      match skipBlanks s with
      | ':' :: s => (read s).map fun (a, s) => ((name, a), s)
      | _ => none
  | _ => none

end Sequences

/-- A number. No other digit stands behind a leading zero. -/
def readNumber (s : List Char) : Option (ℕ × List Char) :=
  let digits := s.takeWhile Char.isDigit
  if digits = [] ∨ digits.head? = some '0' ∧ digits ≠ ['0'] then none
  else some (Nat.ofDigitChars 10 digits 0, s.dropWhile Char.isDigit)

/-- A value and what stands behind it, down to some depth. -/
def readValue : ℕ → List Char → Option (Value × List Char)
  | 0, _ => none
  | depth + 1, s =>
    match skipBlanks s with
    | '"' :: s => (readChars s.length s).map (Prod.map .string id)
    | '[' :: s => (readSequence (readValue depth) ']' s).map (Prod.map .array id)
    | '{' :: s => (readSequence (readMember (readValue depth)) '}' s).map (Prod.map .object id)
    | s => (readNumber s).map (Prod.map .number id)

/-- The value that a text is. -/
def parse (s : List Char) : Option Value :=
  (readValue s.length s).bind fun (v, rest) => if skipBlanks rest = [] then some v else none

/-! ### Strings -/

/-- A text stands for a character in a string. -/
def Spelled (text : List Char) (c : Char) : Prop :=
  ∀ n rest, readChars (n + 1) (text ++ rest) = (readChars n rest).map fun (cs, s) => (c :: cs, s)

/-- A character that stands for itself. -/
lemma spelled_self {c : Char} (hquote : c ≠ '"') (hslash : c ≠ '\\') (hprint : 0x20 ≤ c.toNat) :
    Spelled [c] c := by
  intro n rest
  rw [List.singleton_append, readChars, if_neg hquote, if_neg hslash, if_neg (by omega)]

/-- A character behind a backslash. -/
lemma spelled_escape {text : List Char} {c : Char}
    (h : ∀ rest, readEscape (text ++ rest) = some (c, rest)) : Spelled ('\\' :: text) c := by
  intro n rest
  rw [List.cons_append, readChars, if_neg (by decide), if_pos rfl, h]
  rfl

lemma hexDigit_digitChar {d : ℕ} (h : d < 16) : hexDigit d.digitChar = some d := by
  interval_cases d <;> rfl

/-- A character by its number. -/
lemma spelled_unit {c : Char} (h : c.toNat < 65536) :
    Spelled ('\\' :: 'u' :: unitDigits c.toNat) c := by
  apply spelled_escape
  intro rest
  have hunit : hexUnit (c.toNat / 4096 % 16).digitChar (c.toNat / 256 % 16).digitChar
      (c.toNat / 16 % 16).digitChar (c.toNat % 16).digitChar = some c.toNat := by
    simp only [hexUnit, hexDigit_digitChar (Nat.mod_lt _ (Nat.succ_pos 15)), Option.bind_eq_bind,
      Option.bind_some, Option.some.injEq]
    omega
  have hread : readEscape ('u' :: unitDigits c.toNat ++ rest) =
      (hexUnit (c.toNat / 4096 % 16).digitChar (c.toNat / 256 % 16).digitChar
        (c.toNat / 16 % 16).digitChar (c.toNat % 16).digitChar).bind
        fun n => if n.isValidChar then some (Char.ofNat n, rest) else none := rfl
  have hvalid : c.toNat.isValidChar := c.valid
  rw [hread, hunit, Option.bind_some, if_pos hvalid, Char.ofNat_toNat]

/-- A text that stands for a character is not empty. -/
lemma Spelled.length_pos {text : List Char} {c : Char} (h : Spelled text c) : 0 < text.length := by
  rcases text with _ | ⟨d, text⟩
  · have hread := h 0 ['"']
    cases hread
  · exact Nat.succ_pos _

section Strings

variable {spell : Char → List Char} {s : List Char}

/-- **A string is read as its characters**, however each of them is spelled. -/
theorem readChars_spelled (h : ∀ c ∈ s, Spelled (spell c) c) {n : ℕ} (hn : s.length < n)
    (rest : List Char) : readChars n (s.flatMap spell ++ '"' :: rest) = some (s, rest) := by
  induction s generalizing n with
  | nil =>
    obtain ⟨n, rfl⟩ := Nat.exists_eq_add_one.2 hn
    rfl
  | cons c s ih =>
    obtain ⟨hc, hs⟩ := List.forall_mem_cons.1 h
    rw [List.length_cons] at hn
    obtain ⟨n, rfl⟩ : ∃ k, n = k + 1 := ⟨n - 1, by omega⟩
    rw [List.flatMap_cons, List.append_assoc, hc, ih hs (by omega)]
    rfl

/-- The text of a string is at least as long as the string. -/
lemma length_le_flatMap (h : ∀ c ∈ s, Spelled (spell c) c) :
    s.length ≤ (s.flatMap spell).length := by
  induction s with
  | nil => exact Nat.zero_le _
  | cons c s ih =>
    obtain ⟨hc, hs⟩ := List.forall_mem_cons.1 h
    have hpos := hc.length_pos
    have hle := ih hs
    rw [List.flatMap_cons, List.length_append, List.length_cons]
    omega

/-- The string that a text starts with. -/
lemma readChars_length (h : ∀ c ∈ s, Spelled (spell c) c) (rest : List Char) :
    readChars (s.flatMap spell ++ '"' :: rest).length (s.flatMap spell ++ '"' :: rest) =
      some (s, rest) := by
  have hle := length_le_flatMap h
  refine readChars_spelled h ?_ rest
  rw [List.length_append, List.length_cons]
  omega

end Strings

/-! ### Values -/

/-- What may stand behind a number. -/
def Ends (rest : List Char) : Prop := ∀ c ∈ rest.head?, c.isDigit = false

/-- A reader finds a value in a text, whatever stands behind it, and the text does not start like
the end of an array or an object. -/
structure Reads {α : Type} (read : List Char → Option (α × List Char)) (text : List Char) (a : α) :
    Prop where
  starts : ∃ c t, text = c :: t ∧ isBlank c = false ∧ c ≠ ']' ∧ c ≠ '}'
  found : ∀ rest, Ends rest → read (text ++ rest) = some (a, rest)

lemma ends_cons {c : Char} (h : c.isDigit = false) (rest : List Char) : Ends (c :: rest) := by
  intro d hd
  rw [List.head?_cons, Option.mem_some_iff] at hd
  exact hd ▸ h

lemma skipBlanks_cons {c : Char} (h : isBlank c = false) (s : List Char) :
    skipBlanks (c :: s) = c :: s := List.dropWhile_cons_of_neg (by rw [h]; exact Bool.false_ne_true)

/-- The digits of a number start with a zero only if the number is zero. -/
lemma eq_zero_of_head (n : ℕ) (h : (Nat.toDigits 10 n).head? = some '0') : n = 0 := by
  induction n using Nat.strongRecOn with
  | ind n ih =>
    rcases Nat.lt_or_ge n 10 with hlt | hge
    · rw [Nat.toDigits_of_lt_base hlt, List.head?_cons, Option.some.injEq] at h
      interval_cases n <;> first | rfl | cases h
    · rw [Nat.toDigits_of_base_le (by omega) hge, List.head?_append_of_ne_nil _
        Nat.toDigits_ne_nil] at h
      have hzero := ih (n / 10) (by omega) h
      omega

/-- The digits of a number are read as the number. -/
lemma readNumber_digits (n : ℕ) {rest : List Char} (hrest : Ends rest) :
    readNumber (Nat.toDigits 10 n ++ rest) = some (n, rest) := by
  have hdigits : ∀ c ∈ Nat.toDigits 10 n, c.isDigit = true := fun c hc =>
    Nat.isDigit_of_mem_toDigits (by omega) (by omega) hc
  have hstop : rest.takeWhile Char.isDigit = [] ∧ rest.dropWhile Char.isDigit = rest := by
    rcases rest with _ | ⟨c, rest⟩
    · exact ⟨rfl, rfl⟩
    · have hc : ¬ c.isDigit = true := by
        rw [hrest c rfl]
        exact Bool.false_ne_true
      exact ⟨List.takeWhile_cons_of_neg hc, List.dropWhile_cons_of_neg hc⟩
  have htake : (Nat.toDigits 10 n ++ rest).takeWhile Char.isDigit = Nat.toDigits 10 n := by
    rw [List.takeWhile_append_of_pos hdigits, hstop.1, List.append_nil]
  have hplain : ¬ (Nat.toDigits 10 n = [] ∨
      (Nat.toDigits 10 n).head? = some '0' ∧ Nat.toDigits 10 n ≠ ['0']) := by
    rintro (hnil | ⟨hhead, hne⟩)
    · exact Nat.toDigits_ne_nil hnil
    · exact hne (by rw [eq_zero_of_head n hhead, Nat.toDigits_zero])
  rw [readNumber, htake, if_neg hplain, List.dropWhile_append_of_pos hdigits, hstop.2,
    Nat.ofDigitChars_ten_toDigits]

lemma isBlank_of_isDigit {c : Char} (h : c.isDigit = true) :
    isBlank c = false ∧ c ≠ ']' ∧ c ≠ '}' ∧ c ≠ '"' ∧ c ≠ '[' ∧ c ≠ '{' := by
  rw [Char.isDigit, Bool.and_eq_true, decide_eq_true_eq, decide_eq_true_eq] at h
  have hlow : 48 ≤ c.toNat := h.1
  have hhigh : c.toNat ≤ 57 := h.2
  have hne : ∀ d : Char, d.toNat < 48 ∨ 57 < d.toNat → c ≠ d := by
    rintro d hd rfl
    omega
  refine ⟨?_, hne _ (by decide), hne _ (by decide), hne _ (by decide), hne _ (by decide),
    hne _ (by decide)⟩
  simp only [isBlank, Bool.or_eq_false_iff, beq_eq_false_iff_ne]
  exact ⟨⟨⟨hne _ (by decide), hne _ (by decide)⟩, hne _ (by decide)⟩, hne _ (by decide)⟩

/-- **A number.** -/
theorem reads_number (depth n : ℕ) :
    Reads (readValue (depth + 1)) (Nat.toDigits 10 n) (.number n) := by
  obtain ⟨c, t, hc⟩ := List.exists_cons_of_ne_nil (Nat.toDigits_ne_nil (n := n) (b := 10))
  have hdigit : c.isDigit = true := Nat.isDigit_of_mem_toDigits (n := n) (b := 10) (by omega)
    (by omega) (hc ▸ List.mem_cons_self)
  obtain ⟨hblank, hsquare, hbrace, hquote, hopen, hobject⟩ := isBlank_of_isDigit hdigit
  refine ⟨⟨c, t, hc, hblank, hsquare, hbrace⟩, fun rest hrest => ?_⟩
  have hnumber := readNumber_digits n hrest
  rw [hc, List.cons_append] at hnumber ⊢
  rw [readValue, skipBlanks_cons hblank]
  split
  · rename_i heq
    exact absurd (List.cons.inj heq).1 hquote
  · rename_i heq
    exact absurd (List.cons.inj heq).1 hopen
  · rename_i heq
    exact absurd (List.cons.inj heq).1 hobject
  · rw [hnumber]
    rfl

/-- **A string.** -/
theorem reads_string (depth : ℕ) {spell : Char → List Char} {s : List Char}
    (h : ∀ c ∈ s, Spelled (spell c) c) :
    Reads (readValue (depth + 1)) ('"' :: (s.flatMap spell ++ ['"'])) (.string s) := by
  refine ⟨⟨'"', _, rfl, rfl, by decide, by decide⟩, fun rest _ => ?_⟩
  have hchars := readChars_length h rest
  rw [List.cons_append, List.append_assoc, List.singleton_append, readValue,
    skipBlanks_cons rfl]
  exact congrArg (Option.map (Prod.map Value.string id)) hchars

section Sequences

variable {α : Type} {read : List Char → Option (α × List Char)}

/-- The items of an array or an object, and what stands behind them. -/
lemma readItems_reads {close : Char} (hclose : close = ']' ∨ close = '}') {text : List Char}
    {texts : List (List Char)} {a : α} {as : List α} (hfirst : Reads read text a)
    (h : List.Forall₂ (Reads read) texts as) {n : ℕ} (hn : texts.length < n) (rest : List Char) :
    readItems read close n (List.intercalate [','] (text :: texts) ++ close :: rest) =
      some (a :: as, rest) := by
  have hend : close.isDigit = false ∧ isBlank close = false ∧ close ≠ ',' := by
    rcases hclose with rfl | rfl <;> decide
  obtain ⟨hdigit, hblank, hcomma⟩ := hend
  induction h generalizing text a n with
  | nil =>
    obtain ⟨n, rfl⟩ := Nat.exists_eq_add_one.2 hn
    rw [List.intercalate_singleton, readItems, hfirst.found _ (ends_cons hdigit rest),
      Option.bind_some]
    dsimp only
    rw [skipBlanks_cons hblank]
    split
    · rename_i heq
      exact absurd (List.cons.inj heq).1 hcomma
    · rename_i heq
      obtain ⟨rfl, rfl⟩ := List.cons.inj heq
      exact if_pos rfl
    · rename_i heq
      cases heq
  | cons hnext hrest ih =>
    rename_i text' a' texts as
    rw [List.length_cons] at hn
    obtain ⟨n, rfl⟩ : ∃ k, n = k + 1 := ⟨n - 1, by omega⟩
    have hsplit : List.intercalate [','] (text :: text' :: texts) ++ close :: rest =
        text ++ ',' :: (List.intercalate [','] (text' :: texts) ++ close :: rest) := by
      rw [List.intercalate_cons_cons, List.append_assoc, List.append_assoc,
        List.singleton_append]
    have hitems := ih hnext (n := n) (by omega)
    rw [hsplit, readItems, hfirst.found _ (ends_cons rfl _), Option.bind_some]
    dsimp only
    rw [skipBlanks_cons rfl]
    exact congrArg (Option.map _) hitems

/-- There are at most as many items as characters. -/
lemma length_le_intercalate {text : List Char} {texts : List (List Char)} :
    texts.length ≤ (List.intercalate [','] (text :: texts)).length := by
  induction texts generalizing text with
  | nil => exact Nat.zero_le _
  | cons text' texts ih =>
    have hle := @ih text'
    rw [List.intercalate_cons_cons, List.length_append, List.length_append, List.length_cons,
      List.length_singleton]
    omega

/-- What stands between two brackets. -/
lemma readSequence_reads {close : Char} (hclose : close = ']' ∨ close = '}')
    {texts : List (List Char)} {as : List α} (h : List.Forall₂ (Reads read) texts as)
    (rest : List Char) :
    readSequence read close (List.intercalate [','] texts ++ close :: rest) = some (as, rest) := by
  have hblank : isBlank close = false := by
    rcases hclose with rfl | rfl <;> rfl
  cases h with
  | nil =>
    rw [List.intercalate_nil, List.nil_append, readSequence, skipBlanks_cons hblank]
    exact if_pos rfl
  | cons hfirst hrest =>
    rename_i text a texts as
    obtain ⟨c, t, htext, hc, hsquare, hbrace⟩ := hfirst.starts
    have hne : c ≠ close := by
      rcases hclose with rfl | rfl
      · exact hsquare
      · exact hbrace
    have hstart : ∃ t', List.intercalate [','] (text :: texts) ++ close :: rest = c :: t' := by
      rcases texts with _ | ⟨text', texts⟩
      · exact ⟨_, by rw [List.intercalate_singleton, htext, List.cons_append]⟩
      · exact ⟨_, by rw [List.intercalate_cons_cons, htext, List.cons_append, List.cons_append,
          List.cons_append]⟩
    obtain ⟨t', ht'⟩ := hstart
    have hlen : texts.length <
        (List.intercalate [','] (text :: texts) ++ close :: rest).length := by
      have hle := @length_le_intercalate text texts
      rw [List.length_append, List.length_cons]
      omega
    have hitems := readItems_reads hclose hfirst hrest hlen rest
    rw [ht'] at hitems ⊢
    rw [readSequence, skipBlanks_cons hc]
    dsimp only
    rw [if_neg hne, hitems]

/-- **A name and a value.** -/
theorem reads_member {spell : Char → List Char} {name text : List Char} {a : α}
    (hname : ∀ c ∈ name, Spelled (spell c) c) (h : Reads read text a) :
    Reads (readMember read) ('"' :: (name.flatMap spell ++ '"' :: ':' :: text)) (name, a) := by
  refine ⟨⟨'"', _, rfl, rfl, by decide, by decide⟩, fun rest hrest => ?_⟩
  have hchars := readChars_length hname (':' :: (text ++ rest))
  rw [List.cons_append, List.append_assoc, List.cons_append, List.cons_append, readMember,
    skipBlanks_cons rfl]
  refine (congrArg (fun x => Option.bind x _) hchars).trans ?_
  rw [Option.bind_some]
  dsimp only
  rw [skipBlanks_cons rfl]
  exact congrArg (Option.map _) (h.found rest hrest)

end Sequences

/-- **An array.** -/
theorem reads_array {depth : ℕ} {texts : List (List Char)} {vs : List Value}
    (h : List.Forall₂ (Reads (readValue depth)) texts vs) :
    Reads (readValue (depth + 1)) ('[' :: (List.intercalate [','] texts ++ [']'])) (.array vs) := by
  refine ⟨⟨'[', _, rfl, rfl, by decide, by decide⟩, fun rest _ => ?_⟩
  have hitems := readSequence_reads (.inl rfl) h rest
  rw [List.cons_append, List.append_assoc, List.singleton_append, readValue, skipBlanks_cons rfl]
  exact congrArg (Option.map (Prod.map Value.array id)) hitems

/-- **An object.** -/
theorem reads_object {depth : ℕ} {texts : List (List Char)} {members : List (List Char × Value)}
    (h : List.Forall₂ (Reads (readMember (readValue depth))) texts members) :
    Reads (readValue (depth + 1)) ('{' :: (List.intercalate [','] texts ++ ['}']))
      (.object members) := by
  refine ⟨⟨'{', _, rfl, rfl, by decide, by decide⟩, fun rest _ => ?_⟩
  have hitems := readSequence_reads (.inr rfl) h rest
  rw [List.cons_append, List.append_assoc, List.singleton_append, readValue, skipBlanks_cons rfl]
  exact congrArg (Option.map (Prod.map Value.object id)) hitems

/-- **A text with nothing behind it** is the value that is found in it. -/
theorem parse_reads {text : List Char} {v : Value} (h : Reads (readValue text.length) text v) :
    parse text = some v := by
  have hfound := h.found [] fun c hc => by cases hc
  rw [List.append_nil] at hfound
  rw [parse, hfound]
  rfl

end JsonText
