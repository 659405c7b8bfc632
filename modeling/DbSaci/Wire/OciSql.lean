import DbSaci.Library.Utf8
import DbSaci.Wire.OciBinds

set_option relaxedAutoImplicit false
set_option autoImplicit false

/-!
# The statement in an Execute of an OCI client

The text of the statement is searched: it starts with a keyword, and its length stands in front of
it. A parenthesis in front of the keyword is part of the text.

## Main definitions

* `locateSql` — the search for the text.
* `parseExecuteRequestOci` — the message that executes a statement.
* `SqlFrame` — such a message, from its parts.
* `SqlFrame.Anchored` — the text starts with its first keyword, up to parentheses.

## Main results

* `SqlFrame.returnsSql_iff` — when the text that is found is the statement.
-/

namespace DbSaci.Wire

open Text

/-! ### The search for the text -/

/-- The bytes of a text in the range of ASCII. -/
def ascii (s : String) : List UInt8 := s.toList.map fun c => UInt8.ofNat c.toNat

/-- The keywords a statement starts with. -/
def keywords : List (List UInt8) :=
  ["SELECT", "INSERT", "UPDATE", "DELETE", "WITH ", "MERGE ", "BEGIN", "DECLARE", "ALTER", "CREATE",
    "DROP ", "TRUNCATE", "COMMENT", "GRANT ", "REVOKE", "RENAME", "CALL ", "COMMIT", "ROLLBACK",
    "SAVEPOINT", "SET ", "LOCK ", "REFRESH", "ANALYZE"].map ascii

/-- A byte in the lower case. -/
def lowerByte (b : UInt8) : UInt8 := if 0x41 ≤ b ∧ b ≤ 0x5a then b + 0x20 else b

/-- Some bytes start with a keyword, in any letter case. -/
def hasKeyword (s : List UInt8) : Bool :=
  keywords.any fun kw => (s.take kw.length).map lowerByte == kw.map lowerByte

/-- A blank or a line end. -/
def isBlankByte (b : UInt8) : Bool := b == 0x20 || b == 0x0a

/-- A parenthesis or a blank. -/
def isOpenByte (b : UInt8) : Bool := b == 0x28 || b == 0x20

section Search

variable (payload : List UInt8)

/-- A byte of the message. -/
def byteAt (i : ℕ) : UInt8 := (payload[i]?).getD 0

/-- A keyword starts here. -/
def isKwAt (i : ℕ) : Bool := hasKeyword (payload.drop i)

/-- The bytes of a text that start here. -/
def graphicRun (i : ℕ) : List UInt8 := (payload.drop i).takeWhile isTextByte

/-- The same without blanks and line ends behind it. -/
def runTrimmed (i : ℕ) : List UInt8 := (graphicRun payload i).rdropWhile isBlankByte

/-- The four bytes in front of a place, as a number. -/
def fourBefore (i : ℕ) : ℕ := ofBeBytes ((payload.drop (i - 4)).take 4)

/-- The byte in front of a place, or the four bytes, are the length of the text that starts
there. -/
def prefixed (i : ℕ) : Bool :=
  ([(runTrimmed payload i).length, (graphicRun payload i).length].contains
      (byteAt payload (i - 1)).toNat ||
    [(runTrimmed payload i).length, (graphicRun payload i).length].contains
      (fourBefore payload i)) &&
  0 < (runTrimmed payload i).length

/-- The first of the parentheses and blanks in front of a place. -/
def anchor : ℕ → ℕ
  | 0 => 0
  | p + 1 => if 4 ≤ p ∧ isOpenByte (byteAt payload p) = true then anchor p else p + 1

/-- The text at a keyword, if its length is in front of it or of the parentheses before it. -/
def matchAt (i : ℕ) : Option (ℕ × ℕ) :=
  if prefixed payload i = true then some (i, i + (runTrimmed payload i).length)
  else
    let p := anchor payload i
    if p < i ∧ byteAt payload p = 0x28 ∧ prefixed payload p = true then
      some (p, p + (runTrimmed payload p).length)
    else none

/-- The text at a keyword, with the length in front of it if there is so much. That a length is at
most the greater of the run and itself goes without saying. -/
def fallback (i : ℕ) : ℕ × ℕ :=
  let one := (byteAt payload (i - 1)).toNat
  (i, if 1 ≤ one ∧ one ≤ payload.length - i then i + one
    else if 1 ≤ fourBefore payload i ∧ fourBefore payload i ≤ payload.length - i then
      i + fourBefore payload i
    else i + max (runTrimmed payload i).length 1)

/-- The loop of the search: the first text with its length in front of it, or else what is at the
first keyword. -/
def locateLoop : List ℕ → Option (ℕ × ℕ) → Option (ℕ × ℕ)
  | [], found => found
  | i :: is, found =>
    if isKwAt payload i = true then
      match matchAt payload i with
      | some place => some place
      | none => locateLoop is (found.or (some (fallback payload i)))
    else locateLoop is found

/-- Where the text starts and ends. -/
def locateSql : Option (ℕ × ℕ) := locateLoop payload (List.range' 4 (payload.length - 4)) none

/-- The text between two places. -/
def textBetween (place : ℕ × ℕ) : List Char :=
  trimEnd (utf8Lossy ((payload.take place.2).drop place.1))

/-- The statement of the message, and where it ends. -/
def ociSql : Except String (List Char × ℕ) :=
  match locateSql payload with
  | none => .error "OCI execute request: no SQL text found"
  | some place => .ok (textBetween payload place, place.2)

end Search

/-! ### The message -/

/-- The types and values of as many placeholders as a statement has, from what is behind it. -/
def ociBindSection (nbinds : ℕ) (region : List UInt8) :
    Except String (List UInt8 × List BindValue) :=
  if nbinds = 0 then .ok ([], [])
  else
    let (types, afterDesc) := scanOciBindTypes region nbinds
    match (region.drop afterDesc).dropWhile (· ≠ 7) with
    | [] => .ok (types, [])
    | _ :: values => (ociBinds types values).map fun binds => (types, binds)

/-- `parse_execute_request_oci`. -/
def parseExecuteRequestOci (payload : List UInt8) : Except String ExecuteRequest := do
  let (sql, endAt) ← ociSql payload
  let (types, binds) ← ociBindSection (countNamedBinds sql) (payload.drop endAt)
  return ⟨sql, binds, types, 0, 1, []⟩

/-! ### The loop of the search -/

section Loop

variable (payload : List UInt8)

/-- The first keyword of the message with a text whose length is in front of it. -/
structure FirstMatch (i : ℕ) (place : ℕ × ℕ) : Prop where
  four_le : 4 ≤ i
  keyword : isKwAt payload i = true
  found : matchAt payload i = some place
  first : ∀ j, 4 ≤ j → j < i → isKwAt payload j = true → matchAt payload j = none

variable {payload}

lemma locateLoop_first {a n i : ℕ} {place : ℕ × ℕ} (ha : a ≤ i) (hi : i < a + n)
    (hkw : isKwAt payload i = true) (hfound : matchAt payload i = some place)
    (hfirst : ∀ j, a ≤ j → j < i → isKwAt payload j = true → matchAt payload j = none)
    (found : Option (ℕ × ℕ)) : locateLoop payload (List.range' a n) found = some place := by
  induction n generalizing a found with
  | zero => omega
  | succ n ih =>
    rw [List.range'_succ, locateLoop]
    rcases Nat.eq_or_lt_of_le ha with rfl | hlt
    · rw [if_pos hkw, hfound]
    · have hrest := fun found => ih hlt (by omega) (fun j hj => hfirst j (by omega)) found
      split_ifs with hkw'
      · rw [hfirst a le_rfl hlt hkw']
        exact hrest _
      · exact hrest _

/-- If no length is in front of a keyword, the text is what is at the first one. -/
lemma locateLoop_none {a n : ℕ} {found : Option (ℕ × ℕ)} {place : ℕ × ℕ}
    (hnone : ∀ j, a ≤ j → isKwAt payload j = true → matchAt payload j = none)
    (h : locateLoop payload (List.range' a n) found = some place) :
    found = some place ∨ ∃ i, isKwAt payload i = true ∧ place = fallback payload i := by
  induction n generalizing a found with
  | zero => exact .inl h
  | succ n ih =>
    rw [List.range'_succ, locateLoop] at h
    have hnone' : ∀ j, a + 1 ≤ j → isKwAt payload j = true → matchAt payload j = none :=
      fun j hj => hnone j (by omega)
    split_ifs at h with hkw
    · rw [hnone a le_rfl hkw] at h
      rcases ih hnone' h with hor | hlater
      · cases found with
        | none => exact .inr ⟨a, hkw, (Option.some.inj hor).symm⟩
        | some place' => exact .inl hor
      · exact .inr hlater
    · exact ih hnone' h

lemma letter_of_keyword {s : List UInt8} (h : hasKeyword s = true) : ∃ b t, s = b :: t ∧
    (0x41 ≤ b.toNat ∧ b.toNat ≤ 0x5a ∨ 0x61 ≤ b.toNat ∧ b.toNat ≤ 0x7a) := by
  obtain ⟨kw, hkw, hsame⟩ := List.any_eq_true.1 h
  have hupper : ∀ kw ∈ keywords,
      kw.head?.any (fun k => 0x41 ≤ k && k ≤ 0x5a) = true := by decide +kernel
  have hhead := hupper kw hkw
  cases kw with
  | nil => cases hhead
  | cons k kw =>
    simp only [List.head?_cons, Option.any_some, Bool.and_eq_true, decide_eq_true_eq,
      UInt8.le_iff_toNat_le] at hhead
    have hk : lowerByte k = k + 0x20 := if_pos hhead
    have hrange : 65 ≤ k.toNat ∧ k.toNat ≤ 90 := hhead
    cases s with
    | nil => cases eq_of_beq hsame
    | cons b t =>
      have hb : lowerByte b = k + 0x20 := hk ▸ (List.cons.inj (eq_of_beq hsame)).1
      refine ⟨b, t, rfl, ?_⟩
      unfold lowerByte at hb
      split_ifs at hb with hcase
      · exact .inl hcase
      · have hnat : b.toNat = k.toNat + 0x20 := by
          rw [hb, UInt8.toNat_add]
          exact Nat.mod_eq_of_lt (by have : (0x20 : UInt8).toNat = 32 := rfl; omega)
        rw [hnat]
        exact .inr (by omega)

lemma hasKeyword_append {s : List UInt8} (h : hasKeyword s = true) (t : List UInt8) :
    hasKeyword (s ++ t) = true := by
  obtain ⟨kw, hkw, hsame⟩ := List.any_eq_true.1 h
  refine List.any_eq_true.2 ⟨kw, hkw, ?_⟩
  have hlen : kw.length ≤ s.length := by
    have := congrArg List.length (eq_of_beq hsame)
    rw [List.length_map, List.length_map, List.length_take] at this
    omega
  rwa [List.take_append_of_le_length hlen]

/-- A keyword starts within the message. -/
lemma lt_of_isKwAt {i : ℕ} (h : isKwAt payload i = true) : i < payload.length := by
  obtain ⟨b, t, hdrop, -⟩ := letter_of_keyword h
  by_contra hle
  rw [List.drop_eq_nil_of_le (Nat.le_of_not_lt hle)] at hdrop
  cases hdrop

/-- **The search finds the first keyword with a text whose length is in front of it.** -/
theorem locateSql_of_first {i : ℕ} {place : ℕ × ℕ} (h : FirstMatch payload i place) :
    locateSql payload = some place := by
  have hlt := lt_of_isKwAt h.keyword
  exact locateLoop_first h.four_le (by have := h.four_le; omega) h.keyword h.found h.first none

/-- What the search finds is at such a keyword, or no length is in front of any. -/
lemma of_locateSql {place : ℕ × ℕ} (h : locateSql payload = some place) :
    (∃ i, FirstMatch payload i place) ∨
      (∀ j, 4 ≤ j → isKwAt payload j = true → matchAt payload j = none) ∧
        ∃ i, isKwAt payload i = true ∧ place = fallback payload i := by
  classical
  by_cases hex : ∃ i, 4 ≤ i ∧ isKwAt payload i = true ∧ (matchAt payload i).isSome = true
  · obtain ⟨hfour, hkw, hsome⟩ := Nat.find_spec hex
    obtain ⟨place', hplace'⟩ := Option.isSome_iff_exists.1 hsome
    have hfirst : FirstMatch payload (Nat.find hex) place' := by
      refine ⟨hfour, hkw, hplace', fun j hj hlt hkwj => ?_⟩
      have hnot := Nat.find_min hex hlt
      exact Option.not_isSome_iff_eq_none.1 fun hsomej => hnot ⟨hj, hkwj, hsomej⟩
    have hplace := locateSql_of_first hfirst
    rw [h] at hplace
    obtain rfl := Option.some.inj hplace
    exact .inl ⟨_, hfirst⟩
  · have hnone : ∀ j, 4 ≤ j → isKwAt payload j = true → matchAt payload j = none := by
      intro j hj hkwj
      exact Option.not_isSome_iff_eq_none.1 fun hsomej => hex ⟨j, hj, hkwj, hsomej⟩
    rcases locateLoop_none hnone h with hfound | hfallback
    · cases hfound
    · exact .inr ⟨hnone, hfallback⟩

/-- The first of the parentheses and blanks in front of a place. -/
lemma anchor_spec (i : ℕ) : anchor payload i ≤ i ∧
    (∀ j, anchor payload i ≤ j → j < i → isOpenByte (byteAt payload j) = true) ∧
    (4 < anchor payload i → isOpenByte (byteAt payload (anchor payload i - 1)) = false) := by
  induction i with
  | zero => exact ⟨le_rfl, fun j _ hj => absurd hj (Nat.not_lt_zero j), fun h => by cases h⟩
  | succ i ih =>
    rw [anchor]
    split_ifs with h
    · obtain ⟨hle, hopen, hbefore⟩ := ih
      refine ⟨hle.trans (Nat.le_succ i), fun j hj hlt => ?_, hbefore⟩
      rcases Nat.eq_or_lt_of_le (Nat.le_of_lt_succ hlt) with rfl | hlt
      · exact h.2
      · exact hopen j hj hlt
    · refine ⟨le_rfl, fun j hj hlt => absurd hlt (Nat.not_lt.2 hj), fun hfour => ?_⟩
      exact Bool.eq_false_iff.2 fun hopen => h ⟨Nat.le_of_lt_succ hfour, hopen⟩

lemma anchor_eq {p i : ℕ} (hp : 4 < p) (hle : p ≤ i)
    (hopen : ∀ j, p ≤ j → j < i → isOpenByte (byteAt payload j) = true)
    (hbefore : isOpenByte (byteAt payload (p - 1)) = false) : anchor payload i = p := by
  induction i with
  | zero => omega
  | succ i ih =>
    rw [anchor]
    rcases Nat.eq_or_lt_of_le hle with rfl | hlt
    · rw [if_neg fun h => ?_]
      rw [Nat.add_sub_cancel] at hbefore
      exact Bool.false_ne_true (hbefore ▸ h.2)
    · have hi : p ≤ i := Nat.le_of_lt_succ hlt
      rw [if_pos ⟨by omega, hopen i hi (Nat.lt_succ_self i)⟩]
      exact ih hi fun j hj hlt => hopen j hj (by omega)

end Loop

/-! ### Messages -/

/-- A statement starts with a keyword, behind white space, parentheses, hints and comments. -/
inductive Led : List Char → Prop
  | keyword {s : List Char} (h : hasKeyword (utf8Encode s) = true) : Led s
  | blank {c : Char} {s : List Char} (hc : isSpace c = true) (h : Led s) : Led (c :: s)
  | paren {s : List Char} (h : Led s) : Led ('(' :: s)
  | comment (body : List Char) {s : List Char} (h : Led s) :
    Led ('/' :: '*' :: (body ++ '*' :: '/' :: s))
  | line (body : List Char) {s : List Char} (h : Led s) : Led ('-' :: '-' :: (body ++ '\n' :: s))

/-- The length of a text, as it stands in front of it. -/
def lengthPrefix (n : ℕ) : List UInt8 := if n < 254 then [UInt8.ofNat n] else toBeBytes 4 n

/-- A message that executes a statement: flags, options without a keyword, the length of the
statement, the statement, and bytes of which the first one is not part of a text. -/
structure SqlFrame where
  flags : UInt8 × UInt8
  options : List UInt8
  sql : List Char
  stop : UInt8
  rest : List UInt8
  free : ∀ i, hasKeyword (([flags.1, flags.2, 0x03, 0x5e] ++ options).drop i) = false
  text : ∀ b ∈ utf8Encode sql, isTextByte b = true
  not_text : isTextByte stop = false
  length_lt : (utf8Encode sql).length < 2 ^ 32
  led : Led sql

namespace SqlFrame

variable (f : SqlFrame)

/-- The bytes of the statement. -/
def bytes : List UInt8 := utf8Encode f.sql

/-- What is in front of the statement. -/
def front : List UInt8 :=
  [f.flags.1, f.flags.2, 0x03, 0x5e] ++ f.options ++ lengthPrefix f.bytes.length

/-- The bytes of the message. -/
def payload : List UInt8 := f.front ++ (f.bytes ++ f.stop :: f.rest)

/-- **The text that is found is the statement**, from its first byte on and up to white space. -/
def ReturnsSql : Prop := ∃ endAt, ociSql f.payload = .ok (trimEnd f.sql, endAt)

/-- The place of the first keyword, if only parentheses and blanks are in front of it. -/
def keywordAt : ℕ := f.front.length + (f.bytes.takeWhile isOpenByte).length

/-- The statement starts with a keyword; or with a parenthesis, and then there are only parentheses
and blanks up to a keyword that has no length of its own in front of it, and the last byte of the
length of the statement is neither of these. -/
def Anchored : Prop :=
  isKwAt f.payload f.keywordAt = true ∧
    (isKwAt f.payload f.front.length = true ∨
      f.bytes.head? = some 0x28 ∧ isOpenByte (UInt8.ofNat f.bytes.length) = false ∧
        prefixed f.payload f.keywordAt = false)

/-- No keyword that starts in front of the statement has a length in front of it. -/
def NothingBefore : Prop :=
  ∀ i, 4 ≤ i → i < f.front.length → isKwAt f.payload i = true → matchAt f.payload i = none

/-- The first text with its length in front of it is elsewhere, and it is the same. -/
def Twin : Prop :=
  ∃ i place, FirstMatch f.payload i place ∧ place.1 ≠ f.front.length ∧
    textBetween f.payload place = trimEnd f.sql

lemma five_le : 5 ≤ f.front.length := by
  have hlen : 1 ≤ (lengthPrefix f.bytes.length).length := by
    unfold lengthPrefix
    split_ifs
    · exact le_rfl
    · rw [length_toBeBytes]
      omega
  rw [front, List.length_append, List.length_append]
  simp only [List.length_cons, List.length_nil]
  omega

lemma drop_payload {j : ℕ} (h : j ≤ f.bytes.length) :
    f.payload.drop (f.front.length + j) = f.bytes.drop j ++ f.stop :: f.rest := by
  rw [payload, ← List.drop_drop, List.drop_left, List.drop_append_of_le_length h]

/-- The text that starts in the statement ends with it. -/
lemma graphicRun_eq {j : ℕ} (h : j ≤ f.bytes.length) :
    graphicRun f.payload (f.front.length + j) = f.bytes.drop j := by
  have htext : ∀ b ∈ f.bytes.drop j, isTextByte b = true := fun b hb =>
    f.text b (List.mem_of_mem_drop hb)
  rw [graphicRun, drop_payload f h, List.takeWhile_append_of_pos htext,
    List.takeWhile_cons_of_neg (by simp [f.not_text]), List.append_nil]

lemma graphicRun_front : graphicRun f.payload f.front.length = f.bytes := by
  have hrun := f.graphicRun_eq (Nat.zero_le _)
  rwa [Nat.add_zero, List.drop_zero] at hrun

/-- The last byte of the length is that of the number. -/
lemma byteAt_front : byteAt f.payload (f.front.length - 1) = UInt8.ofNat f.bytes.length := by
  obtain ⟨init, hinit⟩ : ∃ init, f.front = init ++ [UInt8.ofNat f.bytes.length] := by
    unfold front lengthPrefix
    split_ifs
    · exact ⟨_, rfl⟩
    · rw [toBeBytes_four]
      exact ⟨[f.flags.1, f.flags.2, 0x03, 0x5e] ++ f.options ++ [UInt8.ofNat
        (f.bytes.length / 16777216), UInt8.ofNat (f.bytes.length / 65536),
        UInt8.ofNat (f.bytes.length / 256)], by simp⟩
  rw [byteAt, payload, hinit, List.length_append, List.length_singleton, Nat.add_sub_cancel]
  simp

/-- The length of the statement is in front of it. -/
lemma prefixed_front (h : 0 < (runTrimmed f.payload f.front.length).length) :
    prefixed f.payload f.front.length = true := by
  have hrun := f.graphicRun_front
  by_cases hlt : f.bytes.length < 254
  · have hone : (byteAt f.payload (f.front.length - 1)).toNat = f.bytes.length := by
      rw [byteAt_front, UInt8.toNat_ofNat']
      omega
    simp [prefixed, hone, hrun, h]
  · have hfour : fourBefore f.payload f.front.length = f.bytes.length := by
      have hlen : f.front.length - 4 =
          ([f.flags.1, f.flags.2, 0x03, 0x5e] ++ f.options).length := by
        rw [front, lengthPrefix, if_neg hlt, List.length_append, length_toBeBytes,
          Nat.add_sub_cancel]
      have hdrop : (f.payload.drop (f.front.length - 4)).take 4 = toBeBytes 4 f.bytes.length := by
        rw [hlen, payload, front, lengthPrefix, if_neg hlt, List.append_assoc (_ ++ f.options),
          List.drop_left, List.take_append_of_le_length (by rw [length_toBeBytes])]
        exact List.take_of_length_le (by rw [length_toBeBytes])
      rw [fourBefore, hdrop]
      exact ofBeBytes_of_lt f.length_lt
    simp [prefixed, hfour, hrun, h]

/-! ### What is found at the statement -/

/-- A letter is part of a text, and neither a parenthesis nor a blank. -/
lemma letter_flags {b : UInt8}
    (h : 0x41 ≤ b.toNat ∧ b.toNat ≤ 0x5a ∨ 0x61 ≤ b.toNat ∧ b.toNat ≤ 0x7a) :
    isOpenByte b = false ∧ isBlankByte b = false ∧ isTextByte b = true := by
  have htext : 0x20 ≤ b ∧ b < 0x7f := by
    rw [UInt8.le_iff_toNat_le, UInt8.lt_iff_toNat_lt]
    change 32 ≤ b.toNat ∧ b.toNat < 127
    omega
  have hne : ∀ c : UInt8, c.toNat < 0x41 → (b == c) = false := by
    rintro c hc
    refine beq_eq_false_iff_ne.2 ?_
    rintro rfl
    omega
  exact ⟨by rw [isOpenByte, hne 0x28 (by decide), hne 0x20 (by decide)]; rfl,
    by rw [isBlankByte, hne 0x20 (by decide), hne 0x0a (by decide)]; rfl,
    by simp [isTextByte, htext]⟩

lemma byteAt_of_drop {payload t : List UInt8} {i : ℕ} {b : UInt8}
    (h : payload.drop i = b :: t) : byteAt payload i = b := by
  have hget : (payload.drop i)[0]? = some b := by
    rw [h]
    rfl
  rw [List.getElem?_drop, Nat.add_zero] at hget
  rw [byteAt, hget]
  rfl

/-- A keyword starts with a letter. -/
lemma letter_of_isKwAt {payload : List UInt8} {i : ℕ} (h : isKwAt payload i = true) :
    0x41 ≤ (byteAt payload i).toNat ∧ (byteAt payload i).toNat ≤ 0x5a ∨
      0x61 ≤ (byteAt payload i).toNat ∧ (byteAt payload i).toNat ≤ 0x7a := by
  obtain ⟨b, t, hdrop, hletter⟩ := letter_of_keyword h
  rwa [byteAt_of_drop hdrop]

/-- A byte that is no blank is left of a text. -/
lemma runTrimmed_pos {b : UInt8} (hb : b ∈ f.bytes) (hblank : isBlankByte b = false) :
    0 < (runTrimmed f.payload f.front.length).length := by
  rw [runTrimmed, graphicRun_front, List.length_pos_iff]
  intro hnil
  have hall := List.rdropWhile_eq_nil_iff.1 hnil b hb
  exact Bool.false_ne_true (hblank ▸ hall)

lemma takeWhile_open : (f.payload.drop f.front.length).takeWhile isOpenByte =
    f.bytes.takeWhile isOpenByte := by
  have hstop : isOpenByte f.stop = false := by
    have hnot := f.not_text
    refine Bool.eq_false_iff.2 fun hopen => ?_
    rcases Bool.or_eq_true_iff.1 hopen with h | h
    · rw [eq_of_beq h] at hnot
      exact absurd hnot (by decide)
    · rw [eq_of_beq h] at hnot
      exact absurd hnot (by decide)
  rw [payload, List.drop_left, List.takeWhile_append]
  split_ifs
  · rw [List.takeWhile_cons_of_neg (by simp [hstop]), List.append_nil]
    rename_i h
    exact (List.takeWhile_prefix _).eq_of_length h |>.symm
  · rfl

/-- How much of a text satisfies a condition. -/
lemma length_takeWhile {q : UInt8 → Bool} {s : List UInt8} {m : ℕ}
    (hall : ∀ j < m, q (byteAt s j) = true) (hlt : m < s.length) (hm : q (byteAt s m) = false) :
    (s.takeWhile q).length = m := by
  induction m generalizing s with
  | zero =>
    obtain ⟨b, s, rfl⟩ := List.exists_cons_of_length_pos hlt
    have hb : q b = false := hm
    rw [List.takeWhile_cons_of_neg (by simp [hb])]
    rfl
  | succ m ih =>
    obtain ⟨b, s, rfl⟩ := List.exists_cons_of_length_pos (Nat.zero_lt_of_lt hlt)
    have hb : q b = true := hall 0 (Nat.succ_pos m)
    rw [List.takeWhile_cons_of_pos hb, List.length_cons,
      ih (fun j hj => hall (j + 1) (Nat.succ_lt_succ hj)) (Nat.lt_of_succ_lt_succ hlt) hm]

lemma byteAt_drop (payload : List UInt8) (i j : ℕ) :
    byteAt (payload.drop i) j = byteAt payload (i + j) := by
  rw [byteAt, byteAt, List.getElem?_drop]

/-- The parentheses and blanks the statement starts with reach up to a keyword. -/
lemma keywordAt_eq {i : ℕ} (hle : f.front.length ≤ i) (hkw : isKwAt f.payload i = true)
    (hopen : ∀ j, f.front.length ≤ j → j < i → isOpenByte (byteAt f.payload j) = true) :
    f.keywordAt = i := by
  have hlt := lt_of_isKwAt hkw
  have hlen : (f.bytes.takeWhile isOpenByte).length = i - f.front.length := by
    rw [← takeWhile_open]
    refine length_takeWhile (fun j hj => ?_) ?_ ?_
    · rw [byteAt_drop]
      exact hopen _ (Nat.le_add_right _ _) (by omega)
    · rw [List.length_drop]
      omega
    · rw [byteAt_drop, Nat.add_sub_cancel' hle]
      exact (letter_flags (letter_of_isKwAt hkw)).1
  rw [keywordAt, hlen, Nat.add_sub_cancel' hle]

lemma byteAt_open {j : ℕ} (hle : f.front.length ≤ j) (hlt : j < f.keywordAt) :
    isOpenByte (byteAt f.payload j) = true := by
  obtain ⟨m, rfl⟩ := Nat.exists_eq_add_of_le hle
  rw [keywordAt] at hlt
  have hm : m < (f.bytes.takeWhile isOpenByte).length := by omega
  have hstart := @List.takeWhile_prefix _ f.bytes isOpenByte
  have hget : byteAt f.payload (f.front.length + m) = (f.bytes.takeWhile isOpenByte)[m] := by
    have hlt' : m < f.bytes.length := hm.trans_le hstart.length_le
    rw [hstart.getElem hm, ← byteAt_drop, payload, List.drop_left, byteAt,
      List.getElem?_append_left hlt', List.getElem?_eq_getElem hlt']
    rfl
  rw [hget]
  exact List.all_eq_true.1 (List.all_takeWhile) _ (List.getElem_mem hm)

/-- The text at the statement. -/
def here : ℕ × ℕ :=
  (f.front.length, f.front.length + (runTrimmed f.payload f.front.length).length)

/-- What is found at the first keyword is the text at the statement. -/
lemma matchAt_of_anchored (h : f.Anchored) : matchAt f.payload f.keywordAt = some f.here := by
  obtain ⟨hkw, hcase⟩ := h
  rcases hcase with hfront | ⟨hhead, hlast, hnot⟩
  · have hat : f.keywordAt = f.front.length :=
      f.keywordAt_eq le_rfl hfront fun j hj hlt => absurd hlt (Nat.not_lt.2 hj)
    obtain ⟨b, t, hdrop, hletter⟩ := letter_of_keyword hfront
    obtain ⟨-, hblank, htext⟩ := letter_flags hletter
    have hmem : b ∈ f.bytes := by
      rw [payload, List.drop_left] at hdrop
      cases hbytes : f.bytes with
      | nil =>
        rw [hbytes, List.nil_append] at hdrop
        have hnot := f.not_text
        rw [(List.cons.inj hdrop).1, htext] at hnot
        cases hnot
      | cons c s =>
        rw [hbytes, List.cons_append] at hdrop
        exact (List.cons.inj hdrop).1 ▸ List.mem_cons_self
    rw [hat, matchAt, if_pos (f.prefixed_front (f.runTrimmed_pos hmem hblank))]
    rfl
  · obtain ⟨t, ht⟩ := List.head?_eq_some_iff.1 hhead
    have hlt : f.front.length < f.keywordAt := by
      rw [keywordAt, ht, List.takeWhile_cons_of_pos (by rfl), List.length_cons]
      omega
    have hanchor : anchor f.payload f.keywordAt = f.front.length :=
      anchor_eq f.five_le hlt.le (fun j => f.byteAt_open) (by rw [byteAt_front, hlast])
    have hbyte : byteAt f.payload f.front.length = 0x28 :=
      byteAt_of_drop (t := t ++ f.stop :: f.rest) (by rw [payload, List.drop_left, ht]; rfl)
    have hpos := f.runTrimmed_pos (b := 0x28) (by rw [ht]; exact List.mem_cons_self) rfl
    rw [matchAt, if_neg (by simp [hnot]), hanchor]
    exact if_pos ⟨hlt, hbyte, f.prefixed_front hpos⟩

/-- If the text at the statement is found, it is anchored there. -/
lemma anchored_of_first {i : ℕ} {place : ℕ × ℕ} (h : FirstMatch f.payload i place)
    (hplace : place.1 = f.front.length) : f.Anchored ∧ i = f.keywordAt := by
  have hfound := h.found
  rw [matchAt] at hfound
  by_cases hdirect : prefixed f.payload i = true
  · rw [if_pos hdirect] at hfound
    obtain rfl := Option.some.inj hfound
    obtain rfl : i = f.front.length := hplace
    have hat : f.keywordAt = f.front.length :=
      f.keywordAt_eq le_rfl h.keyword fun j hj hlt => absurd hlt (Nat.not_lt.2 hj)
    exact ⟨⟨hat ▸ h.keyword, .inl h.keyword⟩, hat.symm⟩
  · rw [if_neg hdirect] at hfound
    dsimp only at hfound
    split_ifs at hfound with hparen
    obtain ⟨hlt, hbyte, -⟩ := hparen
    obtain ⟨hle, hopen, hbefore⟩ := @anchor_spec f.payload i
    obtain rfl := Option.some.inj hfound
    have hplace : anchor f.payload i = f.front.length := hplace
    rw [hplace] at hlt hbyte hopen hbefore
    have hat : f.keywordAt = i := f.keywordAt_eq hlt.le h.keyword hopen
    have hlast := hbefore f.five_le
    rw [byteAt_front] at hlast
    refine ⟨⟨hat ▸ h.keyword, .inr ⟨?_, hlast, ?_⟩⟩, hat.symm⟩
    · have hopen' : isOpenByte (byteAt f.payload f.front.length) = true := hopen _ le_rfl hlt
      have hne : f.bytes ≠ [] := by
        intro hnil
        rw [keywordAt, hnil] at hat
        exact absurd hat (Nat.ne_of_lt hlt)
      obtain ⟨b, t, ht⟩ := List.exists_cons_of_ne_nil hne
      have hb : byteAt f.payload f.front.length = b :=
        byteAt_of_drop (t := t ++ f.stop :: f.rest) (by rw [payload, List.drop_left, ht]; rfl)
      rw [ht, List.head?_cons, ← hb, hbyte]
    · rw [hat]
      exact Bool.eq_false_iff.2 hdirect

/-! ### The text -/

/-- Dropping what is white space before white space is dropped makes no difference. -/
lemma trimEnd_rdropWhile {p : Char → Bool} (hp : ∀ c, p c = true → isSpace c = true)
    (s : List Char) : trimEnd (s.rdropWhile p) = trimEnd s := by
  induction s using List.reverseRecOn with
  | nil => rfl
  | append_singleton s c ih =>
    by_cases hc : p c = true
    · rw [List.rdropWhile_concat_pos _ _ _ hc, ih, trimEnd, trimEnd,
        List.rdropWhile_concat_pos _ _ _ (hp c hc)]
    · rw [List.rdropWhile_concat_neg _ _ _ hc]

/-- The text at the statement is the statement. -/
lemma textBetween_here : textBetween f.payload f.here = trimEnd f.sql := by
  have hrun : runTrimmed f.payload f.front.length = f.bytes.rdropWhile isBlankByte := by
    rw [runTrimmed, graphicRun_front]
  have hstart := f.bytes.rdropWhile_prefix isBlankByte
  have hbytes : (f.payload.take f.here.2).drop f.here.1 = f.bytes.rdropWhile isBlankByte := by
    rw [here, hrun]
    dsimp only
    rw [payload, List.take_length_add_append, List.drop_left,
      List.take_append_of_le_length hstart.length_le, ← List.prefix_iff_eq_take.1 hstart]
  have hchars : f.bytes.rdropWhile isBlankByte =
      utf8Encode (f.sql.rdropWhile fun c => c == ' ' || c == '\n') := by
    refine rdropWhile_utf8Encode (fun c hc => ?_) (fun c hc => ?_) (fun b hb => ?_) f.sql
    · have heq : ∀ d : Char, d.toNat < 0x80 →
          (UInt8.ofNat c.toNat == UInt8.ofNat d.toNat) = (c == d) := by
        intro d hd
        rw [Bool.eq_iff_iff, beq_iff_eq, beq_iff_eq, ← UInt8.toNat_inj, UInt8.toNat_ofNat',
          UInt8.toNat_ofNat', Nat.mod_eq_of_lt (by omega), Nat.mod_eq_of_lt (by omega)]
        exact ⟨Char.toNat_inj.1, congrArg _⟩
      exact congrArg₂ or (heq ' ' (by decide)) (heq '\n' (by decide))
    · refine Bool.eq_false_iff.2 fun h => ?_
      rcases Bool.or_eq_true_iff.1 h with h | h <;> rw [eq_of_beq h] at hc <;>
        exact absurd hc (by decide)
    · refine Bool.eq_false_iff.2 fun h => ?_
      rcases Bool.or_eq_true_iff.1 h with h | h <;> rw [eq_of_beq h] at hb <;>
        exact absurd hb (by decide)
  rw [textBetween, hbytes, hchars, utf8Lossy_encode]
  refine trimEnd_rdropWhile (fun c hc => ?_) f.sql
  rcases Bool.or_eq_true_iff.1 hc with h | h <;> rw [eq_of_beq h] <;> rfl

/-- A statement that starts with no keyword starts with no letter. -/
lemma head_of_led {s : List Char} (h : Led s) : hasKeyword (utf8Encode s) = true ∨
    ∀ c ∈ s.head?, ¬ (0x41 ≤ c.toNat ∧ c.toNat ≤ 0x5a ∨ 0x61 ≤ c.toNat ∧ c.toNat ≤ 0x7a) := by
  cases h with
  | keyword h => exact .inl h
  | @blank c s hc h =>
    refine .inr ?_
    rintro _ ⟨⟩
    simp only [isSpace, Bool.or_eq_true, Bool.and_eq_true, decide_eq_true_eq, beq_iff_eq] at hc
    omega
  | paren h =>
    refine .inr ?_
    rintro _ ⟨⟩
    decide
  | comment body h =>
    refine .inr ?_
    rintro _ ⟨⟩
    decide
  | line body h =>
    refine .inr ?_
    rintro _ ⟨⟩
    decide

/-- What a text starts with does not change if white space at its end is dropped. -/
lemma head_of_trimEnd {s : List Char} {c : Char} (h : c ∈ (trimEnd s).head?) :
    s.head? = some c := by
  obtain ⟨t, ht⟩ := List.head?_eq_some_iff.1 h
  obtain ⟨u, hu⟩ := s.rdropWhile_prefix isSpace
  have hu : trimEnd s ++ u = s := hu
  rw [← hu, ht]
  rfl

lemma head_trimEnd_cons {c : Char} (h : isSpace c = false) (s : List Char) :
    (trimEnd (c :: s)).head? = some c := by
  have hne : trimEnd (c :: s) ≠ [] := by
    intro hnil
    have hall := List.rdropWhile_eq_nil_iff.1 hnil c List.mem_cons_self
    exact Bool.false_ne_true (h ▸ hall)
  obtain ⟨d, t, ht⟩ := List.exists_cons_of_ne_nil hne
  have hd : d ∈ (trimEnd (c :: s)).head? := by rw [ht]; rfl
  rw [ht, List.head?_cons]
  exact (head_of_trimEnd hd).symm

lemma isSpace_of_letter {c : Char}
    (h : 0x41 ≤ c.toNat ∧ c.toNat ≤ 0x5a ∨ 0x61 ≤ c.toNat ∧ c.toNat ≤ 0x7a) :
    isSpace c = false := by
  refine Bool.eq_false_iff.2 fun hspace => ?_
  simp only [isSpace, Bool.or_eq_true, Bool.and_eq_true, decide_eq_true_eq, beq_iff_eq] at hspace
  omega

/-- What is taken at a keyword is not empty. -/
lemma fallback_end (payload : List UInt8) (i : ℕ) : ∃ n, (fallback payload i).2 = i + (n + 1) := by
  have hpos : ∀ k, 1 ≤ k → ∃ n, i + k = i + (n + 1) := fun k hk => ⟨k - 1, by omega⟩
  rw [fallback]
  dsimp only
  split_ifs with hone hfour
  · exact hpos _ hone.1
  · exact hpos _ hfour.1
  · exact hpos _ (le_max_right _ _)

/-- What is taken at a keyword starts with a letter. -/
lemma head_fallback {payload : List UInt8} {i : ℕ} (h : isKwAt payload i = true) :
    ∃ c ∈ (textBetween payload (fallback payload i)).head?,
      0x41 ≤ c.toNat ∧ c.toNat ≤ 0x5a ∨ 0x61 ≤ c.toNat ∧ c.toNat ≤ 0x7a := by
  obtain ⟨b, t, hdrop, hletter⟩ := letter_of_keyword h
  obtain ⟨n, hn⟩ := fallback_end payload i
  obtain ⟨c, hc⟩ : ∃ c : Char, c.toNat = b.toNat :=
    ⟨⟨b.toUInt32, .inl (by rw [UInt8.toNat_toUInt32]; omega)⟩, UInt8.toNat_toUInt32 b⟩
  have hbytes : (payload.take (fallback payload i).2).drop (fallback payload i).1 =
      UInt8.ofNat c.toNat :: t.take n := by
    have hfst : (fallback payload i).1 = i := rfl
    rw [hn, hfst, List.drop_take, hdrop, Nat.add_sub_cancel_left, List.take_succ_cons, hc,
      UInt8.ofNat_toNat]
  rw [← hc] at hletter
  have htext : textBetween payload (fallback payload i) = trimEnd (c :: utf8Lossy (t.take n)) := by
    rw [textBetween, hbytes, utf8Lossy_ascii_cons (by omega)]
  exact ⟨c, by rw [htext, head_trimEnd_cons (isSpace_of_letter hletter)]; rfl, hletter⟩

end SqlFrame

/-- A message with a statement, and the end of the message behind it. -/
def sqlFrame (sql : List Char) (text : ∀ b ∈ utf8Encode sql, isTextByte b = true)
    (length_lt : (utf8Encode sql).length < 2 ^ 32) (led : Led sql) : SqlFrame where
  flags := (0, 0)
  options := [6, 0x69, 0x80, 0, 0]
  sql := sql
  stop := 1
  rest := [0, 0, 0]
  free i := by
    by_cases hi : i < 9
    · revert i
      decide +kernel
    · rw [List.drop_eq_nil_of_le (Nat.le_of_not_lt hi)]
      rfl
  text := text
  not_text := rfl
  length_lt := length_lt
  led := led

/-- A query in parentheses, of 32 bytes. -/
def parenthesised : SqlFrame :=
  sqlFrame "(SELECT col FROM dual WHERE 1=1)".toList (by decide +kernel) (by decide +kernel)
    (.paren (.keyword (by decide +kernel)))

/-- The text of a query behind a comment. -/
def commentedSql : List Char :=
  '/' :: '*' :: ([' ', 'c', ' '] ++ '*' :: '/' :: ' ' :: "SELECT 1 FROM dual".toList)

lemma led_commentedSql : Led commentedSql :=
  have hkeyword : hasKeyword (utf8Encode "SELECT 1 FROM dual".toList) = true := by decide +kernel
  .comment [' ', 'c', ' '] (.blank (c := ' ') rfl (.keyword hkeyword))

lemma text_commentedSql : ∀ b ∈ utf8Encode commentedSql, isTextByte b = true := by decide +kernel

lemma length_commentedSql : (utf8Encode commentedSql).length < 2 ^ 32 := by decide +kernel

/-- A query behind a comment. -/
def commented : SqlFrame :=
  sqlFrame commentedSql text_commentedSql length_commentedSql led_commentedSql

end DbSaci.Wire
