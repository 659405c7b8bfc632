import DbSaci.Library.Scanner
import Mathlib.Data.List.DropRight

set_option relaxedAutoImplicit false
set_option autoImplicit false

/-!
# UTF-8 with replacement characters

## Main definitions

* `utf8Encode`, `utf8Lossy` — the bytes of a text, and the text of some bytes, where ill-formed
  bytes are replaced.

## Main results

* `utf8Lossy_encode` — a text is read back from its bytes.
* `utf8Encode_utf8Lossy` — bytes that are read without a replacement are those of the text.
* `prefix_of_utf8Encode_prefix` — a text whose bytes another one starts with is its start.
* `utf8Encode_split` — a text can be cut before the first byte of a character.
* `rdropWhile_utf8Encode` — what a text ends with can be dropped from its bytes.
-/

/-- The bytes of a text. -/
def utf8Encode (s : List Char) : List UInt8 := s.flatMap String.utf8EncodeChar

/-- The character that some bytes start with, if they are well-formed there. -/
def decodeFirst (s : List UInt8) : Option Char := s.toByteArray.utf8DecodeChar? 0

/-- A byte that may follow the first one of a character. -/
def isContinuation (b : UInt8) : Bool := 0x80 ≤ b && b ≤ 0xbf

/-- Two bytes that a character of three or four bytes may start with. -/
def startsLong (b c : UInt8) : Bool :=
  if b = 0xe0 then 0xa0 ≤ c && c ≤ 0xbf
  else if b = 0xed then 0x80 ≤ c && c ≤ 0x9f
  else if b = 0xf0 then 0x90 ≤ c && c ≤ 0xbf
  else if b = 0xf4 then 0x80 ≤ c && c ≤ 0x8f
  else 0xe1 ≤ b && b ≤ 0xf3 && isContinuation c

/-- How many bytes behind an ill-formed one are replaced with it: those that belong to the start of
a character. -/
def illFormed (b : UInt8) : List UInt8 → ℕ
  | [] => 0
  | c :: s =>
    if startsLong b c = true then
      if 0xf0 ≤ b ∧ (s.head?.map isContinuation).getD false = true then 2 else 1
    else 0

/-- The character some bytes start with or stand for, and how many more bytes belong to it. -/
def nextChar (b : UInt8) (s : List UInt8) : Char × ℕ :=
  match decodeFirst (b :: s) with
  | some c => (c, c.utf8Size - 1)
  | none => ('\uFFFD', illFormed b s)

/-- The text of some bytes. Ill-formed bytes are replaced. -/
def utf8Lossy (s : List UInt8) : List Char := scan nextChar s

lemma utf8Encode_cons (c : Char) (s : List Char) :
    utf8Encode (c :: s) = String.utf8EncodeChar c ++ utf8Encode s := List.flatMap_cons

lemma utf8Encode_append (s t : List Char) : utf8Encode (s ++ t) = utf8Encode s ++ utf8Encode t :=
  List.flatMap_append

/-- Each character has a byte at least. -/
lemma length_le_length_utf8Encode (s : List Char) : s.length ≤ (utf8Encode s).length := by
  induction s with
  | nil => exact Nat.le_refl _
  | cons c s ih =>
    have hpos := c.utf8Size_pos
    rw [utf8Encode_cons, List.length_append, String.length_utf8EncodeChar, List.length_cons]
    omega

/-- The first character is read back. -/
lemma decodeFirst_encode (c : Char) (s : List UInt8) :
    decodeFirst (String.utf8EncodeChar c ++ s) = some c := by
  rw [decodeFirst, List.toByteArray_append]
  exact ByteArray.utf8DecodeChar?_utf8EncodeChar_append

lemma utf8Lossy_encode_cons (c : Char) (s : List UInt8) :
    utf8Lossy (String.utf8EncodeChar c ++ s) = c :: utf8Lossy s := by
  have hlen := String.length_utf8EncodeChar c
  have hfirst := decodeFirst_encode c s
  obtain ⟨b, t, hbt⟩ : ∃ b t, String.utf8EncodeChar c = b :: t :=
    List.exists_cons_of_length_pos (hlen ▸ c.utf8Size_pos)
  rw [hbt, List.length_cons] at hlen
  rw [hbt, List.cons_append] at hfirst
  have hnext : nextChar b (t ++ s) = (c, t.length) := by
    rw [nextChar, hfirst]
    dsimp only
    rw [← hlen]
    rfl
  rw [hbt, List.cons_append, utf8Lossy, scan_cons, hnext, List.drop_left]
  rfl

/-- **A text is read back from its bytes.** -/
theorem utf8Lossy_encode (s : List Char) : utf8Lossy (utf8Encode s) = s := by
  induction s with
  | nil => rfl
  | cons c s ih => rw [utf8Encode_cons, utf8Lossy_encode_cons, ih]

/-- Bytes whose first character is read start with its bytes. -/
lemma eq_of_decodeFirst {s : List UInt8} {c : Char} (h : decodeFirst s = some c) :
    ∃ t, s = String.utf8EncodeChar c ++ t := by
  refine ⟨(s.toByteArray.extract c.utf8Size s.toByteArray.size).data.toList, ?_⟩
  have hsplit := congrArg (fun a : ByteArray => a.data.toList)
    (ByteArray.eq_of_utf8DecodeChar?_eq_some h)
  simpa only [ByteArray.data_append, Array.toList_append, List.data_toByteArray] using hsplit

/-- **A text without replacement characters** has the bytes it has been read from. -/
theorem utf8Encode_utf8Lossy {s : List UInt8} (h : '\uFFFD' ∉ utf8Lossy s) :
    utf8Encode (utf8Lossy s) = s := by
  rw [utf8Lossy] at h ⊢
  induction s using scan_induction with
  | nil => rfl
  | cons b s ih =>
    rw [scan_cons] at h ⊢
    cases hfirst : decodeFirst (b :: s) with
    | none =>
      refine absurd ?_ h
      rw [nextChar, hfirst]
      exact List.mem_cons_self
    | some c =>
      have hnext : nextChar b s = (c, c.utf8Size - 1) := by rw [nextChar, hfirst]
      rw [hnext, List.mem_cons, not_or] at h
      obtain ⟨t, ht⟩ := eq_of_decodeFirst hfirst
      have hlen := String.length_utf8EncodeChar c
      have hpos := c.utf8Size_pos
      have hdrop : s.drop (c.utf8Size - 1) = t := by
        have htail := congrArg (List.drop c.utf8Size) ht
        rw [← hlen, List.drop_left, hlen] at htail
        rw [← htail]
        obtain ⟨n, hn⟩ := Nat.exists_eq_add_of_le' hpos
        rw [hn]
        rfl
      rw [hnext, utf8Encode_cons, ih _ h.2, hdrop, ht]

/-- The text of some bytes, if they are well-formed. -/
def utf8Decode (s : List UInt8) : Option (List Char) :=
  (String.fromUTF8? ⟨s.toArray⟩).map String.toList

/-- A text is well-formed. -/
lemma utf8Decode_encode (s : List Char) : utf8Decode (utf8Encode s) = some s := by
  have hbytes : (⟨(utf8Encode s).toArray⟩ : ByteArray) = s.utf8Encode :=
    ByteArray.ext (List.data_toByteArray (l := utf8Encode s)).symm
  have hvalid : (s.utf8Encode).IsValidUTF8 := ByteArray.isValidUTF8_utf8Encode
  have hstring : String.fromUTF8 s.utf8Encode hvalid = String.ofList s := by
    rw [← String.toByteArray_inj, String.toByteArray_ofList]
    rfl
  rw [utf8Decode, hbytes, String.fromUTF8?, dif_pos hvalid, hstring, Option.map_some,
    String.toList_ofList]

/-- The loop that lists an array. -/
lemma toList_loop (bs : ByteArray) (i : ℕ) (r : List UInt8) :
    ByteArray.toList.loop bs i r = r.reverse ++ bs.data.toList.drop i := by
  induction hn : bs.size - i generalizing i r with
  | zero =>
    have hle : bs.data.toList.length ≤ i := by
      have : bs.data.toList.length = bs.size := rfl
      omega
    rw [ByteArray.toList.loop, if_neg (by omega), List.drop_of_length_le hle, List.append_nil]
  | succ n ih =>
    have hlt : i < bs.data.toList.length := by
      have : bs.data.toList.length = bs.size := rfl
      omega
    have hget : bs.get! i = bs.data.toList[i] := by
      have h : i < bs.data.size := hlt
      change bs.data[i]! = _
      rw [getElem!_pos bs.data i h]
      rfl
    rw [ByteArray.toList.loop, if_pos (by omega), ih _ _ (by omega), List.drop_eq_getElem_cons hlt,
      List.reverse_cons, List.append_assoc, List.singleton_append, hget]

/-- The bytes of an array. -/
lemma toList_eq_data (bs : ByteArray) : bs.toList = bs.data.toList := toList_loop bs 0 []

/-- The bytes of a text, as the library has them. -/
lemma toList_toUTF8 (s : List Char) : (String.ofList s).toUTF8.toList = utf8Encode s := by
  rw [toList_eq_data, String.toUTF8_eq_toByteArray, String.toByteArray_ofList]
  exact congrArg Array.toList (List.data_toByteArray (l := utf8Encode s))

/-! ### Cutting the bytes of a text -/

/-- Only texts are read. -/
lemma utf8Encode_of_utf8Decode {b : List UInt8} {s : List Char} (h : utf8Decode b = some s) :
    utf8Encode s = b := by
  rw [utf8Decode, String.fromUTF8?] at h
  split_ifs at h with hvalid
  · rw [Option.map_some, Option.some.injEq] at h
    have hbytes := congrArg (fun a : ByteArray => a.data.toList)
      (String.utf8Encode_toList (b := String.fromUTF8 ⟨b.toArray⟩ hvalid))
    rw [h] at hbytes
    have hencode : (s.utf8Encode).data.toList = utf8Encode s :=
      congrArg Array.toList (List.data_toByteArray (l := utf8Encode s)) 
    exact hencode.symm.trans hbytes
  · cases h

/-- Bytes are a text if and only if it is read from them. -/
lemma utf8Decode_eq_some_iff {b : List UInt8} {s : List Char} :
    utf8Decode b = some s ↔ b = utf8Encode s :=
  ⟨fun h => (utf8Encode_of_utf8Decode h).symm, fun h => h ▸ utf8Decode_encode s⟩

/-- **A text whose bytes another one starts with** is what the other one starts with. -/
theorem prefix_of_utf8Encode_prefix {s t : List Char} (h : utf8Encode s <+: utf8Encode t) :
    s <+: t := by
  induction s generalizing t with
  | nil => exact List.nil_prefix
  | cons c s ih =>
    obtain ⟨b, hb⟩ := h
    rw [utf8Encode_cons, List.append_assoc] at hb
    cases t with
    | nil =>
      have hlen := congrArg List.length hb
      have hpos := c.utf8Size_pos
      rw [List.length_append, String.length_utf8EncodeChar] at hlen
      change _ = 0 at hlen
      omega
    | cons d t =>
      rw [utf8Encode_cons] at hb
      have hfirst := decodeFirst_encode c (utf8Encode s ++ b)
      rw [hb, decodeFirst_encode] at hfirst
      obtain rfl := Option.some.inj hfirst
      exact List.cons_prefix_cons.2 ⟨rfl, ih ⟨b, List.append_cancel_left hb⟩⟩

/-- The bytes of a text start with the first byte of a character. -/
lemma isUTF8FirstByte_of_utf8Encode {s : List Char} {b : UInt8} {t : List UInt8}
    (h : utf8Encode s = b :: t) : b.IsUTF8FirstByte := by
  cases s with
  | nil => cases h
  | cons c s =>
    have hpos := c.utf8Size_pos
    have hlen := String.length_utf8EncodeChar c
    have hlt : 0 < (String.utf8EncodeChar c).length := by omega
    have hget : (String.utf8EncodeChar c ++ utf8Encode s)[0]? = (String.utf8EncodeChar c)[0]? :=
      List.getElem?_append_left hlt
    rw [← utf8Encode_cons, h, List.getElem?_eq_getElem hlt, List.getElem?_cons_zero,
      Option.some.injEq] at hget
    rw [hget]
    exact UInt8.isUTF8FirstByte_getElem_zero_utf8EncodeChar

/-- **A text can be cut before the first byte of a character.** -/
theorem utf8Encode_split {w : List Char} {t s : List UInt8} {b : UInt8}
    (h : utf8Encode w = t ++ b :: s) (hb : b.IsUTF8FirstByte) :
    ∃ w₁ w₂, w = w₁ ++ w₂ ∧ utf8Encode w₁ = t ∧ utf8Encode w₂ = b :: s := by
  induction w generalizing t with
  | nil =>
    have hlen := congrArg List.length h
    rw [List.length_append, List.length_cons] at hlen
    change 0 = _ at hlen
    omega
  | cons c w ih =>
    rw [utf8Encode_cons] at h
    rcases List.append_eq_append_iff.1 h with ⟨x, ht, hw⟩ | ⟨x, hc, hrest⟩
    · obtain ⟨w₁, w₂, rfl, rfl, h₂⟩ := ih hw
      exact ⟨c :: w₁, w₂, rfl, (utf8Encode_cons c w₁).trans ht.symm, h₂⟩
    · cases x with
      | nil =>
        rw [List.append_nil] at hc
        rw [List.nil_append] at hrest
        refine ⟨[c], w, rfl, ?_, hrest.symm⟩
        rw [← hc, utf8Encode_cons]
        exact List.append_nil _
      | cons b' x =>
        -- the byte stands inside the character, so it is the first one of it
        rw [List.cons_append, List.cons.injEq] at hrest
        obtain ⟨rfl, hrest⟩ := hrest
        have hlt : t.length < (String.utf8EncodeChar c).length := by
          rw [hc, List.length_append, List.length_cons]
          omega
        have hget : (String.utf8EncodeChar c)[t.length] = b := by
          simp only [hc, List.getElem_append_right (Nat.le_refl _), Nat.sub_self,
            List.getElem_cons_zero]
        have hzero := UInt8.isUTF8FirstByte_getElem_utf8EncodeChar.1 (hget ▸ hb)
        obtain rfl := List.eq_nil_of_length_eq_zero hzero
        refine ⟨[], c :: w, rfl, rfl, ?_⟩
        rw [utf8Encode_cons, hc, hrest]
        rfl

/-! ### Ascii characters -/

/-- A character in the range of ASCII is one byte. -/
lemma utf8EncodeChar_ascii {c : Char} (h : c.toNat < 0x80) :
    String.utf8EncodeChar c = [UInt8.ofNat c.toNat] := by
  have hsize : c.utf8Size = 1 := by
    rw [Char.utf8Size_eq_one_iff, UInt32.le_iff_toNat_le]
    exact Nat.le_of_lt_succ h
  rw [String.utf8EncodeChar_eq_singleton hsize]
  rfl

lemma le_toNat_or {a b : UInt8} (h : 0x80 ≤ b.toNat) : 0x80 ≤ (a ||| b).toNat := by
  rw [UInt8.toNat_or]
  exact h.trans Nat.right_le_or

/-- The bytes of all other characters are above that range. -/
lemma le_of_mem_utf8EncodeChar {c : Char} (h : 0x80 ≤ c.toNat) :
    ∀ b ∈ String.utf8EncodeChar c, 0x80 ≤ b.toNat := by
  have hone : c.utf8Size ≠ 1 := by
    rw [Ne, Char.utf8Size_eq_one_iff, UInt32.le_iff_toNat_le]
    exact Nat.not_le.2 h
  have hpos := c.utf8Size_pos
  have hle := c.utf8Size_le_four
  obtain htwo | hthree | hfour : c.utf8Size = 2 ∨ c.utf8Size = 3 ∨ c.utf8Size = 4 := by omega
  · rw [String.utf8EncodeChar_eq_cons_cons htwo]
    simp only [List.forall_mem_cons]
    exact ⟨le_toNat_or (by decide), le_toNat_or (by decide), nofun⟩
  · rw [String.utf8EncodeChar_eq_cons_cons_cons hthree]
    simp only [List.forall_mem_cons]
    exact ⟨le_toNat_or (by decide), le_toNat_or (by decide), le_toNat_or (by decide), nofun⟩
  · rw [String.utf8EncodeChar_eq_cons_cons_cons_cons hfour]
    simp only [List.forall_mem_cons]
    exact ⟨le_toNat_or (by decide), le_toNat_or (by decide), le_toNat_or (by decide),
      le_toNat_or (by decide), nofun⟩

/-- A byte in the range of ASCII is read as the character. -/
lemma utf8Lossy_ascii_cons {c : Char} (h : c.toNat < 0x80) (s : List UInt8) :
    utf8Lossy (UInt8.ofNat c.toNat :: s) = c :: utf8Lossy s := by
  have hcons := utf8Lossy_encode_cons c s
  rwa [utf8EncodeChar_ascii h] at hcons

/-- **What a text ends with can be dropped from its bytes**, if it is a matter of characters in the
range of ASCII. -/
theorem rdropWhile_utf8Encode {p : Char → Bool} {q : UInt8 → Bool}
    (hascii : ∀ c : Char, c.toNat < 0x80 → q (UInt8.ofNat c.toNat) = p c)
    (hother : ∀ c : Char, 0x80 ≤ c.toNat → p c = false) (hbyte : ∀ b, 0x80 ≤ b.toNat → q b = false)
    (s : List Char) : (utf8Encode s).rdropWhile q = utf8Encode (s.rdropWhile p) := by
  induction s using List.reverseRecOn with
  | nil => rfl
  | append_singleton s c ih =>
    have hsplit : utf8Encode (s ++ [c]) = utf8Encode s ++ String.utf8EncodeChar c := by
      rw [utf8Encode_append, utf8Encode_cons]
      exact congrArg _ (List.append_nil _)
    by_cases hc : c.toNat < 0x80
    · rw [hsplit, utf8EncodeChar_ascii hc]
      cases hp : p c with
      | true =>
        rw [List.rdropWhile_concat_pos _ _ _ (by rw [hascii c hc, hp]),
          List.rdropWhile_concat_pos _ _ _ hp, ih]
      | false =>
        rw [List.rdropWhile_concat_neg _ _ _ (by simp [hascii c hc, hp]),
          List.rdropWhile_concat_neg _ _ _ (by simp [hp]), hsplit, utf8EncodeChar_ascii hc]
    · have hge := Nat.le_of_not_lt hc
      have hne : String.utf8EncodeChar c ≠ [] := by
        intro hnil
        have hlen := String.length_utf8EncodeChar c
        rw [hnil] at hlen
        exact absurd c.utf8Size_pos (by rw [← hlen]; exact Nat.lt_irrefl 0)
      rw [List.rdropWhile_concat_neg _ _ _ (by simp [hother c hge]), hsplit,
        List.rdropWhile_eq_self_iff]
      intro hall
      rw [List.getLast_append_of_ne_nil _ hne,
        hbyte _ (le_of_mem_utf8EncodeChar hge _ (List.getLast_mem hne))]
      exact Bool.false_ne_true
