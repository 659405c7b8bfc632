import DbSaci.Wire.AuthRequest
import DbSaci.Wire.OciResponse

set_option relaxedAutoImplicit false
set_option autoImplicit false

/-!
# Login requests of OCI clients

The keys of an OCI client's login request are searched for: the first one is where a text looks like
a key and has its length in front of it. The name is the text in front of that place which has its
own length in front of it.

## Main definitions

* `parseOciAuth` — the parser.
* `OciRequest` — what a client sends.
* `OciRequest.Readable` — the name and the keys are found.

## Main results

* `OciRequest.parsed_iff` — which requests are parsed back.
* `auth_iff` — the same for both kinds of clients.
-/

namespace DbSaci.Wire

/-! ### The parser -/

/-- The number that some bytes are, the first one being the lowest. -/
def ofLeBytes (s : List UInt8) : ℕ := ofBeBytes s.reverse

/-- The bytes of `AUTH`. -/
def authWord : List UInt8 := [65, 85, 84, 72]

/-- The bytes of `SESSION`. -/
def sessionWord : List UInt8 := [83, 69, 83, 83, 73, 79, 78]

/-- A text that looks like a key. -/
def looksKey (s : List UInt8) : Bool := authWord.isPrefixOf s || sessionWord.isPrefixOf s

/-- A text that looks like a key stands here behind its length, which is written twice. -/
def isKeyStart (s : List UInt8) : Bool :=
  looksKey (s.drop 5) && decide (4 ≤ ofLeBytes (s.take 4)) && decide (ofLeBytes (s.take 4) ≤ 64) &&
    (s[4]?).any fun b => b.toNat == ofLeBytes (s.take 4)

/-- Where the first key starts with its length. -/
def keyStart (payload : List UInt8) : Option ℕ :=
  (List.range (payload.length - 4 - 5)).find? fun i => isKeyStart (payload.drop i)

/-- `is_ascii_graphic`. -/
def isGraphic (b : UInt8) : Bool := 0x21 ≤ b && b ≤ 0x7e

/-- The name at the end of the bytes in front of the first key. -/
def ociUsername (head : List UInt8) : Option (List Char) :=
  ((List.range' 1 30).find? fun ulen =>
    decide (1 + ulen ≤ head.length) && (head[head.length - 1 - ulen]?).any (·.toNat == ulen) &&
      (head.drop (head.length - ulen)).all isGraphic).bind fun ulen =>
        utf8Decode (head.drop (head.length - ulen))

/-- A key without the zeros it ends with. -/
def trimZeros (key : List Char) : List Char := key.rdropWhile (· == '\x00')

/-- A key behind its length, which is written twice, and what is behind it. -/
def ociAuthKey (s : List UInt8) : Option (List Char × List UInt8) :=
  let klen := ofLeBytes (s.take 4)
  if s.length < 5 ∨ klen = 0 ∨ 64 < klen ∨ s.length < 5 + klen ∨
      (s[4]?).map UInt8.toNat ≠ some klen then none
  else some (trimZeros (utf8Lossy ((s.drop 5).take klen)), s.drop (5 + klen))

/-- A value behind its length, and what is behind the flags that follow it. -/
def ociAuthValue (s : List UInt8) : Option (List UInt8 × List UInt8) :=
  if s.length < 4 then none
  else
    let vlen := ofLeBytes (s.take 4)
    if vlen = 0 then some ([], (s.drop 4).drop 4)
    else if (s.drop 4).length < 1 + vlen then none
    else some (((s.drop 4).drop 1).take vlen, ((s.drop 4).drop (1 + vlen)).drop 4)

/-- The keys with their values, at most so many. -/
def ociAuthPairs : ℕ → List UInt8 → List (List Char × List UInt8)
  | 0, _ => []
  | fuel + 1, s =>
    match ociAuthKey s with
    | none => []
    | some (key, s) =>
      match ociAuthValue s with
      | none => []
      | some (value, s) => (key, value) :: ociAuthPairs fuel s

/-- `parse_oci_auth`. -/
def parseOciAuth (payload : List UInt8) : Option (List Char) × List (List Char × List UInt8) :=
  match keyStart payload with
  | none => (none, [])
  | some kvStart =>
    (ociUsername (payload.take kvStart), ociAuthPairs payload.length (payload.drop kvStart))

/-! ### What a client sends -/

/-- A key with its value, whose lengths fit into 32 bits. -/
structure OciEntry where
  key : List Char
  value : List UInt8
  flags : UInt32
  key_lt : (utf8Encode key).length < 2 ^ 32
  value_lt : value.length < 2 ^ 32

namespace OciEntry

variable (e : OciEntry)

/-- `oci_write_kv`. -/
def bytes : List UInt8 :=
  u32Le (UInt32.ofNat (utf8Encode e.key).length) ++
    (UInt8.ofNat (utf8Encode e.key).length :: (utf8Encode e.key ++
      (u32Le (UInt32.ofNat e.value.length) ++
        ((if e.value = [] then [] else UInt8.ofNat e.value.length :: e.value) ++ u32Le e.flags))))

/-- What is found of it. -/
def parsed : List Char × List UInt8 := (e.key, e.value)

/-- The key is read as one: it has from 1 to 64 bytes, and does not end with a zero. -/
def Readable : Prop :=
  (1 ≤ (utf8Encode e.key).length ∧ (utf8Encode e.key).length ≤ 64) ∧ e.key.getLast? ≠ some '\x00'

end OciEntry

/-- The login request of an OCI client. -/
structure OciRequest where
  /-- The pointers in front of the name. -/
  preamble : List UInt8
  /-- No text in them looks like a key. -/
  preamble_no_key : ∀ n, looksKey (preamble.drop n) = false
  name : List Char
  name_length : 1 ≤ name.length ∧ name.length ≤ 128
  name_printable : ∀ c ∈ name, 0x20 ≤ c.toNat ∧ c.toNat < 0x7f
  entries : List OciEntry
  /-- The first key has no replacement character. -/
  key_text : ∀ e ∈ entries.head?, '\uFFFD' ∉ e.key

namespace OciRequest

variable (r : OciRequest)

/-- The entries as they are written. -/
def entryBytes : List UInt8 := r.entries.flatMap OciEntry.bytes

/-- What stands in front of the entries. -/
def head : List UInt8 := r.preamble ++ UInt8.ofNat r.name.length :: utf8Encode r.name

/-- The request as it is written. -/
def bytes : List UInt8 := r.head ++ r.entryBytes

/-- The request is parsed back. -/
def Parsed : Prop := parseOciAuth r.bytes = (some r.name, r.entries.map OciEntry.parsed)

/-- The name is taken for a key: it looks like one, and the preamble ends with its length. -/
def NameIsKey : Prop :=
  looksKey (utf8Encode r.name ++ r.entryBytes) = true ∧ 4 ≤ r.name.length ∧
    u32Le (UInt32.ofNat r.name.length) <:+ r.preamble

/-- The first key is taken for one: it has four bytes at least, and looks like a key. -/
def FirstKey : Prop :=
  ∃ e ∈ r.entries.head?, 4 ≤ (utf8Encode e.key).length ∧
    looksKey (utf8Encode e.key ++ u32Le (UInt32.ofNat e.value.length)) = true

/-- The name is found, and so is each key. -/
def Readable : Prop :=
  (r.name.length ≤ 30 ∧ ' ' ∉ r.name) ∧ ¬ r.NameIsKey ∧ r.FirstKey ∧ ∀ e ∈ r.entries, e.Readable

end OciRequest

/-! ### Numbers -/

@[simp]
lemma ofLeBytes_u32Le (n : UInt32) : ofLeBytes (u32Le n) = n.toNat := by
  rw [ofLeBytes, u32Le, List.reverse_reverse]
  exact ofBeBytes_of_lt n.toNat_lt

/-- Four bytes of a number are those that are written for it. -/
lemma eq_u32Le {s : List UInt8} (hlen : s.length = 4) {n : ℕ} (h : ofLeBytes s = n)
    (hn : n < 2 ^ 32) : s = u32Le (UInt32.ofNat n) := by
  have hword : (UInt32.ofNat n).toNat = n := UInt32.toNat_ofNat_of_lt' hn
  have hback := ofLeBytes_u32Le (UInt32.ofNat n)
  rw [hword] at hback
  refine List.reverse_inj.1 (ofBeBytes_inj ?_ (h.trans hback.symm))
  simp [hlen]

/-- Behind the first byte that follows a text. -/
lemma drop_succ_append {s t : List UInt8} {b : UInt8} {n : ℕ} (h : s.length = n) :
    (s ++ b :: t).drop (n + 1) = t := by
  rw [← List.drop_drop, List.drop_left' h, List.drop_one, List.tail_cons]

/-- The length of a key fits into a byte, and into four. -/
lemma toNat_keyLength {k : ℕ} (hk : k ≤ 64) :
    (UInt8.ofNat k).toNat = k ∧ (UInt32.ofNat k).toNat = k :=
  ⟨UInt8.toNat_ofNat_of_lt' (Nat.lt_of_le_of_lt hk (by decide)),
    UInt32.toNat_ofNat_of_lt' (Nat.lt_of_le_of_lt hk (by decide))⟩

/-- A number of one byte. -/
lemma u32Le_byte {k : ℕ} (hk : k < 256) : u32Le (UInt32.ofNat k) = [UInt8.ofNat k, 0, 0, 0] := by
  have hword : (UInt32.ofNat k).toNat = k := UInt32.toNat_ofNat_of_lt' (hk.trans (by decide))
  rw [u32Le, hword, toBeBytes_four, Nat.div_eq_of_lt (hk.trans (by decide)),
    Nat.div_eq_of_lt (hk.trans (by decide)), Nat.div_eq_of_lt hk]
  rfl

/-- The first byte of a number is the lowest. -/
lemma exists_u32Le_eq {n : ℕ} (hn : n < 2 ^ 32) :
    ∃ b c d, u32Le (UInt32.ofNat n) = [UInt8.ofNat n, b, c, d] := by
  have hword : (UInt32.ofNat n).toNat = n := UInt32.toNat_ofNat_of_lt' hn
  rw [u32Le, hword, toBeBytes_four]
  exact ⟨_, _, _, rfl⟩

/-! ### What looks like a key -/

lemma looksKey_iff (s : List UInt8) : looksKey s = true ↔ authWord <+: s ∨ sessionWord <+: s := by
  rw [looksKey, Bool.or_eq_true, List.isPrefixOf_iff_prefix, List.isPrefixOf_iff_prefix]

lemma looksKey_append {s : List UInt8} (h : looksKey s = true) (t : List UInt8) :
    looksKey (s ++ t) = true := by
  rw [looksKey_iff] at h ⊢
  exact h.imp (fun hp => hp.trans (List.prefix_append s t))
    fun hp => hp.trans (List.prefix_append s t)

/-- Seven bytes show whether a text looks like a key. -/
lemma looksKey_of_append {s t : List UInt8} (hlen : 7 ≤ s.length)
    (h : looksKey (s ++ t) = true) : looksKey s = true := by
  rw [looksKey_iff] at h ⊢
  have hcut : ∀ word : List UInt8, word.length ≤ 7 → word <+: s ++ t → word <+: s :=
    fun word hword hp => List.prefix_of_prefix_length_le hp (List.prefix_append s t)
      (hword.trans hlen)
  exact h.imp (hcut _ (by decide)) (hcut _ (by decide))

lemma four_le_of_looksKey {s : List UInt8} (h : looksKey s = true) : 4 ≤ s.length := by
  rw [looksKey_iff] at h
  rcases h with h | h
  · exact h.length_le
  · exact Nat.le_trans (by decide) h.length_le

/-- A byte that is not in a word ends it. -/
lemma prefix_of_prefix_append_cons {word s t : List UInt8} {b : UInt8} (hb : b ∉ word)
    (h : word <+: s ++ b :: t) : word <+: s := by
  rcases Nat.lt_or_ge s.length word.length with hlt | hle
  · refine absurd ?_ hb
    have hsplit : s ++ b :: t = (s ++ [b]) ++ t := by rw [List.append_assoc, List.singleton_append]
    have hprefix : s ++ [b] <+: word := by
      refine List.prefix_of_prefix_length_le ?_ h ?_
      · rw [hsplit]
        exact List.prefix_append _ _
      · rw [List.length_append, List.length_singleton]
        exact hlt
    exact hprefix.subset (List.mem_append_right s List.mem_cons_self)
  · exact List.prefix_of_prefix_length_le h (List.prefix_append s _) hle

/-- A byte below the letters ends what looks like a key. -/
lemma looksKey_of_append_cons {s t : List UInt8} {b : UInt8} (hb : b.toNat < 65)
    (h : looksKey (s ++ b :: t) = true) : looksKey s = true := by
  rw [looksKey_iff] at h ⊢
  have hletters : ∀ word : List UInt8,
      word.all (fun c => decide (65 ≤ c.toNat)) = true → b ∉ word :=
    fun word hword hmem =>
      absurd (of_decide_eq_true (List.all_eq_true.1 hword b hmem)) (Nat.not_le.2 hb)
  exact h.imp (prefix_of_prefix_append_cons (hletters _ (by decide)))
    (prefix_of_prefix_append_cons (hletters _ (by decide)))

/-- **Where a key starts**: its length stands there twice, and the text behind it looks like one. -/
lemma isKeyStart_iff (s : List UInt8) :
    isKeyStart s = true ↔ ∃ k t, s = u32Le (UInt32.ofNat k) ++ UInt8.ofNat k :: t ∧
      4 ≤ k ∧ k ≤ 64 ∧ looksKey t = true := by
  simp only [isKeyStart, Bool.and_eq_true, decide_eq_true_eq]
  constructor
  · rintro ⟨⟨⟨hkey, hlow⟩, hhigh⟩, hbyte⟩
    rw [Option.any_eq_true] at hbyte
    obtain ⟨b, hb, hvalue⟩ := hbyte
    obtain ⟨hlt, hget⟩ := List.getElem?_eq_some_iff.1 hb
    refine ⟨_, s.drop 5, ?_, hlow, hhigh, hkey⟩
    have htake : (s.take 4).length = 4 := List.length_take_of_le hlt.le
    have hsmall : ofLeBytes (s.take 4) < 2 ^ 32 := Nat.lt_of_le_of_lt hhigh (by decide)
    rw [← eq_u32Le htake rfl hsmall, ← beq_iff_eq.1 hvalue, UInt8.ofNat_toNat, ← hget,
      ← List.drop_eq_getElem_cons hlt, List.take_append_drop]
  · rintro ⟨k, t, rfl, hlow, hhigh, hkey⟩
    have hlen := length_u32Le (UInt32.ofNat k)
    obtain ⟨hbyte, hword⟩ := toNat_keyLength hhigh
    have htake : (u32Le (UInt32.ofNat k) ++ UInt8.ofNat k :: t).take 4 = u32Le (UInt32.ofNat k) :=
      List.take_left' hlen
    have hget : (u32Le (UInt32.ofNat k) ++ UInt8.ofNat k :: t)[4]? = some (UInt8.ofNat k) := by
      rw [List.getElem?_append_right hlen.le, hlen]
      rfl
    have hdrop : (u32Le (UInt32.ofNat k) ++ UInt8.ofNat k :: t).drop 5 = t := by
      rw [List.drop_append, hlen, List.drop_of_length_le (by rw [hlen]; decide)]
      rfl
    rw [htake, ofLeBytes_u32Le, hword, hget, hdrop]
    refine ⟨⟨⟨hkey, hlow⟩, hhigh⟩, ?_⟩
    rw [Option.any_some, hbyte, beq_self_eq_true]

/-! ### The name -/

lemma isGraphic_iff (b : UInt8) : isGraphic b = true ↔ 0x21 ≤ b.toNat ∧ b.toNat ≤ 0x7e := by
  simp only [isGraphic, Bool.and_eq_true, decide_eq_true_eq, UInt8.le_iff_toNat_le]
  rfl

/-- A name that is found stands at the end, has at most 30 bytes, and has no blank. -/
lemma of_ociUsername {head : List UInt8} {s : List Char} (h : ociUsername head = some s) :
    utf8Encode s <:+ head ∧ (utf8Encode s).length ≤ 30 ∧
      ∀ b ∈ utf8Encode s, isGraphic b = true := by
  rw [ociUsername, Option.bind_eq_some_iff] at h
  obtain ⟨ulen, hfind, hdecode⟩ := h
  rw [List.find?_range'_eq_some] at hfind
  obtain ⟨hfound, hmem, -⟩ := hfind
  rw [Bool.and_eq_true, Bool.and_eq_true, decide_eq_true_eq] at hfound
  obtain ⟨⟨hle, -⟩, hgraphic⟩ := hfound
  rw [List.mem_range'_1] at hmem
  rw [utf8Decode_eq_some_iff] at hdecode
  rw [← hdecode]
  refine ⟨List.drop_suffix _ _, ?_, List.all_eq_true.1 hgraphic⟩
  rw [List.length_drop]
  omega

namespace OciRequest

variable (r : OciRequest)

lemma length_utf8Encode_name : (utf8Encode r.name).length = r.name.length := by
  rw [ThinRequest.utf8Encode_printable r.name_printable, List.length_map]

lemma length_head : r.head.length = r.preamble.length + 1 + r.name.length := by
  rw [head, List.length_append, List.length_cons, length_utf8Encode_name]
  omega

lemma toNat_length : (UInt8.ofNat r.name.length).toNat = r.name.length :=
  UInt8.toNat_ofNat_of_lt' (Nat.lt_of_le_of_lt r.name_length.2 (by decide))

/-- **A short name without blanks is found**: a byte of it is too high for a shorter length. -/
lemma ociUsername_head (hshort : r.name.length ≤ 30) (hblank : ' ' ∉ r.name) :
    ociUsername r.head = some r.name := by
  have hlength := r.length_utf8Encode_name
  have hhead := r.length_head
  have hbytes : ∀ b ∈ utf8Encode r.name, 0x21 ≤ b.toNat ∧ b.toNat ≤ 0x7e := by
    rw [ThinRequest.utf8Encode_printable r.name_printable, List.forall_mem_map]
    intro c hc
    obtain ⟨hlow, hhigh⟩ := r.name_printable c hc
    have hne : c.toNat ≠ 0x20 := by
      intro h
      obtain rfl : c = ' ' := Char.toNat_inj.1 h
      exact hblank hc
    rw [UInt8.toNat_ofNat_of_lt' (hhigh.trans (by decide))]
    omega
  have hdrop : r.head.drop (r.head.length - r.name.length) = utf8Encode r.name := by
    have hsplit : r.head = (r.preamble ++ [UInt8.ofNat r.name.length]) ++ utf8Encode r.name := by
      rw [head, List.append_assoc, List.singleton_append]
    rw [hsplit, List.length_append, hlength, Nat.add_sub_cancel, List.drop_left]
  have hget : ∀ j, r.head[r.preamble.length + j]? =
      (UInt8.ofNat r.name.length :: utf8Encode r.name)[j]? := by
    intro j
    rw [head, List.getElem?_append_right (Nat.le_add_right _ _), Nat.add_sub_cancel_left]
  rw [ociUsername, Option.bind_eq_some_iff]
  refine ⟨r.name.length, ?_, ?_⟩
  · rw [List.find?_range'_eq_some]
    refine ⟨?_, ?_, fun j hpos hlt => ?_⟩
    · have hplace : r.head.length - 1 - r.name.length = r.preamble.length + 0 := by omega
      rw [hdrop, hplace, hget, Bool.and_eq_true, Bool.and_eq_true, decide_eq_true_eq]
      refine ⟨⟨by omega, ?_⟩, List.all_eq_true.2 fun b hb => (isGraphic_iff b).2 (hbytes b hb)⟩
      rw [List.getElem?_cons_zero, Option.any_some, beq_iff_eq]
      exact r.toNat_length
    · rw [List.mem_range'_1]
      have hpos := r.name_length.1
      omega
    · -- in front of a shorter name there is a byte of the name
      have hplace : r.head.length - 1 - j = r.preamble.length + (r.name.length - 1 - j + 1) := by
        omega
      have hinside : r.name.length - 1 - j < (utf8Encode r.name).length := by omega
      have hhigh := (hbytes _ (List.getElem_mem hinside)).1
      rw [hplace, hget, List.getElem?_cons_succ, List.getElem?_eq_getElem hinside,
        Option.any_some, beq_false_of_ne (by omega), Bool.and_false, Bool.false_and]
      rfl
  · rw [hdrop, utf8Decode_encode]

/-! ### The place of the first key -/

lemma bytes_eq : r.bytes = r.preamble ++ UInt8.ofNat r.name.length ::
    (utf8Encode r.name ++ r.entryBytes) := by
  rw [bytes, head, List.append_assoc, List.cons_append]

/-- No byte of the name and of its length is zero. -/
lemma ne_zero_of_inside {q : ℕ} (hlow : r.preamble.length ≤ q) (hhigh : q < r.head.length) :
    r.bytes[q]? ≠ some 0 := by
  intro h
  rw [bytes, List.getElem?_append_left hhigh, head,
    List.getElem?_append_right hlow] at h
  have hmem := List.mem_of_getElem? h
  rcases List.mem_cons.1 hmem with hlen | hname
  · have hpos := r.name_length.1
    have hvalue := congrArg UInt8.toNat hlen
    rw [r.toNat_length] at hvalue
    change 0 = r.name.length at hvalue
    omega
  · rw [ThinRequest.utf8Encode_printable r.name_printable, List.mem_map] at hname
    obtain ⟨c, hc, hzero⟩ := hname
    obtain ⟨hprint, hsmall⟩ := r.name_printable c hc
    have hvalue := congrArg UInt8.toNat hzero
    rw [UInt8.toNat_ofNat_of_lt' (hsmall.trans (by decide))] at hvalue
    change c.toNat = 0 at hvalue
    omega

/-- The entries do not start with three zeros and their fourth byte as the length of a key. -/
lemma entryBytes_ne {k : UInt8} {t : List UInt8} (hkey : looksKey t = true) :
    r.entryBytes ≠ 0 :: 0 :: 0 :: k :: t := by
  intro h
  rw [entryBytes] at h
  cases hentries : r.entries with
  | nil =>
    rw [hentries] at h
    cases h
  | cons e entries =>
    obtain ⟨b, c, d, hlen⟩ := exists_u32Le_eq e.key_lt
    rw [hentries, List.flatMap_cons, OciEntry.bytes, hlen] at h
    simp only [List.cons_append, List.nil_append, List.cons.injEq] at h
    obtain ⟨hfirst, -, -, -, ht⟩ := h
    -- the byte behind the length is its lowest byte, which is zero
    rw [← ht, hfirst] at hkey
    have hnil := looksKey_of_append_cons (s := []) (by decide) hkey
    exact absurd hnil (by decide)

/-- **What looks like a key in front of the entries** is the name. -/
lemma early {i : ℕ} (hi : i < r.head.length) (hshort : r.name.length ≤ 30)
    (h : isKeyStart (r.bytes.drop i) = true) :
    i + 4 = r.preamble.length ∧ r.NameIsKey := by
  obtain ⟨k, t, hdrop, hlow, hhigh, hkey⟩ := (isKeyStart_iff _).1 h
  have hhead := r.length_head
  have hpos := r.name_length.1
  have hbyte := (toNat_keyLength hhigh).1
  rw [u32Le_byte (Nat.lt_of_le_of_lt hhigh (by decide))] at hdrop
  have hget : ∀ j, r.bytes[i + j]? = (UInt8.ofNat k :: 0 :: 0 :: 0 :: UInt8.ofNat k :: t)[j]? := by
    intro j
    rw [← List.getElem?_drop, hdrop]
    rfl
  have ht : r.bytes.drop (i + 5) = t := by
    rw [← List.drop_drop, hdrop]
    rfl
  rcases Nat.lt_trichotomy (i + 4) r.preamble.length with hbefore | hat | hbehind
  · -- a text that starts in the preamble ends in front of the length of the name
    rw [bytes_eq, List.drop_append_of_le_length hbefore] at ht
    rw [← ht] at hkey
    have hinside := looksKey_of_append_cons (by rw [r.toNat_length]; omega) hkey
    rw [r.preamble_no_key] at hinside
    cases hinside
  · have hsplit : r.bytes.drop i = r.preamble.drop i ++ UInt8.ofNat r.name.length ::
        (utf8Encode r.name ++ r.entryBytes) := by
      rw [bytes_eq, List.drop_append_of_le_length (by omega)]
    have hfour : (r.preamble.drop i).length = [UInt8.ofNat k, 0, 0, 0].length := by
      rw [List.length_drop]
      change _ = 4
      omega
    obtain ⟨hpreamble, hrest⟩ := List.append_inj (hsplit.symm.trans hdrop) hfour
    obtain ⟨hsame, hname⟩ := List.cons.inj hrest
    have hlength : r.name.length = k := by
      rw [← r.toNat_length, hsame, hbyte]
    refine ⟨hat, ?_, by omega, ?_⟩
    · rw [hname]
      exact hkey
    · rw [hlength, u32Le_byte (Nat.lt_of_le_of_lt hhigh (by decide)), ← hpreamble]
      exact List.drop_suffix _ _
  · exfalso
    -- one of the three zeros would belong to the name, or all to the entries
    rcases Nat.lt_or_ge (i + 3) r.head.length with hlt | hge
    · exact r.ne_zero_of_inside (by omega) hlt (hget 3)
    rcases Nat.lt_or_ge (i + 2) r.head.length with hlt | hge'
    · exact r.ne_zero_of_inside (by omega) hlt (hget 2)
    rcases Nat.lt_or_ge (i + 1) r.head.length with hlt | hge''
    · exact r.ne_zero_of_inside (by omega) hlt (hget 1)
    have hentries : r.bytes.drop (i + 1) = r.entryBytes := by
      have hlast : i + 1 = r.head.length := by omega
      rw [bytes, hlast, List.drop_left]
    refine r.entryBytes_ne (k := UInt8.ofNat k) hkey ?_
    rw [← hentries, ← List.drop_drop, hdrop]
    rfl

end OciRequest

/-! ### The keys -/

section Keys

variable {s t raw : List UInt8} {key : List Char} {value : List UInt8}

/-- Where a key has been read, and how. -/
lemma of_ociAuthKey (h : ociAuthKey s = some (key, t)) :
    ∃ raw, s.drop 5 = raw ++ t ∧ raw.length = ofLeBytes (s.take 4) ∧
      key = trimZeros (utf8Lossy raw) := by
  unfold ociAuthKey at h
  dsimp only at h
  split_ifs at h with hkey
  rw [Option.some.injEq, Prod.mk.injEq] at h
  obtain ⟨rfl, rfl⟩ := h
  refine ⟨(s.drop 5).take (ofLeBytes (s.take 4)), ?_, ?_, rfl⟩
  · rw [← List.drop_drop, List.take_append_drop]
  · refine List.length_take_of_le ?_
    rw [List.length_drop]
    omega

/-- Where a value has been read. -/
lemma of_ociAuthValue (h : ociAuthValue s = some (value, t)) :
    ∃ len behind, s = len ++ behind ∧ len.length = 4 ∧ ofLeBytes len = value.length := by
  unfold ociAuthValue at h
  dsimp only at h
  split_ifs at h with hshort hzero hlong
  · rw [Option.some.injEq, Prod.mk.injEq] at h
    obtain ⟨rfl, rfl⟩ := h
    exact ⟨_, _, (List.take_append_drop 4 s).symm, List.length_take_of_le (by omega), hzero⟩
  · rw [Option.some.injEq, Prod.mk.injEq] at h
    obtain ⟨rfl, rfl⟩ := h
    refine ⟨_, _, (List.take_append_drop 4 s).symm, List.length_take_of_le (by omega), ?_⟩
    rw [List.length_drop] at hlong
    rw [List.length_take_of_le]
    rw [List.length_drop, List.length_drop]
    omega

/-- **A key is read behind its length** if it has from 1 to 64 bytes. -/
lemma ociAuthKey_append (hlt : raw.length < 2 ^ 32) :
    ociAuthKey (u32Le (UInt32.ofNat raw.length) ++ UInt8.ofNat raw.length :: (raw ++ t)) =
      if 1 ≤ raw.length ∧ raw.length ≤ 64 then some (trimZeros (utf8Lossy raw), t) else none := by
  have hlen := length_u32Le (UInt32.ofNat raw.length)
  have hword : (UInt32.ofNat raw.length).toNat = raw.length := UInt32.toNat_ofNat_of_lt' hlt
  have htake : (u32Le (UInt32.ofNat raw.length) ++ UInt8.ofNat raw.length :: (raw ++ t)).take 4 =
      u32Le (UInt32.ofNat raw.length) := List.take_left' hlen
  have hget : (u32Le (UInt32.ofNat raw.length) ++ UInt8.ofNat raw.length :: (raw ++ t))[4]? =
      some (UInt8.ofNat raw.length) := by
    rw [List.getElem?_append_right hlen.le, hlen]
    rfl
  have hdrop : ∀ k, (u32Le (UInt32.ofNat raw.length) ++
      UInt8.ofNat raw.length :: (raw ++ t)).drop (5 + k) = (raw ++ t).drop k := by
    intro k
    have hfive : 5 + k = 4 + (k + 1) := by omega
    rw [hfive, ← List.drop_drop, List.drop_left' hlen, List.drop_succ_cons]
  have hcount : (u32Le (UInt32.ofNat raw.length) ++
      UInt8.ofNat raw.length :: (raw ++ t)).length = 5 + raw.length + t.length := by
    rw [List.length_append, List.length_cons, List.length_append, hlen]
    omega
  unfold ociAuthKey
  dsimp only
  rw [htake, ofLeBytes_u32Le, hword, hget, hcount, hdrop raw.length]
  have hraw := hdrop 0
  rw [Nat.add_zero, List.drop_zero] at hraw
  rw [hraw, List.take_left, List.drop_left]
  by_cases hfits : 1 ≤ raw.length ∧ raw.length ≤ 64
  · have hbyte := (toNat_keyLength hfits.2).1
    rw [if_pos hfits, if_neg]
    rw [Option.map_some, hbyte]
    simp only [ne_eq, not_true_eq_false, or_false]
    omega
  · rw [if_neg hfits, if_pos (by omega)]

/-- **A value is read behind its length**, and the flags behind it are passed. -/
lemma ociAuthValue_append (hlt : value.length < 2 ^ 32) (flags : UInt32) :
    ociAuthValue (u32Le (UInt32.ofNat value.length) ++
      ((if value = [] then [] else UInt8.ofNat value.length :: value) ++ (u32Le flags ++ t))) =
      some (value, t) := by
  have hlen := length_u32Le (UInt32.ofNat value.length)
  have hword : (UInt32.ofNat value.length).toNat = value.length := UInt32.toNat_ofNat_of_lt' hlt
  have hflags : (u32Le flags ++ t).drop 4 = t := List.drop_left' (length_u32Le flags)
  unfold ociAuthValue
  dsimp only
  rw [if_neg (by rw [List.length_append, hlen]; omega), List.take_left' hlen, List.drop_left' hlen,
    ofLeBytes_u32Le, hword]
  by_cases hnil : value = []
  · rw [hnil, if_pos rfl, if_pos List.length_nil, List.nil_append, hflags]
  · have hpos : value.length ≠ 0 := fun h => hnil (List.eq_nil_of_length_eq_zero h)
    rw [if_neg hnil, if_neg hpos, List.cons_append, if_neg (by simp; omega), List.drop_one,
      List.tail_cons, List.take_left, Nat.add_comm 1, List.drop_succ_cons, List.drop_left, hflags]

end Keys

/-- **An entry is read**, and those behind it, if its key has from 1 to 64 bytes. -/
lemma ociAuthPairs_entry (fuel : ℕ) (e : OciEntry) (rest : List UInt8) :
    ociAuthPairs (fuel + 1) (e.bytes ++ rest) =
      if 1 ≤ (utf8Encode e.key).length ∧ (utf8Encode e.key).length ≤ 64 then
        (trimZeros e.key, e.value) :: ociAuthPairs fuel rest
      else [] := by
  have hsplit : e.bytes ++ rest = u32Le (UInt32.ofNat (utf8Encode e.key).length) ++
      UInt8.ofNat (utf8Encode e.key).length :: (utf8Encode e.key ++
        (u32Le (UInt32.ofNat e.value.length) ++
          ((if e.value = [] then [] else UInt8.ofNat e.value.length :: e.value) ++
            (u32Le e.flags ++ rest)))) := by
    simp only [OciEntry.bytes, List.append_assoc, List.cons_append]
  rw [hsplit, ociAuthPairs, ociAuthKey_append e.key_lt, utf8Lossy_encode]
  by_cases hfits : 1 ≤ (utf8Encode e.key).length ∧ (utf8Encode e.key).length ≤ 64
  · rw [if_pos hfits, if_pos hfits]
    dsimp only
    rw [ociAuthValue_append e.value_lt]
  · rw [if_neg hfits, if_neg hfits]

lemma trimZeros_eq_self_iff (key : List Char) :
    trimZeros key = key ↔ key.getLast? ≠ some '\x00' := by
  rw [trimZeros, List.rdropWhile_eq_self_iff]
  rcases List.eq_nil_or_concat key with rfl | ⟨init, c, rfl⟩
  · exact iff_of_true (fun h => absurd rfl h) nofun
  · rw [List.concat_eq_append, List.getLast?_concat]
    simp

/-- **All entries are read if and only if each key is readable.** -/
theorem ociAuthPairs_entries_iff {fuel : ℕ} {entries : List OciEntry}
    (hfuel : entries.length ≤ fuel) :
    ociAuthPairs fuel (entries.flatMap OciEntry.bytes) = entries.map OciEntry.parsed ↔
      ∀ e ∈ entries, e.Readable := by
  induction entries generalizing fuel with
  | nil =>
    refine iff_of_true ?_ nofun
    cases fuel <;> rfl
  | cons e entries ih =>
    obtain ⟨fuel, rfl⟩ := Nat.exists_eq_add_of_le' (Nat.one_le_of_lt hfuel)
    rw [List.flatMap_cons, ociAuthPairs_entry, List.map_cons, List.forall_mem_cons,
      OciEntry.Readable]
    split_ifs with hfits
    · rw [List.cons.injEq, OciEntry.parsed, Prod.mk.injEq, trimZeros_eq_self_iff,
        ih (Nat.le_of_succ_le_succ hfuel), and_iff_left rfl, and_iff_right hfits]
    · exact iff_of_false nofun fun h => hfits h.1.1

/-- A key is what is left of it, and zeros. -/
lemma exists_zeros (key : List Char) : ∃ n, key = trimZeros key ++ List.replicate n '\x00' := by
  induction key using List.reverseRecOn with
  | nil => exact ⟨0, rfl⟩
  | append_singleton key c ih =>
    by_cases hc : c = '\x00'
    · obtain ⟨n, hn⟩ := ih
      refine ⟨n + 1, ?_⟩
      rw [trimZeros, List.rdropWhile_concat_pos _ _ _ (by rw [hc]; rfl), ← trimZeros,
        List.replicate_succ', ← List.append_assoc, ← hn, hc]
    · refine ⟨0, ?_⟩
      rw [trimZeros, List.rdropWhile_concat_neg _ _ _ (by simpa using hc), List.replicate_zero,
        List.append_nil]

/-- A zero is one byte. -/
lemma utf8Encode_zeros (n : ℕ) : utf8Encode (List.replicate n '\x00') = List.replicate n 0 := by
  induction n with
  | zero => rfl
  | succ n ih =>
    rw [List.replicate_succ, List.replicate_succ, utf8Encode_cons, ih,
      utf8EncodeChar_ascii (by decide)]
    rfl

/-! ### The first key -/

/-- **When an entry is taken for the first key.** -/
lemma isKeyStart_entry_iff (e : OciEntry) (rest : List UInt8) :
    isKeyStart (e.bytes ++ rest) = true ↔
      (4 ≤ (utf8Encode e.key).length ∧ (utf8Encode e.key).length ≤ 64) ∧
        looksKey (utf8Encode e.key ++ u32Le (UInt32.ofNat e.value.length)) = true := by
  have hsplit : e.bytes ++ rest = u32Le (UInt32.ofNat (utf8Encode e.key).length) ++
      UInt8.ofNat (utf8Encode e.key).length :: ((utf8Encode e.key ++
        u32Le (UInt32.ofNat e.value.length)) ++
          ((if e.value = [] then [] else UInt8.ofNat e.value.length :: e.value) ++
            (u32Le e.flags ++ rest))) := by
    simp only [OciEntry.bytes, List.append_assoc, List.cons_append]
  rw [hsplit, isKeyStart_iff]
  constructor
  · rintro ⟨k, t, h, hlow, hhigh, hkey⟩
    obtain ⟨hlen, hrest⟩ := List.append_inj h (by rw [length_u32Le, length_u32Le])
    obtain ⟨-, rfl⟩ := List.cons.inj hrest
    have hvalue := congrArg ofLeBytes hlen
    have hword : (UInt32.ofNat (utf8Encode e.key).length).toNat = (utf8Encode e.key).length :=
      UInt32.toNat_ofNat_of_lt' e.key_lt
    rw [ofLeBytes_u32Le, ofLeBytes_u32Le, hword, (toNat_keyLength hhigh).2] at hvalue
    rw [hvalue]
    refine ⟨⟨hlow, hhigh⟩, looksKey_of_append ?_ hkey⟩
    rw [List.length_append, length_u32Le, hvalue]
    omega
  · rintro ⟨⟨hlow, hhigh⟩, hkey⟩
    exact ⟨_, _, rfl, hlow, hhigh, looksKey_append hkey _⟩

namespace OciRequest

variable (r : OciRequest)

/-- The first key is where it is found. -/
lemma keyStart_eq_some_iff {payload : List UInt8} {i : ℕ} :
    keyStart payload = some i ↔ isKeyStart (payload.drop i) = true ∧ i < payload.length - 9 ∧
      ∀ j < i, isKeyStart (payload.drop j) = false := by
  simp only [keyStart, List.find?_range_eq_some, List.mem_range, Bool.not_eq_true', Nat.sub_sub]

lemma drop_head : r.bytes.drop r.head.length = r.entryBytes := by
  rw [bytes, List.drop_left]

/-- The entries start with a key if and only if the first one is taken for one. -/
lemma isKeyStart_entryBytes_iff : isKeyStart r.entryBytes = true ↔
    ∃ e entries, r.entries = e :: entries ∧
      (4 ≤ (utf8Encode e.key).length ∧ (utf8Encode e.key).length ≤ 64) ∧
        looksKey (utf8Encode e.key ++ u32Le (UInt32.ofNat e.value.length)) = true := by
  rw [entryBytes]
  cases r.entries with
  | nil => exact iff_of_false (by decide) (by rintro ⟨e, entries, h, -⟩; cases h)
  | cons e entries =>
    rw [List.flatMap_cons, isKeyStart_entry_iff]
    constructor
    · exact fun h => ⟨e, entries, rfl, h⟩
    · rintro ⟨e', entries', h, hkey⟩
      obtain ⟨rfl, -⟩ := List.cons.inj h
      exact hkey

/-- A name that is taken for a key stands behind its length, which is written twice. -/
lemma drop_of_nameIsKey {i : ℕ} (hi : i + 4 = r.preamble.length) (h : r.NameIsKey) :
    r.bytes.drop i = u32Le (UInt32.ofNat (utf8Encode r.name).length) ++
      UInt8.ofNat (utf8Encode r.name).length :: (utf8Encode r.name ++ r.entryBytes) := by
  obtain ⟨-, -, before, hpreamble⟩ := h
  have hlen : before.length = i := by
    have hcount := congrArg List.length hpreamble
    rw [List.length_append, length_u32Le] at hcount
    omega
  rw [bytes_eq, ← hpreamble, List.append_assoc, ← hlen, List.drop_left, length_utf8Encode_name]

/-! ### What is parsed back -/

/-- There are not more entries than bytes. -/
lemma length_entries_le : r.entries.length ≤ r.bytes.length := by
  have hle : ∀ entries : List OciEntry,
      entries.length ≤ (entries.flatMap OciEntry.bytes).length := by
    intro entries
    induction entries with
    | nil => exact Nat.le_refl _
    | cons e entries ih =>
      rw [List.flatMap_cons, List.length_append, List.length_cons, OciEntry.bytes,
        List.length_append, length_u32Le]
      omega
  have h := hle r.entries
  rw [← entryBytes] at h
  rw [bytes, List.length_append]
  omega

/-- All entries are read where they are if and only if each key is readable. -/
lemma ociAuthPairs_entryBytes_iff : ociAuthPairs r.bytes.length r.entryBytes =
    r.entries.map OciEntry.parsed ↔ ∀ e ∈ r.entries, e.Readable :=
  ociAuthPairs_entries_iff r.length_entries_le

/-- A request that is readable is parsed back. -/
lemma parsed_of_readable (h : r.Readable) : r.Parsed := by
  obtain ⟨⟨hshort, hblank⟩, hname, ⟨e, he, hfour, hkey⟩, hentries⟩ := h
  have hfirst : isKeyStart r.entryBytes = true := by
    rw [isKeyStart_entryBytes_iff]
    cases hlist : r.entries with
    | nil =>
      rw [hlist] at he
      cases he
    | cons e' entries =>
      rw [hlist] at he
      obtain rfl := Option.some.inj he
      have hreadable := hentries e' (by rw [hlist]; exact List.mem_cons_self)
      exact ⟨e', entries, rfl, ⟨hfour, hreadable.1.2⟩, hkey⟩
  have hlong : 9 < r.entryBytes.length := by
    obtain ⟨e', entries, hlist, -, -⟩ := r.isKeyStart_entryBytes_iff.1 hfirst
    rw [hlist] at he
    obtain rfl := Option.some.inj he
    rw [entryBytes, hlist, List.flatMap_cons, OciEntry.bytes]
    simp only [List.length_append, List.length_cons, length_u32Le]
    omega
  have hstart : keyStart r.bytes = some r.head.length := by
    refine keyStart_eq_some_iff.2 ⟨by rw [drop_head, hfirst], ?_, fun j hj => ?_⟩
    · rw [bytes, List.length_append]
      omega
    · rw [← Bool.not_eq_true]
      exact fun hearly => hname (r.early hj hshort hearly).2
  have hhead : r.bytes.take r.head.length = r.head := by rw [bytes, List.take_left]
  rw [Parsed, parseOciAuth, hstart]
  dsimp only
  rw [hhead, drop_head, r.ociUsername_head hshort hblank,
    r.ociAuthPairs_entryBytes_iff.2 hentries]

/-- The first key that is read is where the keys have been found. -/
lemma of_head_ociAuthPairs {fuel : ℕ} {s : List UInt8} {e : OciEntry}
    {pairs : List (List Char × List UInt8)}
    (h : ociAuthPairs fuel s = (e.key, e.value) :: pairs) :
    ∃ raw behind, s.drop 5 = raw ++ (u32Le (UInt32.ofNat e.value.length) ++ behind) ∧
      raw.length = ofLeBytes (s.take 4) ∧ e.key = trimZeros (utf8Lossy raw) := by
  cases fuel with
  | zero => cases h
  | succ fuel =>
    rw [ociAuthPairs] at h
    cases hkey : ociAuthKey s with
    | none =>
      rw [hkey] at h
      cases h
    | some found =>
      obtain ⟨key, t⟩ := found
      rw [hkey] at h
      dsimp only at h
      cases hvalue : ociAuthValue t with
      | none =>
        rw [hvalue] at h
        cases h
      | some found =>
        obtain ⟨value, u⟩ := found
        rw [hvalue] at h
        obtain ⟨hpair, -⟩ := List.cons.inj h
        obtain ⟨rfl, rfl⟩ := Prod.mk.inj hpair
        obtain ⟨raw, hdrop, hlen, hraw⟩ := of_ociAuthKey hkey
        obtain ⟨len, behind, hsplit, hfour, hcount⟩ := of_ociAuthValue hvalue
        rw [hsplit, eq_u32Le hfour hcount e.value_lt] at hdrop
        exact ⟨raw, behind, hdrop, hlen, hraw⟩

/-- The name is not found in front of its place. -/
lemma not_parsed_of_nameIsKey {i fuel : ℕ} (hi : i + 4 = r.preamble.length) (h : r.NameIsKey)
    (hshort : r.name.length ≤ 30) (hname : utf8Encode r.name <:+ r.bytes.take i)
    (hpairs : ociAuthPairs fuel (r.bytes.drop i) = r.entries.map OciEntry.parsed) : False := by
  have hlength := r.length_utf8Encode_name
  -- what looks like a key is the name alone
  have hkey : looksKey (utf8Encode r.name) = true := by
    have hlooks := h.1
    rw [entryBytes] at hlooks
    cases hlist : r.entries with
    | nil =>
      rw [hlist, List.flatMap_nil, List.append_nil] at hlooks
      exact hlooks
    | cons e entries =>
      rw [hlist, List.map_cons] at hpairs
      obtain ⟨raw, behind, hdrop, hlen, hraw⟩ := of_head_ociAuthPairs hpairs
      have hword : (UInt32.ofNat (utf8Encode r.name).length).toNat = (utf8Encode r.name).length :=
        UInt32.toNat_ofNat_of_lt' (Nat.lt_of_le_of_lt (hlength ▸ hshort) (by decide))
      rw [r.drop_of_nameIsKey hi h, List.take_left' (length_u32Le _), ofLeBytes_u32Le,
        hword] at hlen
      rw [r.drop_of_nameIsKey hi h, drop_succ_append (length_u32Le _)] at hdrop
      -- so the first key has the text of the name, and its length is no letter
      obtain ⟨hsame, -⟩ := List.append_inj hdrop hlen.symm
      rw [← hsame, utf8Lossy_encode] at hraw
      have hless : (utf8Encode e.key).length ≤ 30 := by
        obtain ⟨n, hn⟩ := exists_zeros r.name
        have hcount := congrArg (fun s => (utf8Encode s).length) hn
        rw [utf8Encode_append, List.length_append, ← hraw, hlength] at hcount
        omega
      have hbyte := (toNat_keyLength (hless.trans (by decide))).1
      rw [hlist, List.flatMap_cons, OciEntry.bytes,
        u32Le_byte (Nat.lt_of_le_of_lt hless (by decide))] at hlooks
      exact looksKey_of_append_cons (by omega) hlooks
  obtain ⟨before, hbefore⟩ := hname
  have htake : r.bytes.take i = r.preamble.take i := by
    rw [bytes_eq, List.take_append_of_le_length (by omega)]
  have hpreamble : r.preamble.drop before.length =
      utf8Encode r.name ++ r.preamble.drop i := by
    have hsplit : r.preamble = before ++ (utf8Encode r.name ++ r.preamble.drop i) := by
      rw [← List.append_assoc, hbefore, htake, List.take_append_drop]
    conv_lhs => rw [hsplit]
    rw [List.drop_left]
  have hinside := r.preamble_no_key before.length
  rw [hpreamble, looksKey_append hkey] at hinside
  cases hinside

/-- The first key is not found behind its place. -/
lemma isKeyStart_entryBytes_of_found {i fuel : ℕ} {e : OciEntry} {entries : List OciEntry}
    (hlist : r.entries = e :: entries) (hstart : isKeyStart (r.bytes.drop i) = true)
    (hpairs : ociAuthPairs fuel (r.bytes.drop i) = r.entries.map OciEntry.parsed) :
    isKeyStart r.entryBytes = true := by
  obtain ⟨k, t, hdrop, hlow, hhigh, hkey⟩ := (isKeyStart_iff _).1 hstart
  have hword := (toNat_keyLength hhigh).2
  rw [hlist, List.map_cons] at hpairs
  obtain ⟨raw, behind, ht, hlen, hraw⟩ := of_head_ociAuthPairs hpairs
  rw [hdrop, List.take_left' (length_u32Le _), ofLeBytes_u32Le, hword] at hlen
  rw [hdrop, drop_succ_append (length_u32Le _)] at ht
  rw [ht] at hkey
  -- without a replacement the key has the bytes that have been read, but for zeros
  obtain ⟨n, hn⟩ := exists_zeros (utf8Lossy raw)
  rw [← hraw] at hn
  have hback : utf8Encode (utf8Lossy raw) = raw := by
    refine utf8Encode_utf8Lossy ?_
    rw [hn, List.mem_append, not_or]
    refine ⟨r.key_text e (by rw [hlist]; rfl), fun hmem => ?_⟩
    exact absurd (List.eq_of_mem_replicate hmem) (by decide)
  rw [hn, utf8Encode_append, utf8Encode_zeros] at hback
  have hcount := congrArg List.length hback
  rw [List.length_append, List.length_replicate] at hcount
  have hfound : 4 ≤ (utf8Encode e.key).length ∧
      looksKey (utf8Encode e.key ++ u32Le (UInt32.ofNat e.value.length)) = true := by
    cases n with
    | zero =>
      rw [List.replicate_zero, List.append_nil] at hback
      rw [← hback, ← List.append_assoc] at hkey
      refine ⟨by omega, looksKey_of_append ?_ hkey⟩
      rw [List.length_append, length_u32Le]
      omega
    | succ n =>
      rw [← hback, List.replicate_succ, List.append_assoc, List.cons_append] at hkey
      have hlooks := looksKey_of_append_cons (by decide) hkey
      exact ⟨four_le_of_looksKey hlooks, looksKey_append hlooks _⟩
  rw [isKeyStart_entryBytes_iff]
  exact ⟨e, entries, hlist, ⟨hfound.1, by omega⟩, hfound.2⟩

/-- **A request is parsed back if and only if** its name and its keys are readable. -/
theorem parsed_iff (r : OciRequest) : r.Parsed ↔ r.Readable := by
  refine ⟨fun h => ?_, r.parsed_of_readable⟩
  rw [Parsed, parseOciAuth] at h
  cases hfound : keyStart r.bytes with
  | none =>
    rw [hfound] at h
    cases h
  | some i =>
    rw [hfound] at h
    obtain ⟨hname, hpairs⟩ := Prod.mk.inj h
    obtain ⟨hsuffix, hcount, hgraphic⟩ := of_ociUsername hname
    rw [length_utf8Encode_name] at hcount
    obtain ⟨hstart, hlt, hfirst⟩ := keyStart_eq_some_iff.1 hfound
    have hblank : ' ' ∉ r.name := by
      intro hmem
      have hbyte : (UInt8.ofNat ' '.toNat) ∈ utf8Encode r.name := by
        rw [ThinRequest.utf8Encode_printable r.name_printable]
        exact List.mem_map_of_mem hmem
      exact absurd (hgraphic _ hbyte) (by decide)
    have hplace : i = r.head.length ∧ isKeyStart r.entryBytes = true := by
      rcases Nat.lt_trichotomy i r.head.length with hbefore | hat | hbehind
      · obtain ⟨hi, hkey⟩ := r.early hbefore hcount hstart
        exact (r.not_parsed_of_nameIsKey hi hkey hcount hsuffix hpairs).elim
      · rw [hat, drop_head] at hstart
        exact ⟨hat, hstart⟩
      · exfalso
        cases hlist : r.entries with
        | nil =>
          rw [bytes, entryBytes, hlist, List.flatMap_nil, List.append_nil] at hlt
          omega
        | cons e entries =>
          have hkey := r.isKeyStart_entryBytes_of_found hlist hstart hpairs
          have hnot := hfirst _ hbehind
          rw [drop_head, hkey] at hnot
          cases hnot
    obtain ⟨rfl, hkey⟩ := hplace
    rw [drop_head, ociAuthPairs_entryBytes_iff] at hpairs
    refine ⟨⟨hcount, hblank⟩, ?_, ?_, hpairs⟩
    · intro hnameKey
      have hsmall := hnameKey.2.1
      obtain ⟨before, hpreamble⟩ := hnameKey.2.2
      have hlen := congrArg List.length hpreamble
      rw [List.length_append, length_u32Le] at hlen
      have hhead := r.length_head
      have hnot := hfirst before.length (by omega)
      rw [r.drop_of_nameIsKey hlen hnameKey, length_utf8Encode_name] at hnot
      rw [(isKeyStart_iff _).2 ⟨_, _, rfl, hsmall, by omega, hnameKey.1⟩] at hnot
      cases hnot
    · obtain ⟨e, entries, hlist, ⟨hfour, -⟩, hlooks⟩ := r.isKeyStart_entryBytes_iff.1 hkey
      exact ⟨e, by rw [hlist]; rfl, hfour, hlooks⟩

end OciRequest

/-! ### Both kinds of clients -/

/-- **Which login requests are parsed back**, of thin clients and of OCI clients. -/
theorem auth_iff (t : ThinRequest) (o : OciRequest) :
    (t.Parsed ↔ t.NameFramed) ∧ (o.Parsed ↔ o.Readable) :=
  ⟨t.parsed_iff, o.parsed_iff⟩

/-- A request with a name of 32 letters behind its length, and one key. -/
def longName : ThinRequest where
  oneByteChunks := false
  flagsHigh := 0
  flagsLow := 0
  msgType := 3
  function := 0x76
  seq := 1
  token := false
  authMode := 1
  listPtr := 1
  outPtr := 1
  outCountPtr := 1
  name := List.replicate 32 'A'
  name_length := by decide
  name_printable := fun c hc => by rw [List.eq_of_mem_replicate hc]; decide
  prefixed := true
  pairs := [⟨"AUTH_TERMINAL".toList, .short [112, 116, 115] (by decide), 0, by decide⟩]
  pairs_lt := by decide

/-- It is not parsed back. -/
theorem longName_not_parsed : ¬ ((∀ t : ThinRequest, t.Parsed) ∧ ∀ o : OciRequest, o.Parsed) := by
  rintro ⟨hthin, -⟩
  have hframed := longName.parsed_iff.1 (hthin longName)
  rcases hframed rfl with hshort | ⟨hpairs, -⟩
  · exact absurd hshort (by decide)
  · cases hpairs

end DbSaci.Wire
