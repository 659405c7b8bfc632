import DbSaci.Library.Utf8
import DbSaci.Wire.ClrValues

set_option relaxedAutoImplicit false
set_option autoImplicit false

/-!
# Login requests of thin clients

A login request has a name and some keys with their values. One kind of client writes the length of
the name in front of it once more, the other does not, and the server tells them apart by the first
byte. Values are short or come in chunks, whose lengths are written in one byte or as numbers.

## Main definitions

* `parseAuthRequest` — the parser.
* `Clr` — a value as it is written.
* `ThinRequest` — what a client sends.

## Main results

* `ThinRequest.parsed_iff` — which requests are parsed back.
-/

namespace DbSaci.Wire

open Fallible (ret fail)

/-! ### Values -/

/-- The chunks of a long value, up to an empty one, at most so many, where the length of each is
read by the given reader. -/
def chunksBy (readLen : Read ℕ) : ℕ → Read (List UInt8)
  | 0 => fail (.bufferUnderflow 1 0)
  | fuel + 1 => do
    let n ← readLen
    if n = 0 then ret []
    else do
      let chunk ← readBytesVec n
      let chunks ← chunksBy readLen fuel
      ret (chunk ++ chunks)

/-- A length of one byte. -/
def readByteLength : Read ℕ := do
  let b ← readU8
  ret b.toNat

/-- `read_bytes_with_length_1b_chunks`. -/
def readBytesWithLength1bChunks : Read (Option (List UInt8)) := do
  let len ← readU8
  if len = 255 then ret none
  else if len = 254 then do
    let value ← fun s => chunksBy readByteLength (s.length + 1) s
    ret (some value)
  else do
    let n ← if len = 253 then readU8 else ret len
    let value ← readBytesVec n.toNat
    ret (some value)

/-- `read_string_with_length`. The text of the error is the library's. -/
def readStringWithLength : Read (Option (List Char)) := do
  let bytes ← readBytesWithLength
  match bytes with
  | none => ret none
  | some bytes =>
    match utf8Decode bytes with
    | some s => ret (some s)
    | none => fail (.dataConversion "invalid utf-8 sequence")

/-! ### The parser -/

/-- The first of the bytes that remain. -/
def peek : Read (Option UInt8) := fun s => (.ok s.head?, s)

/-- The name: a first byte below a blank is taken for its length. -/
def readUsername (userLen : ℕ) : Read (List Char) := do
  let first ← peek
  if first.any (fun b => b != 0 && b < 0x20) = true then do
    let bytes ← readBytesWithLength
    ret ((bytes.map utf8Lossy).getD [])
  else if 0 < userLen then do
    let bytes ← readBytesVec userLen
    ret (utf8Lossy bytes)
  else ret []

/-- `read_val`. -/
def readVal (oneByteChunks : Bool) : Read (Option (List UInt8)) :=
  if oneByteChunks then readBytesWithLength1bChunks else readBytesWithLength

/-- A value of the given length: an empty one has no bytes. -/
def readValue (oneByteChunks : Bool) (valLen : ℕ) : Read (List UInt8) :=
  if 0 < valLen then do
    let value ← readVal oneByteChunks
    ret (value.getD [])
  else ret []

/-- A key with its value. -/
def readAuthPair (oneByteChunks : Bool) : Read (List Char × List UInt8) := do
  let _ ← readUb4
  let key ← readStringWithLength
  let valLen ← readUb4
  let value ← readValue oneByteChunks valLen
  let _ ← readUb4
  ret (key.getD [], value)

/-- So many keys with their values. -/
def readAuthPairs (oneByteChunks : Bool) : ℕ → Read (List (List Char × List UInt8))
  | 0 => ret []
  | n + 1 => do
    let pair ← readAuthPair oneByteChunks
    let pairs ← readAuthPairs oneByteChunks n
    ret (pair :: pairs)

/-- The empty token that some clients send. -/
def skipToken : Read Unit := do
  let first ← peek
  if first = some 0 then skip 1 else ret ()

/-- `parse_auth_request`. -/
def parseAuthRequest (oneByteChunks : Bool) :
    Read (List Char × List (List Char × List UInt8)) := do
  let _flags ← readU16Be
  let _msgType ← readU8
  let _function ← readU8
  let _seq ← readU8
  skipToken
  let _userPtr ← readU8
  let userLen ← readUb4
  let _authMode ← readUb4
  let _listPtr ← readU8
  let pairCount ← readUb4
  let _outPtr ← readU8
  let _outCountPtr ← readU8
  let username ← readUsername userLen
  let pairs ← readAuthPairs oneByteChunks pairCount
  ret (username, pairs)

/-! ### What a client sends -/

/-- How a client writes the length of a chunk. -/
def writeChunkLength (oneByteChunks : Bool) (n : ℕ) : List UInt8 :=
  if oneByteChunks then [UInt8.ofNat n] else writeUb4 (UInt32.ofNat n)

/-- A value as it is written: short, or in chunks. -/
inductive Clr (oneByteChunks : Bool)
  | short (value : List UInt8) (fits : value.length ≤ maxShortLength)
  | long (chunks : List (List UInt8))
      (fits : ∀ chunk ∈ chunks, chunk ≠ [] ∧ chunk.length < if oneByteChunks then 2 ^ 8 else 2 ^ 32)

namespace Clr

variable {oneByteChunks : Bool}

/-- The value itself. -/
def value : Clr oneByteChunks → List UInt8
  | short value _ => value
  | long chunks _ => chunks.flatten

/-- How it is written. -/
def bytes : Clr oneByteChunks → List UInt8
  | short value _ => UInt8.ofNat value.length :: value
  | long chunks _ => 254 :: (chunks.flatMap (fun chunk =>
      writeChunkLength oneByteChunks chunk.length ++ chunk) ++ writeChunkLength oneByteChunks 0)

end Clr

/-- A key with its value, whose length fits into 32 bits. -/
structure AuthPair (oneByteChunks : Bool) where
  key : List Char
  value : Clr oneByteChunks
  flags : UInt32
  value_lt : value.value.length < 2 ^ 32

namespace AuthPair

variable {oneByteChunks : Bool} (pair : AuthPair oneByteChunks)

/-- How it is written. -/
def bytes : List UInt8 :=
  writeUb4 (UInt32.ofNat (utf8Encode pair.key).length) ++
    (writeBytesWithLength (some (utf8Encode pair.key)) ++
      (writeUb4 (UInt32.ofNat pair.value.value.length) ++
        ((if pair.value.value = [] then [] else pair.value.bytes) ++ writeUb4 pair.flags)))

/-- What is found of it. -/
def parsed : List Char × List UInt8 := (pair.key, pair.value.value)

end AuthPair

/-- The login request of a thin client. -/
structure ThinRequest where
  /-- The chunks of values have lengths of one byte. -/
  oneByteChunks : Bool
  flagsHigh : UInt8
  flagsLow : UInt8
  msgType : UInt8
  function : UInt8
  seq : UInt8
  /-- There is an empty token behind the sequence number. -/
  token : Bool
  authMode : UInt32
  listPtr : UInt8
  outPtr : UInt8
  outCountPtr : UInt8
  name : List Char
  name_length : 1 ≤ name.length ∧ name.length ≤ 128
  name_printable : ∀ c ∈ name, 0x20 ≤ c.toNat ∧ c.toNat < 0x7f
  /-- The length of the name stands in front of it once more. -/
  prefixed : Bool
  pairs : List (AuthPair oneByteChunks)
  pairs_lt : pairs.length < 2 ^ 32

namespace ThinRequest

variable (r : ThinRequest)

/-- The name as it is written. -/
def nameBytes : List UInt8 :=
  if r.prefixed then writeBytesWithLength (some (utf8Encode r.name)) else utf8Encode r.name

/-- The request as it is written. -/
def bytes : List UInt8 :=
  r.flagsHigh :: r.flagsLow :: r.msgType :: r.function :: r.seq ::
    ((if r.token then [0] else []) ++ (1 :: (writeUb4 (UInt32.ofNat (utf8Encode r.name).length) ++
      (writeUb4 r.authMode ++ (r.listPtr :: (writeUb4 (UInt32.ofNat r.pairs.length) ++
        (r.outPtr :: r.outCountPtr :: (r.nameBytes ++ r.pairs.flatMap AuthPair.bytes))))))))

/-- The request is parsed back. -/
def Parsed : Prop :=
  (parseAuthRequest r.oneByteChunks r.bytes).1 = .ok (r.name, r.pairs.map AuthPair.parsed)

/-- The first byte of the name is told apart from its length, or the difference does not matter. -/
def NameFramed : Prop :=
  r.prefixed = true → r.name.length < 32 ∨ r.pairs = [] ∧ ∀ c ∈ r.name, c.toNat = r.name.length

end ThinRequest

/-! ### Values are read back -/

lemma readChunks_eq_chunksBy (fuel : ℕ) : readChunks fuel = chunksBy readUb4 fuel := by
  induction fuel with
  | zero => rfl
  | succ fuel ih => rw [readChunks, chunksBy, ih]

lemma readChunkLength (oneByteChunks : Bool) {n : ℕ}
    (hn : n < if oneByteChunks then 2 ^ 8 else 2 ^ 32) (rest : List UInt8) :
    (if oneByteChunks then readByteLength else readUb4)
      (writeChunkLength oneByteChunks n ++ rest) = (.ok n, rest) := by
  cases oneByteChunks with
  | true =>
    have hbyte : (UInt8.ofNat n).toNat = n := UInt8.toNat_ofNat_of_lt' hn
    have hread := readU8_cons (UInt8.ofNat n) rest
    refine (Fallible.bind_of_ok hread).trans ?_
    rw [hbyte]
    rfl
  | false =>
    have hword : (UInt32.ofNat n).toNat = n := UInt32.toNat_ofNat_of_lt' hn
    have hread := readUb4_writeUb4 rest (UInt32.ofNat n)
    rwa [hword] at hread

/-- **Chunks are read back**, with any bytes behind them. -/
theorem chunksBy_write {oneByteChunks : Bool} {chunks : List (List UInt8)}
    (fits : ∀ chunk ∈ chunks,
      chunk ≠ [] ∧ chunk.length < if oneByteChunks then 2 ^ 8 else 2 ^ 32)
    {fuel : ℕ} (hfuel : chunks.length < fuel) (rest : List UInt8) :
    chunksBy (if oneByteChunks then readByteLength else readUb4) fuel
      (chunks.flatMap (fun chunk => writeChunkLength oneByteChunks chunk.length ++ chunk) ++
        (writeChunkLength oneByteChunks 0 ++ rest)) = (.ok chunks.flatten, rest) := by
  induction chunks generalizing fuel with
  | nil =>
    obtain ⟨fuel, rfl⟩ := Nat.exists_eq_add_of_le' (Nat.one_le_of_lt hfuel)
    have hzero : 0 < if oneByteChunks then 2 ^ 8 else 2 ^ 32 := by
      cases oneByteChunks <;> decide
    rw [List.flatMap_nil, List.nil_append, chunksBy,
      Fallible.bind_of_ok (readChunkLength oneByteChunks hzero rest)]
    rfl
  | cons chunk chunks ih =>
    obtain ⟨fuel, rfl⟩ := Nat.exists_eq_add_of_le' (Nat.one_le_of_lt hfuel)
    obtain ⟨⟨hne, hlt⟩, hchunks⟩ := List.forall_mem_cons.1 fits
    have hpos : chunk.length ≠ 0 := fun h => hne (List.eq_nil_of_length_eq_zero h)
    rw [List.flatMap_cons, List.append_assoc, List.append_assoc, chunksBy,
      Fallible.bind_of_ok (readChunkLength oneByteChunks hlt _), if_neg hpos,
      Fallible.bind_of_ok (readBytesVec_append chunk _),
      Fallible.bind_of_ok (ih hchunks (Nat.lt_of_succ_lt_succ hfuel))]
    rfl

/-- There are not more chunks than bytes. -/
lemma length_chunks_le (oneByteChunks : Bool) (chunks : List (List UInt8))
    (hne : ∀ chunk ∈ chunks, chunk ≠ []) :
    chunks.length ≤
      (chunks.flatMap
        (fun chunk => writeChunkLength oneByteChunks chunk.length ++ chunk)).length := by
  induction chunks with
  | nil => exact Nat.le_refl _
  | cons chunk chunks ih =>
    obtain ⟨hchunk, hchunks⟩ := List.forall_mem_cons.1 hne
    have hle := ih hchunks
    have hpos := List.length_pos_iff.2 hchunk
    rw [List.flatMap_cons, List.length_append, List.length_append, List.length_cons]
    omega

/-- **A value is read back**, short or long. -/
theorem readVal_bytes {oneByteChunks : Bool} (v : Clr oneByteChunks) (rest : List UInt8) :
    readVal oneByteChunks (v.bytes ++ rest) = (.ok (some v.value), rest) := by
  cases v with
  | short value fits =>
    cases oneByteChunks with
    | true =>
      have hshort := readBytesWithLength_short (t := rest) fits
      have hlen : (UInt8.ofNat value.length).toNat = value.length :=
        UInt8.toNat_ofNat_of_lt' (Nat.lt_of_le_of_lt fits (by decide))
      have hne : UInt8.ofNat value.length ≠ 254 := by
        intro h
        have hmany : value.length = 254 := hlen.symm.trans (congrArg UInt8.toNat h)
        rw [maxShortLength] at fits
        omega
      -- only the chunks of long values are read in another way
      refine Eq.trans ?_ hshort
      change readBytesWithLength1bChunks _ = readBytesWithLength _
      rw [Clr.bytes, List.cons_append, readBytesWithLength1bChunks, readBytesWithLength,
        Fallible.bind_of_ok (readU8_cons _ _), Fallible.bind_of_ok (readU8_cons _ _), if_neg hne,
        if_neg hne]
    | false => exact readBytesWithLength_short fits
  | long chunks fits =>
    have hcount := length_chunks_le oneByteChunks chunks fun chunk h => (fits chunk h).1
    have hfuel : chunks.length < (chunks.flatMap (fun chunk =>
        writeChunkLength oneByteChunks chunk.length ++ chunk) ++
          (writeChunkLength oneByteChunks 0 ++ rest)).length + 1 := by
      rw [List.length_append]
      omega
    have hread := chunksBy_write fits hfuel rest
    cases oneByteChunks with
    | true =>
      rw [Clr.bytes, List.cons_append, List.append_assoc]
      refine (Fallible.bind_of_ok (readU8_cons _ _)).trans ?_
      exact Fallible.bind_of_ok hread
    | false =>
      rw [Clr.bytes, List.cons_append, List.append_assoc]
      refine (Fallible.bind_of_ok (readU8_cons _ _)).trans ?_
      refine Fallible.bind_of_ok ?_
      rw [readLong, readChunks_eq_chunksBy]
      exact hread

/-! ### Keys and their values are read back -/

lemma readStringWithLength_write (s : List Char) (rest : List UInt8) :
    readStringWithLength (writeBytesWithLength (some (utf8Encode s)) ++ rest) =
      (.ok (some s), rest) := by
  rw [readStringWithLength, Fallible.bind_of_ok (readBytesWithLength_write _ _)]
  dsimp only
  rw [utf8Decode_encode]
  rfl

/-- **A key is read back with its value.** -/
lemma readAuthPair_bytes {oneByteChunks : Bool} (pair : AuthPair oneByteChunks)
    (rest : List UInt8) :
    readAuthPair oneByteChunks (pair.bytes ++ rest) = (.ok pair.parsed, rest) := by
  have hlen : (UInt32.ofNat pair.value.value.length).toNat = pair.value.value.length :=
    UInt32.toNat_ofNat_of_lt' pair.value_lt
  have hvalue : readValue oneByteChunks pair.value.value.length
      ((if pair.value.value = [] then [] else pair.value.bytes) ++ (writeUb4 pair.flags ++ rest)) =
      (.ok pair.value.value, writeUb4 pair.flags ++ rest) := by
    by_cases hnil : pair.value.value = []
    · rw [readValue, if_pos hnil, if_neg (by rw [hnil]; exact Nat.lt_irrefl 0), hnil]
      rfl
    · rw [readValue, if_neg hnil, if_pos (List.length_pos_iff.2 hnil)]
      exact Fallible.bind_of_ok (readVal_bytes pair.value _)
  rw [AuthPair.bytes, List.append_assoc, List.append_assoc, List.append_assoc, List.append_assoc,
    readAuthPair, Fallible.bind_of_ok (readUb4_writeUb4 _ _),
    Fallible.bind_of_ok (readStringWithLength_write _ _),
    Fallible.bind_of_ok (readUb4_writeUb4 _ _), hlen, Fallible.bind_of_ok hvalue,
    Fallible.bind_of_ok (readUb4_writeUb4 _ _)]
  rfl

/-- **All keys are read back**, each with its value. -/
lemma readAuthPairs_bytes {oneByteChunks : Bool} (pairs : List (AuthPair oneByteChunks))
    (rest : List UInt8) :
    readAuthPairs oneByteChunks pairs.length (pairs.flatMap AuthPair.bytes ++ rest) =
      (.ok (pairs.map AuthPair.parsed), rest) := by
  induction pairs with
  | nil => rfl
  | cons pair pairs ih =>
    rw [List.flatMap_cons, List.append_assoc, List.length_cons, readAuthPairs,
      Fallible.bind_of_ok (readAuthPair_bytes pair _), Fallible.bind_of_ok ih]
    rfl

namespace ThinRequest

variable (r : ThinRequest)

/-! ### The name -/

/-- The name and the keys behind it. -/
def readBody (oneByteChunks : Bool) (userLen pairCount : ℕ) :
    Read (List Char × List (List Char × List UInt8)) := do
  let username ← readUsername userLen
  let pairs ← readAuthPairs oneByteChunks pairCount
  ret (username, pairs)

/-- A name of printable characters has as many bytes as characters. -/
lemma utf8Encode_printable {s : List Char} (h : ∀ c ∈ s, 0x20 ≤ c.toNat ∧ c.toNat < 0x7f) :
    utf8Encode s = s.map fun c => UInt8.ofNat c.toNat := by
  induction s with
  | nil => rfl
  | cons c s ih =>
    obtain ⟨hc, hs⟩ := List.forall_mem_cons.1 h
    rw [utf8Encode_cons, utf8EncodeChar_ascii (by omega), ih hs]
    rfl

lemma length_utf8Encode_name : (utf8Encode r.name).length = r.name.length := by
  rw [utf8Encode_printable r.name_printable, List.length_map]

lemma toNat_length : (UInt8.ofNat r.name.length).toNat = r.name.length :=
  UInt8.toNat_ofNat_of_lt' (Nat.lt_of_le_of_lt r.name_length.2 (by decide))

lemma toNat_char {c : Char} (hc : c ∈ r.name) : (UInt8.ofNat c.toNat).toNat = c.toNat :=
  UInt8.toNat_ofNat_of_lt' ((r.name_printable c hc).2.trans (by decide))

/-- The parser gets to the name. -/
lemma parseAuthRequest_bytes : parseAuthRequest r.oneByteChunks r.bytes =
    readBody r.oneByteChunks r.name.length r.pairs.length
      (r.nameBytes ++ r.pairs.flatMap AuthPair.bytes) := by
  have hname : (UInt32.ofNat (utf8Encode r.name).length).toNat = r.name.length := by
    rw [length_utf8Encode_name]
    exact UInt32.toNat_ofNat_of_lt' (Nat.lt_of_le_of_lt r.name_length.2 (by decide))
  have hpairs : (UInt32.ofNat r.pairs.length).toNat = r.pairs.length :=
    UInt32.toNat_ofNat_of_lt' r.pairs_lt
  have hflags : ∀ rest, readU16Be (r.flagsHigh :: r.flagsLow :: rest) =
      (.ok (ofBeBytes [r.flagsHigh, r.flagsLow]), rest) := fun rest =>
    Fallible.bind_of_ok (readBytesVec_append [r.flagsHigh, r.flagsLow] rest)
  have htoken : ∀ rest, skipToken ((if r.token then [0] else []) ++ (1 :: rest)) =
      (.ok (), 1 :: rest) := by
    intro rest
    cases r.token with
    | true => rfl
    | false => rfl
  rw [bytes, parseAuthRequest, Fallible.bind_of_ok (hflags _),
    Fallible.bind_of_ok (readU8_cons _ _), Fallible.bind_of_ok (readU8_cons _ _),
    Fallible.bind_of_ok (readU8_cons _ _), Fallible.bind_of_ok (htoken _),
    Fallible.bind_of_ok (readU8_cons _ _), Fallible.bind_of_ok (readUb4_writeUb4 _ _),
    Fallible.bind_of_ok (readUb4_writeUb4 _ _), Fallible.bind_of_ok (readU8_cons _ _),
    Fallible.bind_of_ok (readUb4_writeUb4 _ _), Fallible.bind_of_ok (readU8_cons _ _),
    Fallible.bind_of_ok (readU8_cons _ _), hname, hpairs]
  rfl

/-- A name of which no byte is taken for a length. -/
lemma readUsername_raw {b : UInt8} (hb : 0x20 ≤ b.toNat) (bytes rest : List UInt8) :
    readUsername (b :: bytes).length (b :: bytes ++ rest) =
      (.ok (utf8Lossy (b :: bytes)), rest) := by
  have hfirst : (some b).any (fun b => b != 0 && b < 0x20) = false := by
    have hlt : ¬ b < 0x20 := by
      rw [UInt8.lt_iff_toNat_lt]
      exact Nat.not_lt.2 hb
    rw [Option.any_some, decide_eq_false hlt, Bool.and_false]
  have hpeek : peek (b :: bytes ++ rest) = (.ok (some b), b :: bytes ++ rest) := rfl
  rw [readUsername, Fallible.bind_of_ok hpeek, hfirst, if_neg Bool.false_ne_true,
    if_pos (List.length_pos_iff.2 (List.cons_ne_nil b bytes))]
  exact Fallible.bind_of_ok (readBytesVec_append _ rest)

/-- A name behind a length below a blank. -/
lemma readUsername_prefixed (bytes : List UInt8) (hpos : 0 < bytes.length)
    (hlt : bytes.length < 0x20) (userLen : ℕ) (rest : List UInt8) :
    readUsername userLen (UInt8.ofNat bytes.length :: (bytes ++ rest)) =
      (.ok (utf8Lossy bytes), rest) := by
  have hlen : (UInt8.ofNat bytes.length).toNat = bytes.length :=
    UInt8.toNat_ofNat_of_lt' (hlt.trans (by decide))
  have hfirst : (some (UInt8.ofNat bytes.length)).any (fun b => b != 0 && b < 0x20) = true := by
    have hne : UInt8.ofNat bytes.length ≠ 0 := by
      intro h
      rw [h] at hlen
      exact hpos.ne hlen
    have hbelow : UInt8.ofNat bytes.length < 0x20 := by
      rw [UInt8.lt_iff_toNat_lt, hlen]
      exact hlt
    rw [Option.any_some, decide_eq_true hbelow, Bool.and_true, bne_iff_ne]
    exact hne
  have hpeek : peek (UInt8.ofNat bytes.length :: (bytes ++ rest)) =
      (.ok (some (UInt8.ofNat bytes.length)), UInt8.ofNat bytes.length :: (bytes ++ rest)) := rfl
  have hshort : bytes.length ≤ 252 := by omega
  rw [readUsername, Fallible.bind_of_ok hpeek, if_pos hfirst]
  exact Fallible.bind_of_ok (readBytesWithLength_short hshort)

/-- The name and the keys behind it are parsed if the name is. -/
lemma readBody_of_username {oneByteChunks : Bool} {userLen : ℕ} {name : List Char}
    {s : List UInt8} (pairs : List (AuthPair oneByteChunks))
    (h : readUsername userLen s = (.ok name, pairs.flatMap AuthPair.bytes)) :
    readBody oneByteChunks userLen pairs.length s =
      (.ok (name, pairs.map AuthPair.parsed), []) := by
  have hpairs := readAuthPairs_bytes pairs []
  rw [List.append_nil] at hpairs
  rw [readBody, Fallible.bind_of_ok h, Fallible.bind_of_ok hpairs]
  rfl

/-- The bytes of the name are those of printable characters. -/
lemma le_of_mem_utf8Encode_name {b : UInt8} (hb : b ∈ utf8Encode r.name) :
    0x20 ≤ b.toNat ∧ b.toNat < 0x7f := by
  rw [utf8Encode_printable r.name_printable, List.mem_map] at hb
  obtain ⟨c, hc, rfl⟩ := hb
  rw [r.toNat_char hc]
  exact r.name_printable c hc

lemma replacement_not_mem : '\uFFFD' ∉ r.name := by
  intro hmem
  exact absurd (r.name_printable _ hmem).2 (by decide)

/-- A list that starts and ends alike when an element is moved to its end is that element again and
again. -/
lemma eq_of_cons_eq_concat {x y : UInt8} {l : List UInt8} (h : x :: l = l ++ [y]) :
    ∀ z ∈ l ++ [y], z = x := by
  induction l generalizing x with
  | nil =>
    obtain ⟨rfl, -⟩ := List.cons.inj h
    exact fun z hz => List.mem_singleton.1 hz
  | cons a l ih =>
    obtain ⟨rfl, htail⟩ := List.cons.inj h
    rw [List.cons_append, List.forall_mem_cons]
    exact ⟨rfl, ih htail⟩

/-- The bytes of a long name move by one if its length stands in front of it. -/
lemma readUsername_long (h : 32 ≤ r.name.length) (rest : List UInt8) :
    ∃ init last, utf8Encode r.name = init ++ [last] ∧
      readUsername r.name.length (UInt8.ofNat r.name.length :: (utf8Encode r.name ++ rest)) =
        (.ok (utf8Lossy (UInt8.ofNat r.name.length :: init)), last :: rest) := by
  have hlength := r.length_utf8Encode_name
  obtain ⟨init, last, hsplit⟩ : ∃ init last, utf8Encode r.name = init ++ [last] := by
    rcases List.eq_nil_or_concat (utf8Encode r.name) with hnil | ⟨init, last, hconcat⟩
    · rw [hnil] at hlength
      change 0 = r.name.length at hlength
      omega
    · exact ⟨init, last, hconcat.trans List.concat_eq_append⟩
  refine ⟨init, last, hsplit, ?_⟩
  have hmost := r.name_length.2
  have hbyte := r.toNat_length
  have hlow : 0x20 ≤ (UInt8.ofNat r.name.length).toNat := by rwa [hbyte]
  have hread := readUsername_raw hlow init (last :: rest)
  have hcount : (UInt8.ofNat r.name.length :: init).length = r.name.length := by
    rw [← hlength, hsplit, List.length_append, List.length_cons]
    rfl
  rw [hcount] at hread
  rw [hsplit, List.append_assoc]
  exact hread

/-- A key does not start with a length above four. -/
lemma readAuthPairs_error (oneByteChunks : Bool) {b : UInt8} (hlow : 32 ≤ b.toNat)
    (hhigh : b.toNat < 0x7f) (n : ℕ) (rest : List UInt8) :
    ∃ e t, readAuthPairs oneByteChunks (n + 1) (b :: rest) = (.error e, t) := by
  have hlength : ¬ (b &&& 0x7f).toNat ≤ 4 := by
    rw [toNat_and_low]
    omega
  have hkey : readUb4 (b :: rest) = (.error (.invalidLengthIndicator (b &&& 0x7f)), rest) := by
    rw [readUb4, readUb, Fallible.bind_of_ok (readUbLength_cons b rest), if_neg hlength]
    rfl
  exact ⟨_, _, Fallible.bind_of_error (Fallible.bind_of_error hkey)⟩

/-- **A request is parsed back if and only if** its name is not taken for a name without its length
in front. -/
theorem parsed_iff (r : ThinRequest) : r.Parsed ↔ r.NameFramed := by
  have hlength := r.length_utf8Encode_name
  have hback := utf8Lossy_encode r.name
  have hname := r.name_length
  rw [Parsed, parseAuthRequest_bytes, NameFramed]
  cases hprefixed : r.prefixed with
  | false =>
    refine iff_of_true ?_ nofun
    obtain ⟨b, bytes, hbytes⟩ : ∃ b bytes, utf8Encode r.name = b :: bytes :=
      List.exists_cons_of_length_pos (by omega)
    have hb : 0x20 ≤ b.toNat :=
      (r.le_of_mem_utf8Encode_name (by rw [hbytes]; exact List.mem_cons_self)).1
    have hread := readUsername_raw hb bytes (r.pairs.flatMap AuthPair.bytes)
    rw [← hbytes, hback, hlength] at hread
    rw [nameBytes, hprefixed, if_neg Bool.false_ne_true, readBody_of_username r.pairs hread]
  | true =>
    have hnameBytes : r.nameBytes = UInt8.ofNat r.name.length :: utf8Encode r.name := by
      rw [nameBytes, hprefixed, if_pos rfl, writeBytesWithLength, hlength, if_neg (by omega),
        if_pos (by rw [maxShortLength]; omega)]
    rw [hnameBytes, List.cons_append, imp_iff_right rfl]
    rcases Nat.lt_or_ge r.name.length 32 with hshort | hlong
    · refine iff_of_true ?_ (.inl hshort)
      have hread := readUsername_prefixed (utf8Encode r.name) (by omega) (by omega)
        r.name.length (r.pairs.flatMap AuthPair.bytes)
      rw [hback, hlength] at hread
      rw [readBody_of_username r.pairs hread]
    · rw [or_iff_right (Nat.not_lt.2 hlong)]
      obtain ⟨init, last, hsplit, hread⟩ :=
        r.readUsername_long hlong (r.pairs.flatMap AuthPair.bytes)
      rw [readBody, Fallible.bind_of_ok hread]
      constructor
      · intro h
        have hlast := r.le_of_mem_utf8Encode_name (b := last) (by rw [hsplit]; simp)
        cases hpairs : r.pairs with
        | cons pair pairs =>
          -- the last byte of the name is taken for the first one of a key
          obtain ⟨e, t, herror⟩ := readAuthPairs_error r.oneByteChunks hlast.1 hlast.2 pairs.length
            (r.pairs.flatMap AuthPair.bytes)
          have hcount : r.pairs.length = pairs.length + 1 := by rw [hpairs, List.length_cons]
          rw [hcount, Fallible.bind_of_error herror] at h
          cases h
        | nil =>
          refine ⟨rfl, fun c hc => ?_⟩
          rw [hpairs] at h
          have hsame : utf8Lossy (UInt8.ofNat r.name.length :: init) = r.name :=
            (Prod.mk.inj (Except.ok.inj h)).1
          have hbytes := utf8Encode_utf8Lossy (s := UInt8.ofNat r.name.length :: init) (by
            rw [hsame]
            exact r.replacement_not_mem)
          rw [hsame, hsplit] at hbytes
          have hall := eq_of_cons_eq_concat hbytes.symm
          rw [← hsplit, utf8Encode_printable r.name_printable, List.forall_mem_map] at hall
          have hchar := congrArg UInt8.toNat (hall c hc)
          rwa [r.toNat_length, r.toNat_char hc] at hchar
      · rintro ⟨hpairs, hall⟩
        have hbytes : UInt8.ofNat r.name.length :: init = utf8Encode r.name := by
          have hrepeat : utf8Encode r.name =
              List.replicate r.name.length (UInt8.ofNat r.name.length) := by
            rw [utf8Encode_printable r.name_printable, List.eq_replicate_iff, List.length_map]
            refine ⟨rfl, List.forall_mem_map.2 fun c hc => ?_⟩
            rw [hall c hc]
          have hinit := congrArg List.dropLast hsplit
          rw [List.dropLast_concat, hrepeat, List.dropLast_replicate] at hinit
          rw [← hinit, hrepeat, ← List.replicate_succ, Nat.sub_add_cancel hname.1]
        rw [hbytes, hback, hpairs]
        rfl

end ThinRequest

end DbSaci.Wire
