import DbSaci.Library.Text
import DbSaci.Wire.BindValue
import DbSaci.Wire.ReadBuffer

set_option relaxedAutoImplicit false
set_option autoImplicit false

/-!
# The Execute message

An Execute is read field by field. If that fails it is read once more: the text of the statement is
searched, and what follows it is read with more tolerance.

## Main definitions

* `ExecuteRequest` — what an Execute asks for.
* `parseExecuteStrict`, `parseExecuteScan` — the two parsers.
* `parseExecuteRequest` — an Execute is parsed, and the capacities that are asked for.

## Main results

* `capacities_iff` — when the capacities are bounded by the length of the payload.
-/

namespace DbSaci.Wire

open Fallible (ret fail ofExcept recover times Ensures Keeps)

/-- What an Execute asks for. -/
structure ExecuteRequest where
  sql : List Char
  binds : List BindValue
  bindTypes : List UInt8
  prefetch : ℕ
  numIters : ℕ
  bindRows : List (List BindValue)
  deriving DecidableEq, Repr

/-- An Execute without a statement. -/
def ExecuteRequest.noStatement : ExecuteRequest := ⟨[], [], [], 0, 0, []⟩

/-! ### The parts of the message -/

/-- What stands in front of the bind descriptors. -/
structure Preamble where
  sql : List Char
  prefetch : ℕ
  numIters : ℕ
  bindsPtr : UInt8
  numBinds : ℕ
  deriving DecidableEq, Repr

/-- The text of the statement, from its bytes. -/
def sqlText (bytes : List UInt8) : Read (List Char) :=
  match String.fromUTF8? ⟨bytes.toArray⟩ with
  | some text => ret text.toList
  | none => fail (.protocol "execute SQL is not UTF-8: ")

/-- The thirteen numbers behind the text. The second one is the number of iterations. -/
def readAl8i4 : Read ℕ := do
  let _ ← readUb4
  let numIters ← readUb4
  times 11 readUb4 >>= fun _ => ret numIters

/-- The fields both parsers start with, up to the length of the text: whether there is a text, and
its length. -/
def readHeader : Read (Option ℕ) := do
  let _flags ← readU16Be
  let _msgType ← readU8
  let _function ← readU8
  let _seq ← readU8
  let _execOpts ← readUb4
  let _cursorId ← readUb4
  let sqlPtr ← readU8
  let sqlLen ← readUb4
  if sqlPtr = 0 ∨ sqlLen = 0 then ret none else ret (some sqlLen)

/-- The fields behind the length of the text, up to the number of rows to prefetch. -/
def readPrefetch : Read ℕ := do
  let _vectorPointer ← readU8
  let _al8i4Length ← readUb4
  let _al8o4Pointer ← readU8
  let _al8o4lPointer ← readU8
  let _prefetchSize ← readUb4
  readUb4

/-- A number and a byte. -/
def readUb4U8 : Read Unit := do
  let _ ← readUb4
  let _ ← readU8
  ret ()

/-- The fields of `parse_execute_strict`, up to the bind descriptors. -/
def strictPreamble : Read (Option Preamble) := do
  match ← readHeader with
  | none => ret none
  | some sqlLen =>
    let prefetch ← readPrefetch
    let _maxLongSize ← readUb4
    let bindsPtr ← readU8
    let numBinds ← readUb4
    let _ ← times 5 readU8
    let _ ← readU8
    let _ ← readUb4
    let _ ← readUb4
    let _ ← times 3 readU8
    let _ ← readUb4U8
    let _ ← readUb4
    let _ ← readUb4U8
    let _ ← readUb4U8
    let _ ← times 2 readUb4U8
    let _ ← readUb4U8
    let _ ← readUb4
    match ← readBytesWithLength with
    | none => fail (.protocol "execute request omitted SQL text")
    | some bytes =>
      if bytes.length ≠ sqlLen then fail (.protocol "execute SQL length does not match header")
      else do
        let sql ← sqlText bytes
        let numIters ← readAl8i4
        ret (some ⟨sql, prefetch, numIters, bindsPtr, numBinds⟩)

/-- The fields of a bind descriptor behind its type. -/
def readDescriptor : Read Unit := do
  let _flags ← readU8
  let _precision ← readU8
  let _scale ← readU8
  let _bufferSize ← readUb4
  let _arrayElements ← readUb4
  let _continuationFlags ← readUb8
  let oidLen ← readUb4
  let _ ← if 0 < oidLen then do
      let _oid ← readBytesWithLength
      readUb4
    else readUb2
  let _charsetId ← readUb2
  let _charsetForm ← readU8
  let _lobPrefetch ← readUb4
  let _oaccolid ← readUb4
  ret ()

/-- What is in the place of a bind descriptor: its type, or the end of the descriptors, with a row
marker or not. For the tolerant parser a zero is the end too. -/
def nextDescriptor (scan : Bool) : Read (Bool ⊕ UInt8) := do
  match ← recover ReadError.isUnderflow readU8 with
  | none => ret (.inl false)
  | some oracleType =>
    if scan = true ∧ oracleType = 0 then ret (.inl false)
    else if oracleType = 7 then ret (.inl true)
    else ret (.inr oracleType)

/-- The bind descriptors, at most so many: their types, and whether a row marker has been read. -/
def descriptors (scan : Bool) : ℕ → Read (List UInt8 × Bool)
  | 0 => do
    match ← nextDescriptor scan with
    | .inl marked => ret ([], marked)
    | .inr _ => fail (.protocol "too many bind descriptors")
  | left + 1 => do
    match ← nextDescriptor scan with
    | .inl marked => ret ([], marked)
    | .inr oracleType =>
      let _ ← readDescriptor
      let (types, marked) ← descriptors scan left
      ret (oracleType :: types, marked)

/-- How many bind descriptors are read at most. -/
def maxDescriptors : ℕ := 1024

/-- A value, if its type allows it. -/
def readBindValue (oracleType : UInt8) (raw : Option (List UInt8)) : Read BindValue :=
  match decodeBindValue oracleType raw with
  | .ok value => ret value
  | .error text => fail (.dataConversion text)

/-- The values of one row, up to the first that is cut off. -/
def readRow : List UInt8 → Read (List BindValue)
  | [] => ret []
  | oracleType :: types => do
    match ← recover ReadError.isUnderflow readBytesWithLength with
    | none => ret []
    | some raw =>
      let value ← readBindValue oracleType raw
      let values ← readRow types
      ret (value :: values)

/-- So many more rows, each behind its marker, up to the end of the bytes. For the tolerant parser
any other byte is the end. -/
def readRows (scan : Bool) (types : List UInt8) : ℕ → Parse (List (List BindValue))
  | 0 => ret []
  | n + 1 => do
    match ← reading (recover ReadError.isUnderflow readU8) with
    | none => ret []
    | some marker =>
      if marker = 7 then do
        withCapacity types.length
        let row ← reading (readRow types)
        let rows ← readRows scan types n
        ret (row :: rows)
      else if scan = true then ret []
      else fail (.protocol ("expected array-bind RowData marker, got " ++ toString marker.toNat))

/-- All rows, if there is more than one iteration. -/
def allRows (scan : Bool) (types : List UInt8) (numIters : ℕ) (binds : List BindValue) :
    Parse (List (List BindValue)) :=
  if 1 < numIters then do
    let rows ← readRows scan types (numIters - 1)
    ret (binds :: rows)
  else ret []

/-- The values behind the first row marker: those of the first row, and all rows. What is behind
them is skipped. -/
def readIterations (scan : Bool) (types : List UInt8) (numIters : ℕ) :
    Parse (List BindValue × List (List BindValue)) := do
  let binds ← reading (readRow types)
  let rows ← allRows scan types numIters binds
  let _ ← reading fun s => skip s.length s
  ret (binds, rows)

/-! ### The parsers -/

/-- The first row marker, for `parse_execute_strict`: whether there is one. -/
def readMarker : Bool → Read Bool
  | true => ret true
  | false => do
    match ← recover ReadError.isUnderflow readU8 with
    | none => ret false
    | some marker =>
      if marker = 7 then ret true
      else fail (.protocol ("expected bind RowData marker, got " ++ toString marker.toNat))

/-- The bind descriptors of `parse_execute_strict`. -/
def strictDescriptors (bindsPtr : UInt8) : Read (List UInt8 × Bool) :=
  if bindsPtr ≠ 0 then descriptors false maxDescriptors else ret ([], false)

/-- The values of `parse_execute_strict`. -/
def strictRows (p : Preamble) (types : List UInt8) (marked : Bool) :
    Parse (List BindValue × List (List BindValue)) :=
  if p.numBinds = 0 then ret ([], [])
  else do
    let marked ← reading (readMarker marked)
    if marked = true then readIterations false types p.numIters else ret ([], [])

/-- The bind descriptors and the values of `parse_execute_strict`. -/
def strictValues (p : Preamble) : Parse ExecuteRequest := do
  let (types, marked) ← reading (strictDescriptors p.bindsPtr)
  withCapacity p.numBinds
  let (binds, rows) ← strictRows p types marked
  ret ⟨p.sql, binds, types, p.prefetch, p.numIters, rows⟩

/-- What `parse_execute_strict` does behind the preamble. -/
def strictBinds (p : Preamble) : Parse ExecuteRequest := do
  withCapacity p.numBinds
  strictValues p

/-- `parse_execute_strict`. -/
def parseExecuteStrict : Parse ExecuteRequest := do
  match ← reading strictPreamble with
  | none => ret .noStatement
  | some p => strictBinds p

/-- The byte in front may be that of a text of this length. -/
def isBoundary (want before : UInt8) : Bool :=
  before == 0 || before == 1 || before == 0xfe || before == want

/-- A byte of a text. -/
def isTextByte (b : UInt8) : Bool :=
  b == 9 || b == 10 || b == 13 || (0x20 ≤ b && b < 0x7f) || 0x80 ≤ b

/-- Some bytes look like a statement. -/
def looksLikeSql (bytes : List UInt8) : Bool :=
  match String.fromUTF8? ⟨bytes.toArray⟩ with
  | none => false
  | some text =>
    let trimmed := Text.trimStart text.toList
    match trimmed with
    | [] => false
    | c :: _ =>
      (('a' ≤ c && c ≤ 'z') || ('A' ≤ c && c ≤ 'Z') || c == '(') &&
        (String.ofList trimmed).toUTF8.toList.all isTextByte

/-- `locate_sql_body`: where a text of this length stands. -/
def locateSqlBody (tail : List UInt8) (sqlLen : ℕ) : Option ℕ :=
  if sqlLen = 0 ∨ tail.length < sqlLen then none
  else (List.range (tail.length - sqlLen + 1)).find? fun i =>
    (i == 0 || isBoundary (UInt8.ofNat sqlLen) ((tail[i - 1]?).getD 0)) &&
      looksLikeSql ((tail.drop i).take sqlLen)

/-- The text of the statement where it is found. -/
def readSqlBody (sqlLen : ℕ) : Read (List Char) := fun s =>
  match locateSqlBody s sqlLen with
  | none => (.error (.protocol "could not locate SQL text in execute request"), s)
  | some i => (do
      let _ ← skip i
      let bytes ← readBytesVec sqlLen
      sqlText bytes : Read (List Char)) s

/-- The fields of `parse_execute_scan`, up to the bind descriptors: the text, the number of rows to
prefetch and the number of iterations. -/
def scanPreamble : Read (Option (List Char × ℕ × ℕ)) := do
  match ← readHeader with
  | none => ret none
  | some sqlLen =>
    let prefetch ← readPrefetch
    let sql ← readSqlBody sqlLen
    let numIters ← readAl8i4
    ret (some (sql, prefetch, numIters))

/-- The row marker of `parse_execute_scan`: any byte, or none. -/
def scanMarker (marked : Bool) : Read (Option UInt8) :=
  if marked = true then ret none else recover (fun _ => true) readU8

/-- The values of `parse_execute_scan`. -/
def scanRows (types : List UInt8) (marked : Bool) (numIters : ℕ) :
    Parse (List BindValue × List (List BindValue)) :=
  if types = [] then ret ([], [])
  else do
    let _ ← reading (scanMarker marked)
    readIterations true types numIters

/-- What `parse_execute_scan` reads behind the text. -/
def scanBinds (sql : List Char) (prefetch numIters : ℕ) : Parse ExecuteRequest := do
  let (types, marked) ← reading (descriptors true maxDescriptors)
  withCapacity types.length
  let (binds, rows) ← scanRows types marked numIters
  ret ⟨sql, binds, types, prefetch, numIters, rows⟩

/-- `parse_execute_scan`. -/
def parseExecuteScan : Parse ExecuteRequest := do
  match ← reading scanPreamble with
  | none => ret .noStatement
  | some (sql, prefetch, numIters) => scanBinds sql prefetch numIters

/-- `parse_execute_request`: the request or an error, and all capacities that are asked for. -/
def parseExecuteRequest (payload : List UInt8) : Except ReadError ExecuteRequest × List ℕ :=
  match parseExecuteStrict (.fromSlice payload) with
  | (.ok request, buf) => (.ok request, buf.capacities)
  | (.error strictErr, buf) =>
    match parseExecuteScan (.fromSlice payload) with
    | (.ok request, buf') => (.ok request, buf.capacities ++ buf'.capacities)
    | (.error _, buf') => (.error strictErr, buf.capacities ++ buf'.capacities)

/-! ### The capacities -/

section Capacities

variable {P : List ℕ → Prop} {A : ℕ → Prop} (hP : ∀ l c, A c → P l → P (l ++ [c]))

/-- A property of the capacities, as an invariant of the parsers. -/
def OfCapacities (P : List ℕ → Prop) (buf : ReadBuffer) : Prop := P buf.capacities

lemma ensures_reading {α : Type} {Q : α → Prop} {p : Read α}
    (h : Ensures (fun _ => True) Q p) : Ensures (OfCapacities P) Q (reading p) :=
  fun buf hbuf => ⟨hbuf, (h buf.rest trivial).2⟩

lemma keeps_reading {α : Type} (p : Read α) : Keeps (OfCapacities P) (reading p) :=
  Fallible.keeps_zoom (fun _ _ h => h) p

lemma ensures_descriptors (scan : Bool) (left : ℕ) :
    Ensures (fun _ => True) (fun r => r.1.length ≤ left) (descriptors scan left) := by
  have hany : ∀ {α : Type} (p : Read α), Keeps (fun _ => True) p :=
    fun p s _ => ⟨trivial, fun _ _ => trivial⟩
  induction left with
  | zero =>
    refine (hany _).bind fun next _ => ?_
    cases next with
    | inl marked => exact .pure (Nat.le_refl 0)
    | inr oracleType => exact .fail _
  | succ left ih =>
    refine (hany _).bind fun next _ => ?_
    cases next with
    | inl marked => exact .pure (Nat.zero_le _)
    | inr oracleType => exact (hany _).bind fun _ _ => ih.bind fun r hr => .pure (Nat.succ_le_succ hr)

include hP

lemma keeps_withCapacity {n : ℕ} (h : A n) : Keeps (OfCapacities P) (withCapacity n) :=
  fun buf hbuf => ⟨hP buf.capacities n h hbuf, fun _ _ => trivial⟩

/-- Each row asks for as much as there are types. -/
lemma keeps_readRows (scan : Bool) {types : List UInt8} (h : A types.length) (n : ℕ) :
    Keeps (OfCapacities P) (readRows scan types n) := by
  induction n with
  | zero => exact .pure trivial
  | succ n ih =>
    refine (keeps_reading _).bind fun marker _ => ?_
    cases marker with
    | none => exact .pure trivial
    | some marker =>
      dsimp only
      split_ifs with hmarker hscan
      · exact (keeps_withCapacity hP h).bind fun _ _ => (keeps_reading _).bind fun _ _ =>
          ih.bind fun _ _ => .pure trivial
      · exact .pure trivial
      · exact .fail _

lemma keeps_readIterations (scan : Bool) {types : List UInt8} (h : A types.length) (n : ℕ) :
    Keeps (OfCapacities P) (readIterations scan types n) := by
  refine (keeps_reading _).bind fun binds _ => ?_
  have hrows : Keeps (OfCapacities P) (allRows scan types n binds) := by
    unfold allRows
    split_ifs with hn
    · exact (keeps_readRows hP scan h _).bind fun _ _ => .pure trivial
    · exact .pure trivial
  exact hrows.bind fun _ _ => (keeps_reading _).bind fun _ _ => .pure trivial

variable (hA : ∀ c ≤ maxDescriptors, A c)

include hA

/-- Behind the preamble the strict parser asks for the count of the preamble, and for as much as
there are descriptors. -/
lemma keeps_strictValues {p : Preamble} (h : A p.numBinds) :
    Keeps (OfCapacities P) (strictValues p) := by
  have htypes : Ensures (fun _ => True) (fun r => r.1.length ≤ maxDescriptors)
      (strictDescriptors p.bindsPtr) := by
    unfold strictDescriptors
    split_ifs
    · exact ensures_descriptors false maxDescriptors
    · exact .pure (Nat.zero_le _)
  have hrows : ∀ types marked, types.length ≤ maxDescriptors →
      Keeps (OfCapacities P) (strictRows p types marked) := by
    intro types marked hle
    unfold strictRows
    split_ifs
    · exact .pure trivial
    · refine (keeps_reading _).bind fun marked _ => ?_
      split_ifs
      · exact keeps_readIterations hP false (hA _ hle) _
      · exact .pure trivial
  exact (ensures_reading htypes).bind fun r hr => (keeps_withCapacity hP h).bind fun _ _ =>
    (hrows r.1 r.2 hr).bind fun _ _ => .pure trivial

/-- The tolerant parser asks for as much as there are descriptors. -/
lemma keeps_parseExecuteScan : Keeps (OfCapacities P) parseExecuteScan := by
  have hrows : ∀ types marked numIters, types.length ≤ maxDescriptors →
      Keeps (OfCapacities P) (scanRows types marked numIters) := by
    intro types marked numIters hle
    unfold scanRows
    split_ifs
    · exact .pure trivial
    · exact (keeps_reading _).bind fun _ _ => keeps_readIterations hP true (hA _ hle) _
  refine (keeps_reading _).bind fun preamble _ => ?_
  cases preamble with
  | none => exact .pure trivial
  | some preamble =>
    exact (ensures_reading (ensures_descriptors true maxDescriptors)).bind fun r hr =>
      (keeps_withCapacity hP (hA _ hr)).bind fun _ _ => (hrows r.1 r.2 _ hr).bind fun _ _ =>
        .pure trivial

end Capacities

/-- The capacities that are asked for are bounded by the length of the payload and a constant. -/
def Bounded (constant : ℕ) (payload : List UInt8) : Prop :=
  ∀ c ∈ (parseExecuteRequest payload).2, c ≤ payload.length + constant

/-- The capacities both parsers ask for. -/
lemma capacities_eq (payload : List UInt8) : (parseExecuteRequest payload).2 =
    (parseExecuteStrict (.fromSlice payload)).2.capacities ++
      match (parseExecuteStrict (.fromSlice payload)).1 with
      | .ok _ => []
      | .error _ => (parseExecuteScan (.fromSlice payload)).2.capacities := by
  rw [parseExecuteRequest]
  rcases parseExecuteStrict (.fromSlice payload) with ⟨e | request, buf⟩
  · rcases parseExecuteScan (.fromSlice payload) with ⟨e' | request, buf'⟩ <;> rfl
  · exact (List.append_nil _).symm

lemma forall_mem_concat {B : ℕ} {l : List ℕ} {c : ℕ} (hc : c ≤ B) (hl : ∀ x ∈ l, x ≤ B) :
    ∀ x ∈ l ++ [c], x ≤ B := by
  intro x hx
  rcases List.mem_append.1 hx with hx | hx
  · exact hl x hx
  · exact List.mem_singleton.1 hx ▸ hc

/-- What the strict parser asks for, by what it finds in front of the bind descriptors. -/
lemma parseExecuteStrict_eq (payload : List UInt8) : parseExecuteStrict (.fromSlice payload) =
    match strictPreamble payload with
    | (.ok none, rest) => (.ok .noStatement, ⟨rest, []⟩)
    | (.ok (some p), rest) => strictBinds p ⟨rest, []⟩
    | (.error e, rest) => (.error e, ⟨rest, []⟩) := by
  have hread : reading strictPreamble (.fromSlice payload) =
      ((strictPreamble payload).1, ⟨(strictPreamble payload).2, []⟩) := rfl
  rw [parseExecuteStrict]
  rcases hpre : strictPreamble payload with ⟨e | _ | p, rest⟩ <;> rw [hpre] at hread
  · exact Fallible.bind_of_error hread
  · exact Fallible.bind_of_ok hread
  · exact Fallible.bind_of_ok hread

/-- **The capacities are bounded exactly if the count of binds in the preamble is, where the strict
parser reads one.** -/
theorem bounded_iff {constant : ℕ} (h : maxDescriptors ≤ constant) (payload : List UInt8) :
    Bounded constant payload ↔ ∀ p rest, strictPreamble payload = (.ok (some p), rest) →
      p.numBinds ≤ payload.length + constant := by
  have hscan : ∀ c ∈ (parseExecuteScan (.fromSlice payload)).2.capacities,
      c ≤ payload.length + constant :=
    (@keeps_parseExecuteScan (fun l => ∀ c ∈ l, c ≤ payload.length + constant)
      (· ≤ payload.length + constant) (fun _ _ => forall_mem_concat)
      (fun c hc => hc.trans (h.trans (Nat.le_add_left _ _))) (.fromSlice payload) nofun).1
  have hbounded : Bounded constant payload ↔
      ∀ c ∈ (parseExecuteStrict (.fromSlice payload)).2.capacities,
        c ≤ payload.length + constant := by
    rw [Bounded, capacities_eq]
    refine ⟨fun hall c hc => hall c (List.mem_append_left _ hc), fun hall c hc => ?_⟩
    rcases List.mem_append.1 hc with hc | hc
    · exact hall c hc
    · cases hstrict : (parseExecuteStrict (.fromSlice payload)).1 with
      | ok request =>
        rw [hstrict] at hc
        cases hc
      | error e =>
        rw [hstrict] at hc
        exact hscan c hc
  rw [hbounded, parseExecuteStrict_eq]
  rcases hpre : strictPreamble payload with ⟨e | _ | p, rest⟩
  · exact iff_of_true nofun fun _ _ heq => by cases heq
  · exact iff_of_true nofun fun _ _ heq => by cases heq
  · dsimp only
    constructor
    · intro hall q t heq
      obtain ⟨hq, -⟩ := Prod.mk.inj heq
      obtain rfl := Option.some.inj (Except.ok.inj hq)
      -- the count is asked for first, and what has been asked for stays in the list
      have hmem : p.numBinds ∈ (strictValues p ⟨rest, [p.numBinds]⟩).2.capacities :=
        (@keeps_strictValues (p.numBinds ∈ ·) (fun _ => True)
          (fun _ _ _ hmem => List.mem_append_left _ hmem) (fun _ _ => trivial) p trivial
          ⟨rest, [p.numBinds]⟩ (List.mem_singleton_self _)).1
      exact hall _ hmem
    · intro hle
      have hcount := hle p rest rfl
      exact (@keeps_strictValues (fun l => ∀ c ∈ l, c ≤ payload.length + constant)
        (· ≤ payload.length + constant) (fun _ _ => forall_mem_concat)
        (fun c hc => hc.trans (h.trans (Nat.le_add_left _ _))) p hcount ⟨rest, [p.numBinds]⟩
        fun c hc => List.mem_singleton.1 hc ▸ hcount).1

/-- Nothing is asked for if there is nothing to read. -/
theorem bounded_nil : maxDescriptors ≤ 1024 ∧ Bounded 1024 [] :=
  ⟨Nat.le_refl _, (bounded_iff (Nat.le_refl _) []).2 fun p rest h => by
    have hnil : strictPreamble [] = (.error (.bufferUnderflow 2 0), []) := rfl
    rw [hnil] at h
    cases h⟩

/-- The fixed fields of an Execute with a text of one byte: one bind, and so many iterations. -/
def oneByteExecute (numBinds numIters : List UInt8) : List UInt8 :=
  [0, 0, 3, 0x5e, 1, 0, 0, 1, 1, 1] ++ [1, 0, 1, 1, 0, 0] ++ [0, 1] ++ numBinds ++
    List.replicate 25 0 ++ [1, 0x41] ++ [0] ++ numIters ++ List.replicate 11 0

/-- A short payload with a count of `2 ^ 32 - 1` is parsed, and memory for as many binds is asked
for. -/
theorem not_bounded_count :
    ¬ Bounded 4000000000 (oneByteExecute [4, 0xff, 0xff, 0xff, 0xff] [1, 1]) := by
  intro h
  have hmem : 4294967295 ∈
      (parseExecuteRequest (oneByteExecute [4, 0xff, 0xff, 0xff, 0xff] [1, 1])).2 := by
    decide +kernel
  have hle := h _ hmem
  have hlen : (oneByteExecute [4, 0xff, 0xff, 0xff, 0xff] [1, 1]).length < 100 := by decide
  omega

end DbSaci.Wire
