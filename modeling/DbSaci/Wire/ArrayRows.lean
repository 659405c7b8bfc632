import DbSaci.Wire.ExecuteRequest

set_option relaxedAutoImplicit false
set_option autoImplicit false

/-!
# The rows of a batch

An Execute with more than one iteration has one row of values for each. Both parsers stop at a value
that is cut off, and go on with the rows they have.

## Main definitions

* `wholeRows` — rows of which nothing is missing.
* `bindBlock` — the bytes of a payload that are read as rows.
* `AllOrNothing` — a batch that is accepted has all its rows.

## Main results

* `bindBlock_eq_some` — what is accepted was read from the bytes of the rows.
* `allOrNothing_iff` — when a batch has all its rows.
-/

namespace DbSaci.Wire

open Fallible (ret fail ofExcept recover)

/-! ### Whole rows -/

/-- So many values, of which nothing is missing. -/
def wholeValues : ℕ → Read (List (Option (List UInt8)))
  | 0 => ret []
  | k + 1 => do
    let raw ← readBytesWithLength
    let raws ← wholeValues k
    ret (raw :: raws)

/-- So many rows, each of so many values and behind a row marker, of which nothing is missing. -/
def wholeRows (k : ℕ) : ℕ → Read (List (List (Option (List UInt8))))
  | 0 => ret []
  | m + 1 => do
    let marker ← readU8
    if marker = 7 then do
      let raws ← wholeValues k
      let rows ← wholeRows k m
      ret (raws :: rows)
    else fail (.protocol "no row marker")

section Rows

variable {types : List UInt8} {s t u : List UInt8}

lemma recover_of_ok {α : Type} {p : Read α} {caught : ReadError → Bool} {a : α}
    (h : p s = (.ok a, t)) : recover caught p s = (.ok (some a), t) := by
  rw [recover, h]

lemma readBindValue_ok {oracleType : UInt8} {raw : Option (List UInt8)} {value : BindValue}
    (h : readBindValue oracleType raw s = (.ok value, t)) :
    decodeBindValue oracleType raw = .ok value ∧ t = s := by
  unfold readBindValue at h
  cases hdecode : decodeBindValue oracleType raw with
  | error text =>
    rw [hdecode] at h
    cases h
  | ok value' =>
    rw [hdecode] at h
    cases h
    exact ⟨rfl, rfl⟩

/-- A row of which nothing is missing is read as it is. -/
lemma readRow_of_whole {raws : List (Option (List UInt8))} {values : List BindValue}
    (hwhole : wholeValues types.length s = (.ok raws, t)) (h : readRow types s = (.ok values, u)) :
    u = t ∧ decodeRow types raws = .ok values ∧ values.length = types.length := by
  induction types generalizing s raws values with
  | nil =>
    cases hwhole
    cases h
    exact ⟨rfl, rfl, rfl⟩
  | cons oracleType types ih =>
    obtain ⟨raw, s', hraw, hwhole⟩ := Fallible.of_bind_ok hwhole
    obtain ⟨raws', t', hraws, hwhole⟩ := Fallible.of_bind_ok hwhole
    cases hwhole
    rw [readRow, Fallible.bind_of_ok (recover_of_ok hraw)] at h
    obtain ⟨value, s'', hvalue, hlater⟩ := Fallible.of_bind_ok h
    obtain ⟨hdecode, rfl⟩ := readBindValue_ok hvalue
    obtain ⟨values', u', hvalues, hend⟩ := Fallible.of_bind_ok hlater
    cases hend
    obtain ⟨hrest, hrow, hlen⟩ := ih hraws hvalues
    exact ⟨hrest, decodeRow_cons hdecode hrow, congrArg (· + 1) hlen⟩

/-- The rows a request has are those that are laid out. -/
def RowsOf (types : List UInt8) (raws : List (List (Option (List UInt8))))
    (rows : List (List BindValue)) : Prop :=
  List.Forall₂ (fun raw row => decodeRow types raw = .ok row ∧ row.length = types.length) raws rows

lemma RowsOf.length_row {raws : List (List (Option (List UInt8)))} {rows : List (List BindValue)}
    (h : RowsOf types raws rows) : ∀ row ∈ rows, row.length = types.length := by
  induction h with
  | nil => nofun
  | cons hrow _ ih => exact List.forall_mem_cons.2 ⟨hrow.2, ih⟩

lemma reading_eq {α : Type} (p : Read α) (buf : ReadBuffer) :
    reading p buf = ((p buf.rest).1, { buf with rest := (p buf.rest).2 }) := rfl

lemma reading_of_ok {α : Type} {p : Read α} {buf : ReadBuffer} {a : α}
    (h : p buf.rest = (.ok a, t)) : reading p buf = (.ok a, { buf with rest := t }) := by
  rw [reading_eq, h]

/-- If a reader succeeds in a parser, it succeeds on the bytes that remain. -/
lemma of_reading_ok {α : Type} {p : Read α} {buf buf' : ReadBuffer} {a : α}
    (h : reading p buf = (.ok a, buf')) : p buf.rest = (.ok a, buf'.rest) := by
  rw [reading_eq] at h
  obtain ⟨ha, rfl⟩ := Prod.mk.inj h
  exact Prod.ext ha rfl

/-- Rows of which nothing is missing are read as they are. -/
lemma readRows_of_whole {scan : Bool} {n : ℕ} {buf buf' : ReadBuffer}
    {raws : List (List (Option (List UInt8)))} {rows : List (List BindValue)}
    (hwhole : wholeRows types.length n buf.rest = (.ok raws, t))
    (h : readRows scan types n buf = (.ok rows, buf')) : RowsOf types raws rows ∧ rows.length = n := by
  induction n generalizing buf raws rows with
  | zero =>
    cases hwhole
    cases h
    exact ⟨.nil, rfl⟩
  | succ n ih =>
    obtain ⟨marker, s, hmarker, hwhole⟩ := Fallible.of_bind_ok hwhole
    split_ifs at hwhole with hseven
    swap
    · cases hwhole
    subst hseven
    obtain ⟨raw, s', hraw, hwhole⟩ := Fallible.of_bind_ok hwhole
    obtain ⟨raws', t', hraws, hwhole⟩ := Fallible.of_bind_ok hwhole
    cases hwhole
    rw [readRows, Fallible.bind_of_ok (reading_of_ok (recover_of_ok hmarker))] at h
    dsimp only at h
    rw [if_pos rfl] at h
    obtain ⟨_, buf₁, hcap, h⟩ := Fallible.of_bind_ok h
    cases hcap
    obtain ⟨row, buf₂, hrow, h⟩ := Fallible.of_bind_ok h
    obtain ⟨hrest, hdecode, hlen⟩ := readRow_of_whole hraw (of_reading_ok hrow)
    obtain ⟨rows', buf₃, hrows, h⟩ := Fallible.of_bind_ok h
    cases h
    obtain ⟨hall, hcount⟩ := ih (hrest ▸ hraws) hrows
    exact ⟨.cons ⟨hdecode, hlen⟩ hall, congrArg (· + 1) hcount⟩

/-- The rows of a batch of which nothing is missing. -/
lemma readIterations_of_whole {scan : Bool} {m : ℕ} {bytes : List UInt8} {capacities : List ℕ}
    {buf : ReadBuffer} {raws : List (List (Option (List UInt8)))} {binds : List BindValue}
    {rows : List (List BindValue)} (hm : 1 < m)
    (hwhole : wholeRows types.length m bytes = (.ok raws, t))
    (h : readIterations scan types m ⟨bytes.drop 1, capacities⟩ = (.ok (binds, rows), buf)) :
    RowsOf types raws rows ∧ rows.length = m := by
  obtain ⟨n, rfl⟩ := Nat.exists_eq_add_of_le' hm.le
  obtain ⟨marker, s, hmarker, hwhole⟩ := Fallible.of_bind_ok hwhole
  split_ifs at hwhole with hseven
  swap
  · cases hwhole
  obtain rfl : s = bytes.drop 1 := by
    cases bytes with
    | nil => cases hmarker
    | cons b bytes =>
      rw [readU8_cons] at hmarker
      exact (Prod.mk.inj hmarker).2.symm
  obtain ⟨raw, s', hraw, hwhole⟩ := Fallible.of_bind_ok hwhole
  obtain ⟨raws', t', hraws, hwhole⟩ := Fallible.of_bind_ok hwhole
  cases hwhole
  obtain ⟨first, buf₁, hfirst, h⟩ := Fallible.of_bind_ok h
  obtain ⟨hrest, hdecode, hlen⟩ := readRow_of_whole hraw (of_reading_ok hfirst)
  obtain ⟨rows', buf₂, hrows, h⟩ := Fallible.of_bind_ok h
  obtain ⟨_, buf₃, -, h⟩ := Fallible.of_bind_ok h
  cases h
  rw [allRows, if_pos hm] at hrows
  obtain ⟨later, buf₄, hlater, hrows⟩ := Fallible.of_bind_ok hrows
  cases hrows
  obtain ⟨hall, hcount⟩ := readRows_of_whole (hrest ▸ hraws) hlater
  exact ⟨.cons ⟨hdecode, hlen⟩ hall, congrArg (· + 1) hcount⟩

end Rows

/-! ### The bytes of the rows -/

/-- The types of the bind descriptors, the number of iterations, and the bytes from the first row
marker on. -/
structure BindBlock where
  types : List UInt8
  numIters : ℕ
  bytes : List UInt8
  deriving DecidableEq, Repr

/-- The bytes behind the bind descriptors, with the row marker that has been read. -/
def behind (marked : Bool) (rest : List UInt8) : List UInt8 := if marked = true then 7 :: rest else rest

/-- The bytes `parse_execute_strict` reads as rows, if there are any. -/
def strictBlock (payload : List UInt8) : Option BindBlock :=
  match strictPreamble payload with
  | (.ok (some p), rest) =>
    match strictDescriptors p.bindsPtr rest with
    | (.ok (types, marked), rest) =>
      if p.numBinds = 0 ∨ behind marked rest = [] then none
      else some ⟨types, p.numIters, behind marked rest⟩
    | (.error _, _) => none
  | _ => none

/-- The bytes `parse_execute_scan` reads as rows. -/
def scanBlock (payload : List UInt8) : Option BindBlock :=
  match scanPreamble payload with
  | (.ok (some (_, _, numIters)), rest) =>
    match descriptors true maxDescriptors rest with
    | (.ok (types, marked), rest) =>
      if types = [] then none else some ⟨types, numIters, behind marked rest⟩
    | (.error _, _) => none
  | _ => none

/-- The bytes that are read as rows, by the parser that has the last word. -/
def bindBlock (payload : List UInt8) : Option BindBlock :=
  match (parseExecuteStrict (.fromSlice payload)).1 with
  | .ok _ => strictBlock payload
  | .error _ => scanBlock payload

/-- What a request has of the bytes of the rows: the types and the number of iterations, and what
the loops read behind the first marker. -/
def ReadFrom (block : BindBlock) (r : ExecuteRequest) : Prop :=
  r.bindTypes = block.types ∧ r.numIters = block.numIters ∧ ∃ scan capacities buf,
    readIterations scan block.types block.numIters ⟨block.bytes.drop 1, capacities⟩ =
      (.ok (r.binds, r.bindRows), buf)

/-- A request has what is read from the bytes of the rows, or no rows. -/
def Explains (block : Option BindBlock) (r : ExecuteRequest) : Prop :=
  match block with
  | none => r.bindRows = []
  | some block => ReadFrom block r

lemma readMarker_ok {marked found : Bool} {s t : List UInt8}
    (h : readMarker marked s = (.ok found, t)) :
    (found = true ∧ behind marked s = 7 :: t) ∨ (found = false ∧ behind marked s = []) := by
  cases marked with
  | true =>
    cases h
    exact .inl ⟨rfl, rfl⟩
  | false =>
    cases s with
    | nil =>
      cases h
      exact .inr ⟨rfl, rfl⟩
    | cons b s =>
      rw [readMarker, Fallible.bind_of_ok (recover_of_ok (readU8_cons b s))] at h
      dsimp only at h
      split_ifs at h with hseven
      · cases h
        exact .inl ⟨rfl, by rw [hseven]; rfl⟩
      · cases h

lemma scanMarker_ok {marked : Bool} {o : Option UInt8} {s t : List UInt8}
    (h : scanMarker marked s = (.ok o, t)) : t = (behind marked s).drop 1 := by
  cases marked with
  | true =>
    cases h
    rfl
  | false =>
    cases s with
    | nil =>
      cases h
      rfl
    | cons b s =>
      rw [scanMarker, if_neg Bool.false_ne_true, recover_of_ok (readU8_cons b s)] at h
      cases h
      rfl

lemma explains_strict {payload : List UInt8} {r : ExecuteRequest} {buf : ReadBuffer}
    (h : parseExecuteStrict (.fromSlice payload) = (.ok r, buf)) :
    Explains (strictBlock payload) r := by
  rw [parseExecuteStrict_eq] at h
  unfold strictBlock
  rcases hpreamble : strictPreamble payload with ⟨e | _ | p, rest⟩ <;> rw [hpreamble] at h
  · cases h
  · cases h
    rfl
  dsimp only at h ⊢
  obtain ⟨_, buf₁, hcap, h⟩ := Fallible.of_bind_ok h
  cases hcap
  obtain ⟨⟨types, marked⟩, buf₂, htypes, h⟩ := Fallible.of_bind_ok h
  rw [of_reading_ok htypes]
  dsimp only at h ⊢
  obtain ⟨_, buf₃, hcap, h⟩ := Fallible.of_bind_ok h
  cases hcap
  obtain ⟨⟨binds, rows⟩, buf₄, hrows, h⟩ := Fallible.of_bind_ok h
  cases h
  unfold strictRows at hrows
  by_cases hzero : p.numBinds = 0
  · rw [if_pos hzero] at hrows
    cases hrows
    rw [if_pos (.inl hzero)]
    rfl
  rw [if_neg hzero] at hrows
  obtain ⟨found, buf₅, hfound, hrows⟩ := Fallible.of_bind_ok hrows
  rcases readMarker_ok (of_reading_ok hfound) with ⟨rfl, hbytes⟩ | ⟨rfl, hbytes⟩
  · have hbytes : behind marked buf₂.rest = 7 :: buf₅.rest := hbytes
    rw [if_neg (by rw [hbytes]; simp [hzero])]
    refine ⟨rfl, rfl, false, buf₅.capacities, buf, ?_⟩
    rw [hbytes]
    exact hrows
  · have hbytes : behind marked buf₂.rest = [] := hbytes
    cases hrows
    rw [if_pos (.inr hbytes)]
    rfl

lemma explains_scan {payload : List UInt8} {r : ExecuteRequest} {buf : ReadBuffer}
    (h : parseExecuteScan (.fromSlice payload) = (.ok r, buf)) :
    Explains (scanBlock payload) r := by
  obtain ⟨preamble, buf₁, hpreamble, h⟩ := Fallible.of_bind_ok h
  have hpreamble : scanPreamble payload = (.ok preamble, buf₁.rest) := of_reading_ok hpreamble
  unfold scanBlock
  rw [hpreamble]
  cases preamble with
  | none =>
    cases h
    rfl
  | some preamble =>
    obtain ⟨sql, prefetch, numIters⟩ := preamble
    dsimp only at h ⊢
    obtain ⟨⟨types, marked⟩, buf₂, htypes, h⟩ := Fallible.of_bind_ok h
    rw [of_reading_ok htypes]
    dsimp only at h ⊢
    obtain ⟨_, buf₃, hcap, h⟩ := Fallible.of_bind_ok h
    cases hcap
    obtain ⟨⟨binds, rows⟩, buf₄, hrows, h⟩ := Fallible.of_bind_ok h
    cases h
    unfold scanRows at hrows
    split_ifs at hrows ⊢ with hnil
    · cases hrows
      rfl
    · obtain ⟨o, buf₅, hmarker, hrows⟩ := Fallible.of_bind_ok hrows
      refine ⟨rfl, rfl, true, buf₅.capacities, buf, ?_⟩
      rw [← scanMarker_ok (of_reading_ok hmarker)]
      exact hrows

/-- **What is accepted was read from the bytes of the rows.** -/
theorem explains_bindBlock {payload : List UInt8} {r : ExecuteRequest}
    (h : (parseExecuteRequest payload).1 = .ok r) : Explains (bindBlock payload) r := by
  rw [parseExecuteRequest] at h
  rw [bindBlock]
  rcases hstrict : parseExecuteStrict (.fromSlice payload) with ⟨e | request, buf⟩
  · rw [hstrict] at h
    rcases hscan : parseExecuteScan (.fromSlice payload) with ⟨e' | request, buf'⟩
    · rw [hscan] at h
      cases h
    · rw [hscan] at h
      obtain rfl := Except.ok.inj h
      exact explains_scan hscan
  · rw [hstrict] at h
    obtain rfl := Except.ok.inj h
    exact explains_strict hstrict

/-! ### All rows or nothing -/

/-- A batch that is accepted has as many rows as there are iterations, each with as many values as
there are types, and the values are those that are laid out in the payload. -/
def AllOrNothing (payload : List UInt8) : Prop :=
  ∀ r, (parseExecuteRequest payload).1 = .ok r → 1 < r.numIters → r.bindTypes ≠ [] →
    r.bindRows ≠ [] →
      r.bindRows.length = r.numIters ∧
      (∀ row ∈ r.bindRows, row.length = r.bindTypes.length) ∧
      ∃ block ∈ bindBlock payload, ∃ raws rest,
        wholeRows r.bindTypes.length r.numIters block.bytes = (.ok raws, rest) ∧
        RowsOf r.bindTypes raws r.bindRows

/-- The bytes of the rows of a batch start with as many whole rows as there are iterations. -/
def Whole (block : BindBlock) : Prop :=
  1 < block.numIters → block.types ≠ [] →
    ∃ raws rest, wholeRows block.types.length block.numIters block.bytes = (.ok raws, rest)

/-- The payload is accepted. -/
def Accepted (payload : List UInt8) : Prop := ∃ r, (parseExecuteRequest payload).1 = .ok r

lemma ReadFrom.rows_ne_nil {block : BindBlock} {r : ExecuteRequest} (h : ReadFrom block r)
    (hm : 1 < block.numIters) : r.bindRows ≠ [] := by
  obtain ⟨-, -, scan, capacities, buf, h⟩ := h
  obtain ⟨first, buf₁, -, h⟩ := Fallible.of_bind_ok h
  obtain ⟨rows, buf₂, hrows, h⟩ := Fallible.of_bind_ok h
  obtain ⟨_, buf₃, -, h⟩ := Fallible.of_bind_ok h
  rw [allRows, if_pos hm] at hrows
  obtain ⟨later, buf₄, -, hrows⟩ := Fallible.of_bind_ok hrows
  obtain rfl := Except.ok.inj (Prod.mk.inj hrows).1
  rw [← (Prod.mk.inj (Except.ok.inj (Prod.mk.inj h).1)).2]
  exact List.cons_ne_nil _ _

/-- **A batch has all its rows exactly if it is rejected or its bytes have them.** -/
theorem allOrNothing_iff (payload : List UInt8) : AllOrNothing payload ↔
    (Accepted payload → ∀ block ∈ bindBlock payload, Whole block) := by
  constructor
  · rintro hall ⟨r, hr⟩ block hblock hm htypes
    have hread := explains_bindBlock hr
    rw [hblock] at hread
    obtain ⟨htypes', hiters, -⟩ := id hread
    obtain ⟨-, -, block', hblock', raws, rest, hwhole, -⟩ :=
      hall r hr (hiters ▸ hm) (htypes' ▸ htypes) (hread.rows_ne_nil hm)
    obtain rfl := Option.mem_unique hblock hblock'
    exact ⟨raws, rest, htypes' ▸ hiters ▸ hwhole⟩
  · intro hwhole r hr hm htypes hrows
    have hread := explains_bindBlock hr
    cases hblock : bindBlock payload with
    | none =>
      rw [hblock] at hread
      exact absurd hread hrows
    | some block =>
      rw [hblock] at hread
      obtain ⟨htypes', hiters, scan, capacities, buf, hread⟩ := hread
      rw [hiters] at hm ⊢
      rw [htypes'] at htypes ⊢
      obtain ⟨raws, rest, hraws⟩ := hwhole ⟨r, hr⟩ block hblock hm htypes
      obtain ⟨hof, hcount⟩ := readIterations_of_whole hm hraws hread
      exact ⟨hcount, hof.length_row, block, rfl, raws, rest, hraws, hof⟩

/-- A batch of two rows with one value each, and some bytes for its rows. -/
def twoRows (rows : List UInt8) : List UInt8 :=
  oneByteExecute [1, 1] [1, 2] ++ [1, 0, 0, 0, 0, 0, 0, 0, 0, 0, 0, 0, 0] ++ rows

/-- A batch with one row is accepted, though it should have two. -/
theorem not_allOrNothing_oneRow : ¬ AllOrNothing (twoRows [7, 1, 0x58]) := by
  intro h
  have hparse : (parseExecuteRequest (twoRows [7, 1, 0x58])).1 =
      .ok ⟨['A'], [.string ['X']], [1], 0, 2, [[.string ['X']]]⟩ := by
    decide +kernel
  obtain ⟨hcount, -, -⟩ := h _ hparse (by decide) (by decide) (by decide)
  exact absurd hcount (by decide)

end DbSaci.Wire
