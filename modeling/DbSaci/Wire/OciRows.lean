import DbSaci.Wire.OciResponse
import DbSaci.Wire.ReadBuffer

set_option relaxedAutoImplicit false
set_option autoImplicit false

/-!
# The rows an OCI client reads

The client reads a length byte for each value: `0` and `0xff` stand for no value, and `0xfe` for a
value in chunks, up to an empty one. The answers have the length of a value in one byte, whatever
it is.

The proof counts: a value that is read takes at least the bytes that are written for it, and more
if it is read in chunks. What is read back completely has therefore no value in chunks.

## Main definitions

* `ChunkLength` — how the length of a chunk is read.
* `clientRows`, `clientQuery`, `clientFetch` — what the client reads.
* `Short` — a value whose length fits.

## Main results

* `clientRows_takes` — rows that are read take at least the bytes that are written for them.
* `delivers_iff` — when the rows are read back.
-/

namespace DbSaci.Wire

open Fallible (ret fail)

/-! ### The client -/

/-- How the length of a chunk is read: it takes some bytes. -/
structure ChunkLength where
  read : Read ℕ
  takes : ∀ {s t n}, read s = (.ok n, t) → t.length < s.length

section Client

variable (f : ChunkLength)

/-- The chunks of a value, up to an empty one, at most so many. -/
def clientChunks : ℕ → Read (List UInt8)
  | 0 => fail (.bufferUnderflow 1 0)
  | fuel + 1 => do
    let n ← f.read
    if n = 0 then ret []
    else do
      let chunk ← readBytesVec n
      let chunks ← clientChunks fuel
      ret (chunk ++ chunks)

/-- A value, by its length byte. There are not more chunks than bytes. -/
def clientValue : Read (Option (List UInt8)) := do
  let len ← readU8
  if len = 0 ∨ len = 0xff then ret none
  else if len = 0xfe then do
    let value ← fun s => clientChunks f (s.length + 1) s
    ret (some value)
  else do
    let value ← readBytesVec len.toNat
    ret (some value)

/-- So many values. -/
def clientCells : ℕ → Read Row
  | 0 => ret []
  | n + 1 => do
    let value ← clientValue f
    let row ← clientCells n
    ret (value :: row)

/-- Rows of so many values, each behind a byte `0x07`, at most so many. -/
def clientRowsFrom (n : ℕ) : ℕ → Read (List Row)
  | 0 => fail (.bufferUnderflow 1 0)
  | fuel + 1 => fun s =>
    if s.head? = some 0x07 then
      (do
        let row ← clientCells f n
        let rows ← clientRowsFrom n fuel
        ret (row :: rows)) s.tail
    else (.ok [], s)

/-- Rows of so many values. There are not more rows than bytes. -/
def clientRows (n : ℕ) : Read (List Row) := fun s => clientRowsFrom f n (s.length + 1) s

/-- The description of a column is skipped. -/
def skipColumn : Read Unit := do
  skip 30
  skip 2
  let len ← readU8
  skip 4
  skip len.toNat
  skip 14

/-- The number of columns has to be the one that is known. -/
def expectCount (n : ℕ) : Read Unit := do
  let bytes ← readBytesVec 4
  if ofBeBytes bytes.reverse = n % 2 ^ 32 then ret () else fail (.protocol "column count")

/-- The description of so many columns is skipped. -/
def skipDescribe (n : ℕ) : Read Unit := do
  let len ← readU8
  skip len.toNat
  skip 7
  expectCount n
  skip 1
  Fallible.times n skipColumn
  skip 32

/-- The rows behind a header. -/
def clientRowSection (n : ℕ) : Read (List Row) := do
  skip 2
  expectCount n
  skip 16
  clientRows f n

/-- The rows of an Execute. -/
def clientQuery (n : ℕ) : Read (List Row) := do
  skip 3
  skipDescribe n
  clientRowSection f n

/-- The rows of a Fetch: there is a header if there are rows. -/
def clientFetch (n : ℕ) : Read (List Row) := do
  skip 2
  fun s => if s.head? = some 0x06 then clientRowSection f n s else (.ok [], s)

end Client

/-! ### What is read takes at least the bytes that are written -/

/-- A value whose length fits into a length byte. -/
def Short (cell : Option (List UInt8)) : Prop := ∀ v ∈ cell, 1 ≤ v.length ∧ v.length ≤ 253

/-- The number of bytes that are written for a value. -/
def cellSize (cell : Option (List UInt8)) : ℕ := (ociCell cell).length

lemma cellSize_some (v : List UInt8) : cellSize (some v) = v.length + 1 := rfl

section Takes

variable {f : ChunkLength} {s t : List UInt8}

/-- Chunks take more bytes than there are in them. -/
lemma clientChunks_takes {fuel : ℕ} {v : List UInt8} (h : clientChunks f fuel s = (.ok v, t)) :
    t.length + v.length < s.length := by
  induction fuel generalizing s v with
  | zero => cases h
  | succ fuel ih =>
    obtain ⟨n, u, hn, h⟩ := Fallible.of_bind_ok h
    have hlen := f.takes hn
    split_ifs at h with hzero
    · cases h
      simpa using hlen
    · obtain ⟨chunk, w, hchunk, hrest⟩ := Fallible.of_bind_ok h
      obtain ⟨chunks, x, hchunks, hv⟩ := Fallible.of_bind_ok hrest
      cases hv
      obtain ⟨hle, rfl, rfl⟩ := readBytesVec_ok hchunk
      have hmore := ih hchunks
      rw [List.length_drop] at hmore
      rw [List.length_append, List.length_take]
      omega

/-- A value takes at least the bytes that are written for it, and more if its length does not
fit. -/
lemma clientValue_takes {cell : Option (List UInt8)} (h : clientValue f s = (.ok cell, t)) :
    t.length + cellSize cell ≤ s.length ∧
      (t.length + cellSize cell = s.length → Short cell) := by
  obtain ⟨len, u, hlen, hvalue⟩ := Fallible.of_bind_ok h
  cases s with
  | nil => cases hlen
  | cons b s =>
    rw [readU8_cons] at hlen
    cases hlen
    rw [List.length_cons]
    split_ifs at hvalue with hnull hlong
    · cases hvalue
      exact ⟨le_rfl, fun _ => nofun⟩
    · obtain ⟨v, w, hchunks, hv⟩ := Fallible.of_bind_ok hvalue
      cases hv
      have htakes := clientChunks_takes hchunks
      rw [cellSize_some]
      exact ⟨by omega, fun heq => by omega⟩
    · obtain ⟨v, w, hbytes, hv⟩ := Fallible.of_bind_ok hvalue
      cases hv
      obtain ⟨hle, rfl, rfl⟩ := readBytesVec_ok hbytes
      have hbyte := len.toNat_lt
      have hzero : len.toNat ≠ 0 := fun heq => hnull (.inl (UInt8.toNat_inj.1 heq))
      have hff : len.toNat ≠ 255 := fun heq => hnull (.inr (UInt8.toNat_inj.1 heq))
      have hfe : len.toNat ≠ 254 := fun heq => hlong (UInt8.toNat_inj.1 heq)
      rw [cellSize_some, List.length_drop, List.length_take]
      refine ⟨by omega, ?_⟩
      rintro - v ⟨⟩
      rw [List.length_take]
      omega

/-- Values take at least the bytes that are written for them, and more if a length does not
fit. -/
lemma clientCells_takes {n : ℕ} {row : Row} (h : clientCells f n s = (.ok row, t)) :
    row.length = n ∧ t.length + (row.map cellSize).sum ≤ s.length ∧
      (t.length + (row.map cellSize).sum = s.length → ∀ cell ∈ row, Short cell) := by
  induction n generalizing s row with
  | zero =>
    cases h
    exact ⟨rfl, le_rfl, fun _ => nofun⟩
  | succ n ih =>
    obtain ⟨cell, u, hcell, h⟩ := Fallible.of_bind_ok h
    obtain ⟨cells, w, hcells, hrow⟩ := Fallible.of_bind_ok h
    cases hrow
    obtain ⟨hle, hshort⟩ := clientValue_takes hcell
    obtain ⟨hlen, hsum, hall⟩ := ih hcells
    rw [List.map_cons, List.sum_cons]
    refine ⟨by rw [List.length_cons, hlen], by omega, fun heq => ?_⟩
    exact List.forall_mem_cons.2 ⟨hshort (by omega), hall (by omega)⟩

/-- The number of bytes that are written for a row. -/
def rowSize (row : Row) : ℕ := (row.map cellSize).sum + 1

/-- **Rows that are read take at least the bytes that are written for them**, and more if a length
does not fit. -/
theorem clientRowsFrom_takes {n fuel : ℕ} {rows : List Row}
    (h : clientRowsFrom f n fuel s = (.ok rows, t)) :
    (∀ row ∈ rows, row.length = n) ∧ t.length + (rows.map rowSize).sum ≤ s.length ∧
      (t.length + (rows.map rowSize).sum = s.length →
        ∀ row ∈ rows, ∀ cell ∈ row, Short cell) := by
  induction fuel generalizing s rows with
  | zero => cases h
  | succ fuel ih =>
    rw [clientRowsFrom] at h
    dsimp only at h
    split_ifs at h with hhead
    · obtain ⟨s, rfl⟩ := List.head?_eq_some_iff.1 hhead
      obtain ⟨row, u, hrow, h⟩ := Fallible.of_bind_ok h
      obtain ⟨later, w, hlater, hrows⟩ := Fallible.of_bind_ok h
      cases hrows
      obtain ⟨hlen, hle, hshort⟩ := clientCells_takes hrow
      obtain ⟨hlens, hsum, hall⟩ := ih hlater
      rw [List.tail_cons] at hle hshort
      rw [List.map_cons, List.sum_cons, List.length_cons, rowSize]
      refine ⟨List.forall_mem_cons.2 ⟨hlen, hlens⟩, by omega, fun heq => ?_⟩
      exact List.forall_mem_cons.2 ⟨hshort (by omega), hall (by omega)⟩
    · cases h
      exact ⟨nofun, le_rfl, fun _ => nofun⟩

end Takes

/-! ### What is written -/

/-- Every row has a value or none in each of so many columns. -/
def Rectangular (n : ℕ) (rows : List Row) : Prop := ∀ row ∈ rows, row.length = n

/-- The lengths of all values fit. -/
def AllShort (rows : List Row) : Prop := ∀ row ∈ rows, ∀ cell ∈ row, Short cell

section Written

variable (f : ChunkLength) {n : ℕ} {rest : List UInt8}

/-- A row is written value by value. -/
lemma ociRow_eq {row : Row} (h : row.length = n) : ociRow n row = 0x07 :: row.flatMap ociCell := by
  have hcells : (List.range n).map (fun i => row[i]?.join) = row := by
    refine List.ext_getElem (by simp [h]) fun i hi hrow => ?_
    rw [List.getElem_map, List.getElem_range, List.getElem?_eq_getElem hrow]
    rfl
  have hmap := List.flatMap_map (fun i => row[i]?.join) ociCell (List.range n)
  rw [hcells] at hmap
  rw [ociRow, ← hmap]

lemma length_ociRow {row : Row} (h : row.length = n) : (ociRow n row).length = rowSize row := by
  rw [ociRow_eq h, List.length_cons, List.length_flatMap]
  rfl

lemma length_ociRowData {rows : List Row} (h : Rectangular n rows) :
    (ociRowData n rows).length = (rows.map rowSize).sum := by
  rw [ociRowData, List.length_flatMap]
  exact congrArg List.sum (List.map_congr_left fun row hrow => length_ociRow (h row hrow))

lemma clientValue_ociCell {cell : Option (List UInt8)} (h : Short cell) :
    clientValue f (ociCell cell ++ rest) = (.ok cell, rest) := by
  cases cell with
  | none => rfl
  | some v =>
    obtain ⟨hpos, hle⟩ := h v rfl
    have hlen : (UInt8.ofNat v.length).toNat = v.length := by
      rw [UInt8.toNat_ofNat']
      omega
    have hne : ∀ b : UInt8, b.toNat = 0 ∨ 253 < b.toNat → UInt8.ofNat v.length ≠ b := by
      rintro _ hb rfl
      rw [hlen] at hb
      omega
    have hnull : ¬ (UInt8.ofNat v.length = 0 ∨ UInt8.ofNat v.length = 0xff) :=
      not_or.2 ⟨hne _ (.inl rfl), hne _ (.inr (by decide))⟩
    rw [ociCell, List.cons_append, clientValue, Fallible.bind_of_ok (readU8_cons _ _),
      if_neg hnull, if_neg (hne _ (.inr (by decide))), hlen,
      Fallible.bind_of_ok (readBytesVec_append v rest)]
    rfl

lemma clientCells_flatMap {row : Row} (h : ∀ cell ∈ row, Short cell) :
    clientCells f row.length (row.flatMap ociCell ++ rest) = (.ok row, rest) := by
  induction row with
  | nil => rfl
  | cons cell row ih =>
    obtain ⟨hcell, hrow⟩ := List.forall_mem_cons.1 h
    rw [List.length_cons, clientCells, List.flatMap_cons, List.append_assoc,
      Fallible.bind_of_ok (clientValue_ociCell f hcell), Fallible.bind_of_ok (ih hrow)]
    rfl

/-- A row is read behind its marker. -/
lemma clientRowsFrom_marker (fuel : ℕ) (s : List UInt8) :
    clientRowsFrom f n (fuel + 1) (0x07 :: s) = (do
      let row ← clientCells f n
      let rows ← clientRowsFrom f n fuel
      ret (row :: rows) : Read (List Row)) s := by
  rw [clientRowsFrom]
  exact if_pos rfl

/-- Rows whose lengths fit are read back. -/
lemma clientRowsFrom_ociRowData {rows : List Row} {fuel : ℕ} (h : Rectangular n rows)
    (hshort : AllShort rows) (hrest : rest.head? ≠ some 0x07) (hfuel : rows.length < fuel) :
    clientRowsFrom f n fuel (ociRowData n rows ++ rest) = (.ok rows, rest) := by
  induction rows generalizing fuel with
  | nil =>
    obtain ⟨fuel, rfl⟩ := Nat.exists_eq_add_of_le' hfuel
    exact if_neg hrest
  | cons row rows ih =>
    obtain ⟨fuel, rfl⟩ := Nat.exists_eq_add_of_le' (Nat.one_le_of_lt hfuel)
    obtain ⟨hrow, hrows⟩ := List.forall_mem_cons.1 h
    obtain ⟨hcells, hlater⟩ := List.forall_mem_cons.1 hshort
    have hread := @clientCells_flatMap f (ociRowData n rows ++ rest) row hcells
    rw [hrow] at hread
    rw [ociRowData, List.flatMap_cons, ociRow_eq hrow, List.cons_append, List.cons_append,
      clientRowsFrom_marker, List.append_assoc, ← ociRowData, Fallible.bind_of_ok hread,
      Fallible.bind_of_ok (ih hrows hlater (Nat.lt_of_succ_lt_succ hfuel))]
    rfl

/-- **The rows are read back exactly if each has a value or none in every column and all lengths
fit.** -/
theorem clientRows_ociRowData (rows : List Row) (hrest : rest.head? ≠ some 0x07) :
    clientRows f n (ociRowData n rows ++ rest) = (.ok rows, rest) ↔
      Rectangular n rows ∧ AllShort rows := by
  constructor
  · intro h
    obtain ⟨hlens, -, hshort⟩ := clientRowsFrom_takes h
    refine ⟨hlens, hshort ?_⟩
    rw [List.length_append, length_ociRowData hlens, Nat.add_comm]
  · rintro ⟨hlens, hshort⟩
    refine clientRowsFrom_ociRowData f hlens hshort hrest ?_
    rw [List.length_append, length_ociRowData hlens]
    have hsize : ∀ rows : List Row, rows.length ≤ (rows.map rowSize).sum := by
      intro rows
      induction rows with
      | nil => exact le_rfl
      | cons row rows ih =>
        rw [List.length_cons, List.map_cons, List.sum_cons, rowSize]
        omega
    have := hsize rows
    omega

end Written

/-! ### Answers -/

section Answers

variable (f : ChunkLength)

lemma skip_append {k : ℕ} {x : List UInt8} (h : x.length = k) (s : List UInt8) :
    skip k (x ++ s) = (.ok (), s) := by
  subst h
  rw [skip, Fallible.bind_of_ok (readBytesVec_append x s)]
  rfl

lemma length_nameBytes (name : List Char) : (nameBytes name).length ≤ 255 := List.length_take_le _ _

/-- The description of a column is skipped. -/
lemma skipColumn_ociColumn (col : ColumnMeta) (i : ℕ) (s : List UInt8) :
    skipColumn (ociColumn col i ++ s) = (.ok (), s) := by
  have hlen : (UInt8.ofNat (nameBytes col.name).length).toNat = (nameBytes col.name).length := by
    have := length_nameBytes col.name
    rw [UInt8.toNat_ofNat']
    omega
  have hfields : (ociColumnFields col).length = 30 := by
    simp [ociColumnFields]
  have hparts : ociColumn col i ++ s = ociColumnFields col ++
      ([1, UInt8.ofNat (nameBytes col.name).length] ++
        UInt8.ofNat (nameBytes col.name).length :: (toBeBytes 4 (nameBytes col.name).length ++
          (nameBytes col.name ++ ((u32Le 0 ++ u32Le 0 ++ u16Le (UInt16.ofNat i) ++ u32Le 0) ++
            s)))) := by
    simp [ociColumn, ociColumnName]
  rw [hparts, skipColumn, Fallible.bind_of_ok (skip_append hfields _),
    Fallible.bind_of_ok (skip_append (k := 2) rfl _),
    Fallible.bind_of_ok (readU8_cons _ _),
    Fallible.bind_of_ok (skip_append (length_toBeBytes _ _) _), hlen,
    Fallible.bind_of_ok (skip_append rfl _), skip_append (by simp)]

/-- The descriptions of the columns are skipped. -/
lemma times_skipColumn (columns : List (ColumnMeta × ℕ)) (s : List UInt8) :
    Fallible.times columns.length skipColumn
      (columns.flatMap (fun c => ociColumn c.1 c.2) ++ s) = (.ok (), s) := by
  induction columns with
  | nil => rfl
  | cons c columns ih =>
    rw [List.flatMap_cons, List.append_assoc, List.length_cons, Fallible.times]
    have hcolumn := skipColumn_ociColumn c.1 c.2
      (columns.flatMap (fun c => ociColumn c.1 c.2) ++ s)
    exact (Fallible.bind_of_ok hcolumn).trans ih

lemma expectCount_u32Le (n : ℕ) (s : List UInt8) :
    expectCount n (u32Le (UInt32.ofNat n) ++ s) = (.ok (), s) := by
  have hcount : ofBeBytes (u32Le (UInt32.ofNat n)).reverse = n % 2 ^ 32 := by
    have hlt : (UInt32.ofNat n).toNat < 256 ^ 4 := (UInt32.ofNat n).toNat_lt
    rw [u32Le, List.reverse_reverse, ofBeBytes_of_lt hlt]
    exact UInt32.toNat_ofNat'
  have hread := readBytesVec_append (u32Le (UInt32.ofNat n)) s
  rw [length_u32Le] at hread
  rw [expectCount, Fallible.bind_of_ok hread, if_pos hcount]
  rfl

/-- The description is skipped. -/
lemma skipDescribe_ociDescribeBody (columns : List ColumnMeta) (s : List UInt8) :
    skipDescribe columns.length (ociDescribeBody columns ++ s) = (.ok (), s) := by
  have hparts : ociDescribeBody columns ++ s = 23 :: (zeros 23 ++
      (([0x03, 0x05, 0x2c] ++ u32Le (maxRowSize columns)) ++
        (u32Le (UInt32.ofNat columns.length) ++ ([0x5c] ++
          (columns.zipIdx.flatMap (fun c => ociColumn c.1 c.2) ++ (ociDescribeTrailer ++ s)))))) := by
    simp [ociDescribeBody]
  have hlen : columns.zipIdx.length = columns.length := List.length_zipIdx
  have hcolumns := times_skipColumn columns.zipIdx (ociDescribeTrailer ++ s)
  rw [hlen] at hcolumns
  have htrailer : ociDescribeTrailer.length = 32 := by simp [ociDescribeTrailer]
  rw [hparts, skipDescribe, Fallible.bind_of_ok (readU8_cons _ _),
    Fallible.bind_of_ok (skip_append (k := UInt8.toNat 23) (length_zeros 23) _),
    Fallible.bind_of_ok (skip_append (by simp) _), Fallible.bind_of_ok (expectCount_u32Le _ _),
    Fallible.bind_of_ok (skip_append (k := 1) rfl _), Fallible.bind_of_ok hcolumns,
    skip_append htrailer]

/-- The rows of an answer are read back exactly if they are behind their header. -/
lemma clientRowSection_append {n : ℕ} {a b rest : List UInt8} (ha : a.length = 2)
    (hb : b.length = 16) (rows : List Row) (hrest : rest.head? ≠ some 0x07) :
    clientRowSection f n (a ++ (u32Le (UInt32.ofNat n) ++ (b ++ (ociRowData n rows ++ rest)))) =
      (.ok rows, rest) ↔ Rectangular n rows ∧ AllShort rows := by
  rw [clientRowSection, Fallible.bind_of_ok (skip_append ha _),
    Fallible.bind_of_ok (expectCount_u32Le _ _), Fallible.bind_of_ok (skip_append hb _)]
  exact clientRows_ociRowData f rows hrest

lemma clientFetch_header (n : ℕ) (s : List UInt8) : clientFetch f n ([0, 0] ++ ([0x06, 0x02] ++ s)) =
    clientRowSection f n ([0x06, 0x02] ++ s) := rfl

/-- What is behind the rows is no row. -/
lemma head_queryClosing (n : ℕ) (rows : List Row) (cursorId : UInt16) (hasMore withDescribe : Bool)
    (seed : UInt64) : (queryClosing n rows cursorId hasMore withDescribe seed).head? ≠ some 0x07 := by
  cases withDescribe with
  | true =>
    have hfirst : (queryClosing n rows cursorId hasMore true seed).head? = some 0x08 := by
      cases hasMore <;> rfl
    rw [hfirst]
    decide
  | false =>
    have hfirst : (queryClosing n rows cursorId hasMore false seed).head? = some 0x04 := by
      cases hasMore <;> rfl
    rw [hfirst]
    decide

/-- **The rows of both answers are read back, up to the end of the call, exactly if each row has a
value or none in every column and the lengths of all values fit.** -/
theorem delivers_iff (columns : List ColumnMeta) (rows : List Row) (cursorId : UInt16)
    (hasMore withDescribe : Bool) (seed : UInt64) (reqCount : UInt32) (rowsTotal : UInt64) :
    (clientQuery f columns.length
        (buildQueryResponseOciEx columns rows cursorId hasMore withDescribe seed) =
          (.ok rows, queryClosing columns.length rows cursorId hasMore withDescribe seed) ↔
      Rectangular columns.length rows ∧ AllShort rows) ∧
    (clientFetch f columns.length
        (buildFetchResponseOci columns rows reqCount cursorId hasMore rowsTotal) =
          (.ok rows, fetchClosing rows cursorId hasMore rowsTotal) ↔
      Rectangular columns.length rows ∧ AllShort rows) := by
  constructor
  · have hparts : buildQueryResponseOciEx columns rows cursorId hasMore withDescribe seed =
        ([0, 0] ++ [0x10]) ++ (ociDescribeBody columns ++ ([0x06, 0x22] ++
          (u32Le (UInt32.ofNat columns.length) ++ ((u16Le 0 ++ u32Le 2 ++ zeros 10) ++
            (ociRowData columns.length rows ++
              queryClosing columns.length rows cursorId hasMore withDescribe seed))))) := by
      simp [buildQueryResponseOciEx, queryRowHeader]
    rw [hparts, clientQuery, Fallible.bind_of_ok (skip_append (k := 3) rfl _),
      Fallible.bind_of_ok (skipDescribe_ociDescribeBody _ _)]
    exact clientRowSection_append f rfl (by simp) rows (head_queryClosing _ _ _ _ _ _)
  · cases rows with
    | nil =>
      refine iff_of_true ?_ ⟨nofun, nofun⟩
      rw [buildFetchResponseOci, List.isEmpty_nil, if_pos rfl, List.append_nil]
      rfl
    | cons row rows =>
      have hparts : buildFetchResponseOci columns (row :: rows) reqCount cursorId hasMore
          rowsTotal = [0, 0] ++ ([0x06, 0x02] ++ (u32Le (UInt32.ofNat columns.length) ++
            ((u16Le 0 ++ u32Le reqCount ++ u16Le 0 ++ u32Le 0 ++ u32Le 0) ++
              (ociRowData columns.length (row :: rows) ++
                fetchClosing (row :: rows) cursorId hasMore rowsTotal)))) := by
        simp [buildFetchResponseOci, fetchRowHeader]
      rw [hparts, clientFetch_header]
      exact clientRowSection_append f rfl (by simp) (row :: rows) fun h => by cases h

end Answers

/-- The length of a chunk in four bytes, the lowest first. -/
def fixedLength : ChunkLength where
  read := do
    let bytes ← readBytesVec 4
    ret (ofBeBytes bytes.reverse)
  takes := by
    intro s t n h
    obtain ⟨bytes, u, hread, hret⟩ := Fallible.of_bind_ok h
    cases hret
    obtain ⟨hle, -, rfl⟩ := readBytesVec_ok hread
    rw [List.length_drop]
    omega

/-- A row with a text of so many letters. -/
def textRow (n : ℕ) : Row := [some (List.replicate n 0x41)]

/-- The rows that the client reads of an Execute. -/
def rowsRead (rows : List Row) : Except ReadError (List Row) :=
  (clientQuery fixedLength 1
    (buildQueryResponseOciEx [.varchar "A".toList 4000] rows 1 false true 0)).1

/-- Of a text of 300 letters 44 are read, a text of 254 letters is not read, and an empty text is
read as none. -/
theorem longText_not_delivered : rowsRead [textRow 300] ≠ .ok [textRow 300] ∧
    rowsRead [textRow 254] ≠ .ok [textRow 254] ∧ rowsRead [textRow 0] = .ok [[none]] := by
  decide +kernel

end DbSaci.Wire
