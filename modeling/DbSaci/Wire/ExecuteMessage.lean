import DbSaci.Library.Takes
import DbSaci.Library.Utf8
import DbSaci.Wire.ArrayRows
import DbSaci.Wire.ClrValues

set_option relaxedAutoImplicit false
set_option autoImplicit false

/-!
# Execute messages of the plain thin clients

A client writes an Execute field by field: a header, the options, the text, thirteen numbers, a
descriptor for each bind and a row of values for each iteration. The parser skips most of the
fields, so their values are arbitrary here. A statement that has been executed is executed again by
a shorter message, with other values for the same types.

## Main definitions

* `BindDescriptor`, `ExecuteMessage` — an Execute, and its bytes.
* `parseReexecuteRequest`, `ReexecuteMessage` — a message that executes a statement again.

## Main results

* `execute_parsed` — an Execute is parsed into what it was written for.
* `reexecute_parsed` — and so is a message that executes a statement again.
-/

namespace DbSaci.Wire

open Fallible (ret fail recover times Takes takes_times)

/-! ### Fields -/

lemma takes_u8 (b : UInt8) : Takes readU8 [b] b := readU8_cons b

lemma takes_ub2 (v : UInt16) : Takes readUb2 (writeUb2 v) v.toNat := fun rest =>
  readUb2_writeUb2 rest v

lemma takes_ub4 (v : UInt32) : Takes readUb4 (writeUb4 v) v.toNat := fun rest =>
  readUb4_writeUb4 rest v

lemma takes_ub8 (v : UInt64) : Takes readUb8 (writeUb8 v) v.toNat := fun rest =>
  readUb8_writeUb8 rest v

lemma takes_u16Be (b b' : UInt8) : Takes readU16Be [b, b'] (ofBeBytes [b, b']) :=
  Takes.bind_ret (f := ofBeBytes) (readBytesVec_append [b, b'])

lemma takes_value (v : Option (List UInt8)) :
    Takes readBytesWithLength (writeBytesWithLength v) v :=
  readBytesWithLength_write v

/-- A text is read from its bytes. -/
lemma takes_sqlText (sql : List Char) : Takes (sqlText (utf8Encode sql)) [] sql := by
  intro rest
  have hdecode := utf8Decode_encode sql
  rw [utf8Decode, Option.map_eq_some_iff] at hdecode
  obtain ⟨text, htext, rfl⟩ := hdecode
  rw [sqlText, htext]
  rfl

/-! ### Bind descriptors -/

/-- The fields of a descriptor behind its type. The object identifier comes with a version of its
own. -/
structure BindDescriptor where
  oracleType : UInt8
  flags : UInt8
  precision : UInt8
  scale : UInt8
  bufferSize : UInt32
  arrayElements : UInt32
  continuationFlags : UInt64
  oid : Option (List UInt8 × UInt32)
  version : UInt16
  charsetId : UInt16
  charsetForm : UInt8
  lobPrefetch : UInt32
  oaccolid : UInt32
  oid_length : ∀ o ∈ oid, 0 < o.1.length ∧ o.1.length < 2 ^ 32

namespace BindDescriptor

variable (d : BindDescriptor)

/-- The object identifier, or the version of a scalar. -/
def oidBytes : List UInt8 :=
  match d.oid with
  | some o =>
    writeUb4 (UInt32.ofNat o.1.length) ++ (writeBytesWithLength (some o.1) ++ writeUb4 o.2)
  | none => writeUb4 0 ++ writeUb2 d.version

/-- The bytes behind the type. -/
def body : List UInt8 :=
  [d.flags] ++ ([d.precision] ++ ([d.scale] ++ (writeUb4 d.bufferSize ++
    (writeUb4 d.arrayElements ++ (writeUb8 d.continuationFlags ++ (d.oidBytes ++
      (writeUb2 d.charsetId ++ ([d.charsetForm] ++ (writeUb4 d.lobPrefetch ++
        writeUb4 d.oaccolid)))))))))

/-- The bytes of a descriptor. -/
def bytes : List UInt8 := d.oracleType :: d.body

end BindDescriptor

/-- A descriptor is read behind its type. -/
lemma takes_descriptor (d : BindDescriptor) : Takes readDescriptor d.body () := by
  rw [readDescriptor, BindDescriptor.body]
  refine (takes_u8 _).bind ((takes_u8 _).bind ((takes_u8 _).bind ((takes_ub4 _).bind
    ((takes_ub4 _).bind ((takes_ub8 _).bind ?_)))))
  have hbehind : Takes (do
      let _charsetId ← readUb2
      let _charsetForm ← readU8
      let _lobPrefetch ← readUb4
      let _oaccolid ← readUb4
      ret () : Read Unit)
      (writeUb2 d.charsetId ++ ([d.charsetForm] ++ (writeUb4 d.lobPrefetch ++
        writeUb4 d.oaccolid))) () :=
    (takes_ub2 _).bind ((takes_u8 _).bind ((takes_ub4 _).bind (takes_ub4 _).bind_ret))
  rw [BindDescriptor.oidBytes]
  cases hoid : d.oid with
  | none =>
    dsimp only
    rw [List.append_assoc]
    refine (takes_ub4 0).bind ?_
    exact (takes_ub2 _).bind hbehind
  | some o =>
    obtain ⟨hpos, hlt⟩ := d.oid_length o hoid
    have hlength : (UInt32.ofNat o.1.length).toNat = o.1.length := UInt32.toNat_ofNat_of_lt' hlt
    dsimp only
    rw [List.append_assoc, List.append_assoc]
    refine (takes_ub4 _).bind ?_
    rw [hlength, if_pos hpos]
    exact (takes_value _).bind ((takes_ub4 _).bind hbehind)

/-- The type of a descriptor stands in front of it. -/
lemma nextDescriptor_type {oracleType : UInt8} (h : oracleType ≠ 7) (rest : List UInt8) :
    nextDescriptor false (oracleType :: rest) = (.ok (.inr oracleType), rest) := by
  rw [nextDescriptor, Fallible.bind_of_ok (recover_of_ok (readU8_cons _ _))]
  dsimp only
  rw [if_neg (by simp), if_neg h]
  rfl

/-- Behind the descriptors stands a row marker, or nothing. -/
lemma nextDescriptor_end (rest : List UInt8) :
    nextDescriptor false (7 :: rest) = (.ok (.inl true), rest) ∧
      nextDescriptor false [] = (.ok (.inl false), []) := by
  constructor
  · rw [nextDescriptor, Fallible.bind_of_ok (recover_of_ok (readU8_cons _ _))]
    rfl
  · rfl

/-- **The descriptors are read**, up to what ends them. -/
lemma descriptors_append {ds : List BindDescriptor} (hseven : ∀ d ∈ ds, d.oracleType ≠ 7)
    {left : ℕ} (hleft : ds.length ≤ left) {rest rest' : List UInt8} {marked : Bool}
    (hend : nextDescriptor false rest = (.ok (.inl marked), rest')) :
    descriptors false left (ds.flatMap BindDescriptor.bytes ++ rest) =
      (.ok (ds.map BindDescriptor.oracleType, marked), rest') := by
  induction ds generalizing left with
  | nil =>
    cases left with
    | zero => exact Fallible.bind_of_ok hend
    | succ left => exact Fallible.bind_of_ok hend
  | cons d ds ih =>
    obtain ⟨left, rfl⟩ := Nat.exists_eq_add_of_le' (Nat.one_le_of_lt hleft)
    obtain ⟨hd, hds⟩ := List.forall_mem_cons.1 hseven
    have hothers := ih hds (Nat.le_of_succ_le_succ hleft)
    rw [List.flatMap_cons, BindDescriptor.bytes, List.cons_append, List.cons_append,
      List.append_assoc, descriptors, Fallible.bind_of_ok (nextDescriptor_type hd _)]
    exact (Fallible.bind_of_ok (takes_descriptor d _)).trans
      ((Fallible.bind_of_ok hothers).trans rfl)

/-! ### Rows of values -/

/-- The values of a row. -/
def valueBytes (raws : List (Option (List UInt8))) : List UInt8 := raws.flatMap writeBytesWithLength

/-- Rows behind their markers. -/
def rowBytes (rows : List (List (Option (List UInt8)))) : List UInt8 :=
  rows.flatMap fun raws => 7 :: valueBytes raws

/-- A row is read if its values are of their types. -/
lemma takes_row {types : List UInt8} {raws : List (Option (List UInt8))} {values : List BindValue}
    (hlength : raws.length = types.length) (h : decodeRow types raws = .ok values) :
    Takes (readRow types) (valueBytes raws) values := by
  induction types generalizing raws values with
  | nil =>
    obtain rfl := List.eq_nil_of_length_eq_zero hlength
    obtain rfl : [] = values := Except.ok.inj h
    exact fun _ => rfl
  | cons oracleType types ih =>
    cases raws with
    | nil => cases hlength
    | cons raw raws =>
      intro rest
      rw [decodeRow] at h
      cases hvalue : decodeBindValue oracleType raw with
      | error text => rw [hvalue] at h; cases h
      | ok value =>
        rw [hvalue] at h
        change (do let values ← decodeRow types raws; return value :: values) = _ at h
        cases hvalues : decodeRow types raws with
        | error text => rw [hvalues] at h; cases h
        | ok values' =>
          rw [hvalues] at h
          obtain rfl : value :: values' = values := Except.ok.inj h
          have hothers := ih (Nat.succ.inj hlength) hvalues rest
          have hread : readBindValue oracleType raw (valueBytes raws ++ rest) =
              (.ok value, valueBytes raws ++ rest) := by
            rw [readBindValue, hvalue]
            rfl
          rw [valueBytes, List.flatMap_cons, List.append_assoc, readRow,
            Fallible.bind_of_ok (recover_of_ok (takes_value raw _))]
          exact (Fallible.bind_of_ok hread).trans ((Fallible.bind_of_ok hothers).trans rfl)

section Rows

variable {types : List UInt8} {rows : List (List (Option (List UInt8)))}
  {values : List (List BindValue)}

lemma withCapacity_eq (n : ℕ) (s : List UInt8) (capacities : List ℕ) :
    withCapacity n ⟨s, capacities⟩ = (.ok (), ⟨s, capacities ++ [n]⟩) := rfl

/-- The rows of a batch are read behind the first one. -/
lemma readRows_rowBytes (hwidth : ∀ raws ∈ rows, raws.length = types.length)
    (h : RowsOf types rows values) (rest : List UInt8) (capacities : List ℕ) :
    ∃ capacities', readRows false types rows.length ⟨rowBytes rows ++ rest, capacities⟩ =
      (.ok values, ⟨rest, capacities'⟩) := by
  induction h generalizing capacities with
  | nil => exact ⟨capacities, rfl⟩
  | @cons raws row rows values hrow hrows ih =>
    obtain ⟨hlength, hwidth⟩ := List.forall_mem_cons.1 hwidth
    obtain ⟨capacities', hothers⟩ := ih hwidth (capacities ++ [types.length])
    refine ⟨capacities', ?_⟩
    have hmarker : reading (recover ReadError.isUnderflow readU8)
        ⟨rowBytes (raws :: rows) ++ rest, capacities⟩ =
          (.ok (some 7), ⟨valueBytes raws ++ (rowBytes rows ++ rest), capacities⟩) := by
      refine reading_of_ok (recover_of_ok ?_)
      rw [rowBytes, List.flatMap_cons, List.cons_append, List.cons_append, List.append_assoc]
      exact readU8_cons _ _
    rw [List.length_cons, readRows, Fallible.bind_of_ok hmarker]
    dsimp only
    rw [if_pos rfl]
    have hread : reading (readRow types)
        ⟨valueBytes raws ++ (rowBytes rows ++ rest), capacities ++ [types.length]⟩ =
          (.ok row, ⟨rowBytes rows ++ rest, capacities ++ [types.length]⟩) :=
      reading_of_ok (takes_row hlength hrow.1 _)
    exact (Fallible.bind_of_ok (withCapacity_eq _ _ _)).trans ((Fallible.bind_of_ok hread).trans
      ((Fallible.bind_of_ok hothers).trans rfl))

end Rows

/-! ### An Execute -/

/-- An Execute. The parser skips some numbers and bytes, which may have any values. The text is not
empty; there are values for each iteration or none at all; and what stands behind the values is not
read. -/
structure ExecuteMessage where
  flag : UInt8
  flag' : UInt8
  seq : UInt8
  number : ℕ → UInt32
  byte : ℕ → UInt8
  sqlPtr : UInt8
  sql : List Char
  prefetch : UInt32
  bindsPtr : UInt8
  numBinds : UInt32
  numIters : UInt32
  descriptors : List BindDescriptor
  rows : List (List (Option (List UInt8)))
  surplus : List UInt8
  sqlPtr_ne : sqlPtr ≠ 0
  sql_length : 0 < (utf8Encode sql).length ∧ (utf8Encode sql).length < 2 ^ 32
  descriptors_le : descriptors.length ≤ maxDescriptors
  types_ne : ∀ d ∈ descriptors, d.oracleType ≠ 7
  bindsPtr_ne : descriptors ≠ [] → bindsPtr ≠ 0
  numBinds_ne : rows ≠ [] → numBinds ≠ 0
  width : ∀ raws ∈ rows, raws.length = descriptors.length
  rows_length : rows ≠ [] → rows.length = max numIters.toNat 1
  surplus_nil : rows = [] → surplus = []

namespace ExecuteMessage

variable (m : ExecuteMessage)

/-- The types of the binds. -/
def types : List UInt8 := m.descriptors.map BindDescriptor.oracleType

/-- A number and a byte that are skipped. -/
def pair (i : ℕ) : List UInt8 := writeUb4 (m.number i) ++ [m.byte i]

/-- Two of them. -/
def pairs (i : ℕ) : List UInt8 := m.pair i ++ m.pair (i + 1)

/-- The header, up to the length of the text. -/
def header : List UInt8 :=
  [m.flag, m.flag'] ++ ([0x03] ++ ([0x5e] ++ ([m.seq] ++ (writeUb4 (m.number 0) ++
    (writeUb4 (m.number 1) ++ ([m.sqlPtr] ++
      writeUb4 (UInt32.ofNat (utf8Encode m.sql).length)))))))

/-- The fields up to the number of rows to prefetch. -/
def prefetchBytes : List UInt8 :=
  [m.byte 0] ++ (writeUb4 (m.number 2) ++ ([m.byte 1] ++ ([m.byte 2] ++ (writeUb4 (m.number 3) ++
    writeUb4 m.prefetch))))

/-- The fields up to the text. -/
def options : List UInt8 :=
  writeUb4 (m.number 4) ++ ([m.bindsPtr] ++ (writeUb4 m.numBinds ++
    ([m.byte 3, m.byte 4, m.byte 5, m.byte 6, m.byte 7] ++ ([m.byte 8] ++
      (writeUb4 (m.number 5) ++ (writeUb4 (m.number 6) ++
        ([m.byte 9, m.byte 10, m.byte 11] ++ (m.pair 12 ++ (writeUb4 (m.number 7) ++ (m.pair 13 ++
          (m.pair 14 ++ (m.pairs 15 ++ (m.pair 17 ++ writeUb4 (m.number 8))))))))))))))

/-- The text, and the thirteen numbers behind it. -/
def text : List UInt8 :=
  writeBytesWithLength (some (utf8Encode m.sql)) ++ (writeUb4 (m.number 9) ++
    (writeUb4 m.numIters ++ ((List.range 11).map fun i => m.number (18 + i)).flatMap writeUb4))

/-- The bytes of an Execute. -/
def bytes : List UInt8 :=
  (m.header ++ (m.prefetchBytes ++ (m.options ++ m.text))) ++
    (m.descriptors.flatMap BindDescriptor.bytes ++ (rowBytes m.rows ++ m.surplus))

/-- What is parsed of it, with the values of the rows. -/
def request (values : List (List BindValue)) : ExecuteRequest where
  sql := m.sql
  binds := values.headD []
  bindTypes := m.types
  prefetch := m.prefetch.toNat
  numIters := m.numIters.toNat
  bindRows := if 1 < m.numIters.toNat then values else []

end ExecuteMessage

/-! ### The preamble -/

lemma takes_bytes (bs : List UInt8) : Takes (times bs.length readU8) bs () := by
  induction bs with
  | nil => exact Fallible.takes_ret ()
  | cons b bs ih => exact (takes_u8 b).bind ih

lemma takes_numbers (vs : List UInt32) :
    Takes (times vs.length readUb4) (vs.flatMap writeUb4) () := by
  induction vs with
  | nil => exact Fallible.takes_ret ()
  | cons v vs ih => exact (takes_ub4 v).bind ih

section Preamble

variable (m : ExecuteMessage)

lemma takes_pair (i : ℕ) : Takes readUb4U8 (m.pair i) () :=
  (takes_ub4 _).bind (takes_u8 _).bind_ret

lemma takes_header : Takes readHeader m.header (some (utf8Encode m.sql).length) := by
  obtain ⟨hpos, hlt⟩ := m.sql_length
  have hlength : (UInt32.ofNat (utf8Encode m.sql).length).toNat = (utf8Encode m.sql).length :=
    UInt32.toNat_ofNat_of_lt' hlt
  have hsome : ¬ (m.sqlPtr = 0 ∨ (utf8Encode m.sql).length = 0) :=
    not_or.2 ⟨m.sqlPtr_ne, Nat.pos_iff_ne_zero.1 hpos⟩
  rw [readHeader, ExecuteMessage.header]
  refine (takes_u16Be _ _).bind ((takes_u8 _).bind ((takes_u8 _).bind ((takes_u8 _).bind
    ((takes_ub4 _).bind ((takes_ub4 _).bind ((takes_u8 _).bind ?_))))))
  intro rest
  rw [Fallible.bind_of_ok (takes_ub4 _ rest), hlength, if_neg hsome]
  rfl

lemma takes_prefetch : Takes readPrefetch m.prefetchBytes m.prefetch.toNat :=
  (takes_u8 _).bind ((takes_ub4 _).bind ((takes_u8 _).bind ((takes_u8 _).bind
    ((takes_ub4 _).bind (takes_ub4 _)))))

lemma takes_al8i4 (v : UInt32) (vs : List UInt32) (hvs : vs.length = 11) (numIters : UInt32) :
    Takes readAl8i4 (writeUb4 v ++ (writeUb4 numIters ++ vs.flatMap writeUb4)) numIters.toNat := by
  have hvalues := takes_numbers vs
  rw [hvs] at hvalues
  exact (takes_ub4 _).bind ((takes_ub4 _).bind hvalues.bind_ret)

lemma takes_pairs (i : ℕ) : Takes (times 2 readUb4U8) (m.pairs i) () := by
  have hfronts : ∀ front ∈ [m.pair i, m.pair (i + 1)], ∃ a, Takes readUb4U8 front a :=
    List.forall_mem_cons.2 ⟨⟨_, takes_pair m i⟩,
      List.forall_mem_singleton.2 ⟨_, takes_pair m (i + 1)⟩⟩
  have htimes := takes_times hfronts
  have hpairs : [m.pair i, m.pair (i + 1)].flatten = m.pairs i := by
    rw [List.flatten_cons, List.flatten_singleton, ExecuteMessage.pairs]
  rwa [hpairs] at htimes

/-- The text and the numbers behind it. -/
lemma takes_text : Takes (do
      match ← readBytesWithLength with
      | none => fail (.protocol "execute request omitted SQL text")
      | some bytes =>
        if bytes.length ≠ (utf8Encode m.sql).length then
          fail (.protocol "execute SQL length does not match header")
        else do
          let sql ← sqlText bytes
          let numIters ← readAl8i4
          ret (some ⟨sql, m.prefetch.toNat, numIters, m.bindsPtr, m.numBinds.toNat⟩) :
      Read (Option Preamble)) m.text
    (some ⟨m.sql, m.prefetch.toNat, m.numIters.toNat, m.bindsPtr, m.numBinds.toNat⟩) := by
  rw [ExecuteMessage.text]
  refine (takes_value _).bind ?_
  dsimp only
  rw [if_neg (not_not.2 rfl)]
  have hnumbers := takes_al8i4 (m.number 9) ((List.range 11).map fun i => m.number (18 + i)) rfl
    m.numIters
  exact (takes_sqlText m.sql).bind hnumbers.bind_ret

/-- **The preamble is read.** -/
lemma takes_preamble : Takes strictPreamble
    (m.header ++ (m.prefetchBytes ++ (m.options ++ m.text)))
    (some ⟨m.sql, m.prefetch.toNat, m.numIters.toNat, m.bindsPtr, m.numBinds.toNat⟩) := by
  have hfive : Takes (times 5 readU8) [m.byte 3, m.byte 4, m.byte 5, m.byte 6, m.byte 7] () :=
    takes_bytes [m.byte 3, m.byte 4, m.byte 5, m.byte 6, m.byte 7]
  have hthree : Takes (times 3 readU8) [m.byte 9, m.byte 10, m.byte 11] () :=
    takes_bytes [m.byte 9, m.byte 10, m.byte 11]
  rw [strictPreamble]
  refine (takes_header m).bind ((takes_prefetch m).bind ?_)
  rw [ExecuteMessage.options]
  simp only [List.append_assoc]
  exact (takes_ub4 _).bind ((takes_u8 _).bind ((takes_ub4 _).bind (hfive.bind ((takes_u8 _).bind
    ((takes_ub4 _).bind ((takes_ub4 _).bind (hthree.bind ((takes_pair m 12).bind
      ((takes_ub4 _).bind ((takes_pair m 13).bind ((takes_pair m 14).bind ((takes_pairs m 15).bind
        ((takes_pair m 17).bind ((takes_ub4 _).bind (takes_text m)))))))))))))))

end Preamble

/-! ### The values -/

section Values

variable (m : ExecuteMessage)

/-- What stands behind the first row marker, or nothing if there is none. -/
def behindMarker : List (List (Option (List UInt8))) → List UInt8 → List UInt8
  | [], _ => []
  | raws :: rows, surplus => valueBytes raws ++ (rowBytes rows ++ surplus)

/-- The descriptors are read up to the first row marker, whichever of the two readers finds it. -/
lemma strictDescriptors_marker : ∃ marked rest,
    strictDescriptors m.bindsPtr (m.descriptors.flatMap BindDescriptor.bytes ++
      (rowBytes m.rows ++ m.surplus)) = (.ok (m.types, marked), rest) ∧
    readMarker marked rest = (.ok (decide (m.rows ≠ [])), behindMarker m.rows m.surplus) := by
  have hnil := m.surplus_nil
  rw [strictDescriptors]
  by_cases hptr : m.bindsPtr = 0
  · -- there are no descriptors, and the marker is read behind them
    have hnone : m.descriptors = [] := by
      by_contra hne
      exact m.bindsPtr_ne hne hptr
    rw [if_neg (not_not.2 hptr), ExecuteMessage.types, hnone]
    refine ⟨false, _, rfl, ?_⟩
    cases hrows : m.rows with
    | nil =>
      rw [hnil hrows]
      rfl
    | cons raws rows =>
      rw [rowBytes, List.flatMap_cons, List.flatMap_nil, List.nil_append, List.cons_append,
        List.cons_append, List.append_assoc, readMarker,
        Fallible.bind_of_ok (recover_of_ok (readU8_cons _ _))]
      rfl
  · -- the marker ends the descriptors
    rw [if_pos hptr]
    cases hrows : m.rows with
    | nil =>
      rw [hnil hrows]
      exact ⟨false, [], descriptors_append m.types_ne m.descriptors_le (nextDescriptor_end []).2,
        rfl⟩
    | cons raws rows =>
      rw [rowBytes, List.flatMap_cons, List.cons_append, List.cons_append, List.append_assoc]
      exact ⟨true, _, descriptors_append m.types_ne m.descriptors_le (nextDescriptor_end _).1, rfl⟩

lemma skip_all (s : List UInt8) : skip s.length s = (.ok (), []) := by
  have hread := readBytesVec_append s []
  rw [List.append_nil] at hread
  exact Fallible.bind_of_ok hread

/-- The rows behind the first marker, as many as there are iterations. -/
lemma readIterations_rows {types : List UInt8} {raws : List (Option (List UInt8))}
    {rows : List (List (Option (List UInt8)))} {row : List BindValue}
    {values : List (List BindValue)} {numIters : ℕ}
    (hwidth : ∀ raws' ∈ raws :: rows, raws'.length = types.length)
    (h : RowsOf types (raws :: rows) (row :: values))
    (hcount : (raws :: rows).length = max numIters 1) (surplus : List UInt8)
    (capacities : List ℕ) :
    ∃ buf, readIterations false types numIters
        ⟨valueBytes raws ++ (rowBytes rows ++ surplus), capacities⟩ =
      (.ok (row, if 1 < numIters then row :: values else []), buf) := by
  obtain ⟨hfirst, hothers⟩ := List.forall_mem_cons.1 hwidth
  cases h with
  | cons hrow hrows =>
    have hread : reading (readRow types)
        ⟨valueBytes raws ++ (rowBytes rows ++ surplus), capacities⟩ =
          (.ok row, ⟨rowBytes rows ++ surplus, capacities⟩) :=
      reading_of_ok (takes_row hfirst hrow.1 _)
    have hskip : ∀ s capacities, reading (fun s => skip s.length s) ⟨s, capacities⟩ =
        (.ok (), ⟨[], capacities⟩) := fun s capacities => reading_of_ok (skip_all s)
    rw [readIterations, Fallible.bind_of_ok hread, allRows]
    rw [List.length_cons] at hcount
    split_ifs with hone
    · obtain ⟨capacities', hall⟩ := readRows_rowBytes hothers hrows surplus capacities
      have hlength : rows.length = numIters - 1 := by omega
      rw [hlength] at hall
      have hlater : (readRows false types (numIters - 1) >>= fun rows => ret (row :: rows))
          ⟨rowBytes rows ++ surplus, capacities⟩ = (.ok (row :: values), ⟨surplus, capacities'⟩) :=
        Fallible.bind_of_ok hall
      exact ⟨_, (Fallible.bind_of_ok hlater).trans (Fallible.bind_of_ok (hskip _ _))⟩
    · exact ⟨_, Fallible.bind_of_ok (hskip _ _)⟩

/-- The rows are those of the message. -/
lemma strictRows_marker {values : List (List BindValue)} (h : RowsOf m.types m.rows values)
    {marked : Bool} {rest : List UInt8}
    (hmarker : readMarker marked rest =
      (.ok (decide (m.rows ≠ [])), behindMarker m.rows m.surplus)) (capacities : List ℕ) :
    ∃ buf, strictRows ⟨m.sql, m.prefetch.toNat, m.numIters.toNat, m.bindsPtr, m.numBinds.toNat⟩
        m.types marked ⟨rest, capacities⟩ =
      (.ok (values.headD [], if 1 < m.numIters.toNat then values else []), buf) := by
  have hread : reading (readMarker marked) ⟨rest, capacities⟩ =
      (.ok (decide (m.rows ≠ [])), ⟨behindMarker m.rows m.surplus, capacities⟩) :=
    reading_of_ok hmarker
  have hlength : m.types.length = m.descriptors.length := List.length_map _
  rw [strictRows]
  cases hrows : m.rows with
  | nil =>
    rw [hrows] at h hread
    cases h
    split_ifs
    · exact ⟨_, rfl⟩
    · exact ⟨_, rfl⟩
    · exact ⟨_, Fallible.bind_of_ok hread⟩
    · exact ⟨_, Fallible.bind_of_ok hread⟩
  | cons raws rows =>
    have hne : m.rows ≠ [] := by
      rw [hrows]
      exact List.cons_ne_nil _ _
    have hbinds : m.numBinds.toNat ≠ 0 := fun hzero =>
      m.numBinds_ne hne (UInt32.toNat_inj.1 hzero)
    have hwidth := m.width
    have hcount := m.rows_length hne
    rw [← hlength, hrows] at hwidth
    rw [hrows] at h hcount hread
    cases values with
    | nil => cases h
    | cons row values =>
      obtain ⟨buf, hiterations⟩ := readIterations_rows hwidth h hcount m.surplus capacities
      rw [if_neg hbinds, Fallible.bind_of_ok hread]
      exact ⟨buf, hiterations⟩

/-- **An Execute is parsed into what it was written for**, if its values are of their types: the
text, the numbers, the types and all rows. -/
theorem execute_parsed {values : List (List BindValue)} (h : RowsOf m.types m.rows values) :
    (parseExecuteRequest m.bytes).1 = .ok (m.request values) := by
  obtain ⟨p, hp⟩ : ∃ p : Preamble,
    p = ⟨m.sql, m.prefetch.toNat, m.numIters.toNat, m.bindsPtr, m.numBinds.toNat⟩ := ⟨_, rfl⟩
  obtain ⟨marked, rest, hdescriptors, hmarker⟩ := strictDescriptors_marker m
  have hpreamble : reading strictPreamble (.fromSlice m.bytes) = (.ok (some p),
      ⟨m.descriptors.flatMap BindDescriptor.bytes ++ (rowBytes m.rows ++ m.surplus), []⟩) := by
    rw [hp]
    exact reading_of_ok (takes_preamble m _)
  have htypes : reading (strictDescriptors p.bindsPtr)
      ⟨m.descriptors.flatMap BindDescriptor.bytes ++ (rowBytes m.rows ++ m.surplus),
        [] ++ [p.numBinds]⟩ = (.ok (m.types, marked), ⟨rest, [] ++ [p.numBinds]⟩) := by
    rw [hp]
    exact reading_of_ok hdescriptors
  obtain ⟨buf, hrows⟩ := strictRows_marker m h hmarker ([] ++ [p.numBinds] ++ [p.numBinds])
  rw [← hp] at hrows
  have hstrict : parseExecuteStrict (.fromSlice m.bytes) = (.ok (m.request values), buf) := by
    rw [parseExecuteStrict, Fallible.bind_of_ok hpreamble]
    dsimp only
    rw [strictBinds, Fallible.bind_of_ok (withCapacity_eq _ _ _), strictValues,
      Fallible.bind_of_ok htypes]
    dsimp only
    rw [Fallible.bind_of_ok (withCapacity_eq _ _ _), Fallible.bind_of_ok hrows, hp]
    rfl
  rw [parseExecuteRequest, hstrict]

end Values

/-! ### A statement that is executed again -/

/-- A row marker among so many bytes. -/
def findMarker : ℕ → Read Bool
  | 0 => ret false
  | n + 1 => do
    match ← recover (fun _ => true) readU8 with
    | none => ret false
    | some b => if b = 7 then ret true else findMarker n

/-- The header of a message that executes a statement again, up to the number of rows. -/
def readReexecuteHeader : Read ℕ := do
  let _flags ← readU16Be
  let _msgType ← readU8
  let _function ← readU8
  let _seq ← readU8
  let _cursorId ← readUb4
  readUb4

/-- `parse_reexecute_request`: the text and the types are those of the statement. -/
def parseReexecuteRequest (sql : List Char) (types : List UInt8) : Parse ExecuteRequest := do
  let prefetch ← reading readReexecuteHeader
  withCapacity types.length
  if types = [] then ret ⟨sql, [], types, prefetch, 1, []⟩
  else do
    let found ← reading (findMarker 24)
    if found = true then do
      let binds ← reading (readRow types)
      ret ⟨sql, binds, types, prefetch, 1, []⟩
    else fail (.protocol "reexecute: no bind RowData marker")

/-- A message that executes a statement again, with values of such types. In front of the values
stand some options, none of which looks like a row marker. -/
structure ReexecuteMessage (types : List UInt8) where
  flag : UInt8
  flag' : UInt8
  function : UInt8
  seq : UInt8
  cursorId : UInt32
  prefetch : UInt32
  options : List UInt8
  raws : List (Option (List UInt8))
  surplus : List UInt8
  options_lt : options.length < 24
  options_ne : ∀ b ∈ options, b ≠ 7
  width : raws.length = types.length

namespace ReexecuteMessage

variable {types : List UInt8} (m : ReexecuteMessage types)

/-- The header. -/
def header : List UInt8 :=
  [m.flag, m.flag'] ++ ([0x03] ++ ([m.function] ++ ([m.seq] ++ (writeUb4 m.cursorId ++
    writeUb4 m.prefetch))))

/-- The bytes of the message. -/
def bytes : List UInt8 := m.header ++ (m.options ++ 7 :: (valueBytes m.raws ++ m.surplus))

end ReexecuteMessage

/-- The marker is found behind bytes that are none. -/
lemma findMarker_append {options : List UInt8} (h : ∀ b ∈ options, b ≠ 7) {n : ℕ}
    (hn : options.length < n) (rest : List UInt8) :
    findMarker n (options ++ 7 :: rest) = (.ok true, rest) := by
  induction options generalizing n with
  | nil =>
    obtain ⟨n, rfl⟩ := Nat.exists_eq_add_of_le' (Nat.one_le_of_lt hn)
    rw [List.nil_append, findMarker, Fallible.bind_of_ok (recover_of_ok (readU8_cons _ _))]
    rfl
  | cons b options ih =>
    obtain ⟨n, rfl⟩ := Nat.exists_eq_add_of_le' (Nat.one_le_of_lt hn)
    obtain ⟨hb, hoptions⟩ := List.forall_mem_cons.1 h
    rw [List.cons_append, findMarker, Fallible.bind_of_ok (recover_of_ok (readU8_cons _ _))]
    dsimp only
    rw [if_neg hb]
    exact ih hoptions (Nat.lt_of_succ_lt_succ hn)

/-- **A message that executes a statement again is parsed into its new values**, with the text and
the types of the statement. -/
theorem reexecute_parsed (sql : List Char) {types : List UInt8} (m : ReexecuteMessage types)
    {values : List BindValue} (h : decodeRow types m.raws = .ok values) :
    (parseReexecuteRequest sql types (.fromSlice m.bytes)).1 =
      .ok ⟨sql, values, types, m.prefetch.toNat, 1, []⟩ := by
  have hheader : Takes readReexecuteHeader m.header m.prefetch.toNat :=
    (takes_u16Be _ _).bind ((takes_u8 _).bind ((takes_u8 _).bind ((takes_u8 _).bind
      ((takes_ub4 _).bind (takes_ub4 _)))))
  have hread : reading readReexecuteHeader (.fromSlice m.bytes) = (.ok m.prefetch.toNat,
      ⟨m.options ++ 7 :: (valueBytes m.raws ++ m.surplus), []⟩) := reading_of_ok (hheader _)
  rw [parseReexecuteRequest, Fallible.bind_of_ok hread,
    Fallible.bind_of_ok (withCapacity_eq _ _ _)]
  by_cases hnil : types = []
  · have hvalues : values = [] := by
      subst hnil
      exact (Except.ok.inj h).symm
    rw [hvalues, if_pos hnil]
    rfl
  · have hmarker : ∀ capacities, reading (findMarker 24)
        ⟨m.options ++ 7 :: (valueBytes m.raws ++ m.surplus), capacities⟩ =
          (.ok true, ⟨valueBytes m.raws ++ m.surplus, capacities⟩) := fun _ =>
      reading_of_ok (findMarker_append m.options_ne m.options_lt _)
    have hrow : ∀ capacities, reading (readRow types)
        ⟨valueBytes m.raws ++ m.surplus, capacities⟩ = (.ok values, ⟨m.surplus, capacities⟩) :=
      fun _ => reading_of_ok (takes_row m.width h _)
    rw [if_neg hnil, Fallible.bind_of_ok (hmarker _), if_pos rfl]
    exact congrArg Prod.fst (Fallible.bind_of_ok (hrow _))

end DbSaci.Wire
