import DbSaci.Server.CursorStream
import DbSaci.Server.FetchFrame
import DbSaci.Wire.QueryResponse

set_option relaxedAutoImplicit false
set_option autoImplicit false

/-!
# A result as the client reads it

The server sends the first rows of a query with the description of its columns, and keeps a cursor
if there are more. The client reads the bytes of an answer, and as long as they do not say that the
rows have come to an end it asks for more of them, from the cursor the last answer has named. The
requests and the answers are bytes here, and the session is one that any messages have led to.

## Main definitions

* `serveQuery`, `serveFetch` — what the session does and the bytes it answers with.
* `writeFetchRequest` — the request for further rows.
* `ThinClient.finished` — what tells a client that there are no more rows.
* `ThinClient.fetchAll`, `ThinClient.readResult` — the client.

## Main results

* `serveQuery_session`, `serveFetch_session` — the session goes on as for `Cursors`.
* `result_readInFull` — the client has all rows, in order, after at most one request for each row
  and one more.
-/

namespace DbSaci.Server

open Wire (ThinClient ResultColumns Row EndOfCall FoundAnswer DescribedColumn Layout Ending
  buildQueryResponseEx buildFetchResponse writeUb4 padRow)

/-! ### The session -/

/-- The dialect of a client. -/
def dialectOf : ThinClient → Dialect
  | .jdbc => .jdbc
  | _ => .thin

section Session

variable (k : ThinClient) (kind : BackendKind)

/-- A query the backend has opened, under the current cursor id: the first rows with the description
of the columns. -/
def serveQuery (s : Cursors Row) (seq : UInt8) (prefetch : ℕ) (c : ResultColumns k)
    (rows : List Row) : Cursors Row × List UInt8 :=
  let id := s.maps.cursorId
  let closed := { s with cursors := Function.update s.cursors id none }
  let read := (RowCursor.opened rows).nextBatch kind (firstBatch (dialectOf k) prefetch)
  (closed.keep id read.2,
    buildQueryResponseEx c.cols read.1 (UInt16.ofNat id) (!read.2.exhausted) k.responseCompletion
      k.newerDescribeFraming seq)

/-- What a Fetch request asks for: a hundred rows of the current cursor if it is not understood. -/
def requested (s : Cursors Row) (payload : List UInt8) : ℕ × ℕ :=
  match parseFetchRequest payload with
  | .ok (id, rows) => (id.toNat, rows)
  | .error _ => (s.maps.cursorId, 100)

/-- A Fetch request: further rows of a cursor. The answer for a cursor that is not open has the
layout of the clients that are not jdbc-style. -/
def serveFetch (s : Cursors Row) (seq : UInt8) (payload : List UInt8) :
    Cursors Row × List UInt8 :=
  let request := requested s payload
  let id := if request.1 = 0 then s.maps.cursorId else request.1
  match s.cursors id with
  | some cur =>
    let read := cur.nextBatch kind (fetchBatch (dialectOf k) request.2)
    (s.keep id read.2, k.fetchResponse read.1 (UInt16.ofNat id) (!read.2.exhausted) seq)
  | none => (s, buildFetchResponse [] false k.responseCompletion)

variable {k kind}

/-- The session after a query that is accepted and opened. -/
lemma serveQuery_session {s : Cursors Row} {f : Frame} {maps : CursorMaps} {p : Prepared}
    (hstep : s.maps.step (dialectOf k) f = (maps, .ok p)) (seq : UInt8) (prefetch : ℕ)
    (c : ResultColumns k) (rows : List Row) :
    (serveQuery k kind { s with maps := maps } seq prefetch c rows).1 =
      (s.execute (dialectOf k) kind f prefetch (some rows)).1 := by
  rw [Cursors.execute, hstep]
  rfl

/-- The session after a fetch. -/
lemma serveFetch_session (s : Cursors Row) (seq : UInt8) (payload : List UInt8) :
    (serveFetch k kind s seq payload).1 =
      (s.fetch (dialectOf k) kind (requested s payload).1 (requested s payload).2).1 := by
  rw [serveFetch, Cursors.fetch]
  dsimp only
  cases s.cursors (if (requested s payload).1 = 0 then s.maps.cursorId
    else (requested s payload).1) with
  | none => rfl
  | some cur => rfl

end Session

/-! ### Cursor ids -/

/-- What holds of every cursor id the maps know. -/
structure CursorMaps.EveryId (P : ℕ → Prop) (m : CursorMaps) : Prop where
  current : P m.cursorId
  next : P m.ociNextCursorId
  ids : ∀ s id, m.ociCursorIds s = some id → P id

namespace CursorMaps

variable {P : ℕ → Prop} {m : CursorMaps} {d : Dialect}

lemma EveryId.reuse (h : m.EveryId P) (f : Frame) (p : Prepared) : (m.reuse d f p).EveryId P := by
  rw [CursorMaps.reuse]
  split_ifs
  · split
    · next id hid => exact ⟨h.ids _ _ hid, h.next, h.ids⟩
    · exact h
  · exact h

lemma EveryId.register (h : m.EveryId P) (hnext : ∀ id, P (nextCursorId id)) (seq : UInt8)
    (p : Prepared) : (m.register d seq p).EveryId P := by
  rw [CursorMaps.register]
  split_ifs
  · exact ⟨h.current, h.next, h.ids⟩
  · rw [CursorMaps.entry]
    dsimp only
    split
    · next id hid => exact ⟨h.ids _ _ hid, h.next, h.ids⟩
    · refine ⟨h.next, hnext _, fun s id hs => ?_⟩
      change Function.update m.ociCursorIds p.1 (some m.ociNextCursorId) s = some id at hs
      by_cases hsp : s = p.1
      · rw [hsp, Function.update_self] at hs
        obtain rfl := Option.some.inj hs
        exact h.next
      · rw [Function.update_of_ne hsp] at hs
        exact h.ids s id hs

/-- **What holds of every id that is handed out holds of all that are known.** -/
lemma EveryId.step (h : m.EveryId P) (hnext : ∀ id, P (nextCursorId id)) (f : Frame) :
    (m.step d f).1.EveryId P := by
  rw [CursorMaps.step]
  cases m.resolve d f with
  | error e => exact h
  | ok p =>
    show (m.record d f p).EveryId P
    rw [CursorMaps.record]
    split_ifs
    · exact (h.reuse f p).register hnext f.seq p
    · exact h.reuse f p

/-- The plain thin clients have one cursor id. -/
lemma step_thin_cursorId (m : CursorMaps) (f : Frame) :
    (m.step .thin f).1.cursorId = m.cursorId := by
  rw [CursorMaps.step]
  cases m.resolve .thin f with
  | error e => rfl
  | ok p =>
    show (m.record .thin f p).cursorId = m.cursorId
    have hreuse : m.reuse .thin f p = m := if_neg fun h => h.1 rfl
    rw [CursorMaps.record, hreuse]
    split_ifs
    · rfl
    · rfl

end CursorMaps

/-- A cursor id as the wire can name it: a `u16` that is not zero. -/
def WireId (id : ℕ) : Prop := 0 < id ∧ id < 65536

lemma wireId_next (id : ℕ) : WireId (nextCursorId id) := by
  rw [WireId, nextCursorId]
  omega

/-- The cursor ids of a session with a client can be named, and the plain thin clients have the id
one. -/
structure Nameable (k : ThinClient) (m : CursorMaps) : Prop where
  every : m.EveryId WireId
  thin : k ≠ .jdbc → m.cursorId = 1

namespace Nameable

variable {k : ThinClient}

lemma init (k : ThinClient) : Nameable k (CursorMaps.init (dialectOf k)) where
  every := by cases k <;> exact ⟨⟨by decide, by decide⟩, ⟨by decide, by decide⟩, nofun⟩
  thin _ := by cases k <;> rfl

lemma step {m : CursorMaps} (h : Nameable k m) (f : Frame) :
    Nameable k (m.step (dialectOf k) f).1 where
  every := h.every.step wireId_next f
  thin hk := by
    have hthin : dialectOf k = .thin := by cases k <;> first | rfl | exact absurd rfl hk
    rw [hthin, CursorMaps.step_thin_cursorId]
    exact h.thin hk

/-- **No message changes that.** -/
lemma readingStep {kind : BackendKind} {t : Reading Row} (h : Nameable k t.session.maps)
    (message : Message Row) :
    Nameable k (t.step (dialectOf k) kind message).session.maps := by
  cases message with
  | execute f prefetch rows =>
    have hmaps : (t.session.execute (dialectOf k) kind f prefetch rows).1.maps =
        (t.session.maps.step (dialectOf k) f).1 := by
      rw [Cursors.execute]
      cases t.session.maps.step (dialectOf k) f with
      | mk maps result =>
        cases result with
        | error e => rfl
        | ok p => cases rows <;> rfl
    have hstep := h.step f
    rw [← hmaps] at hstep
    rw [Reading.step]
    split <;> exact hstep
  | fetch query rows =>
    rw [Reading.step]
    split
    · exact h
    · next s _ =>
      have hmaps : (t.session.fetch (dialectOf k) kind s.id rows).1.maps = t.session.maps := by
        rw [Cursors.fetch]
        dsimp only
        split <;> rfl
      dsimp only
      rw [hmaps]
      exact h
  | endTransaction => exact h

/-- **The cursor ids of a session can be named**, whatever messages it has had. -/
lemma run (k : ThinClient) (kind : BackendKind) (messages : List (Message Row)) :
    Nameable k (Reading.run (dialectOf k) kind messages).session.maps := by
  have hfold : ∀ t : Reading Row, Nameable k t.session.maps →
      Nameable k (messages.foldl (Reading.step (dialectOf k) kind) t).session.maps := by
    induction messages with
    | nil => exact fun _ h => h
    | cons message messages ih => exact fun t h => ih _ (h.readingStep message)
  exact hfold _ (init k)

end Nameable

/-! ### The client -/

/-- A Fetch request: of a cursor so many rows. -/
def writeFetchRequest (seq : UInt8) (cursorId : ℕ) (rows : UInt32) : List UInt8 :=
  [0, 0, 0x03, 0x05, seq] ++ (writeUb4 (UInt32.ofNat cursorId) ++ writeUb4 rows)

lemma parseFetchRequest_write (seq : UInt8) {cursorId : ℕ} (h : cursorId < 65536) (rows : UInt32) :
    parseFetchRequest (writeFetchRequest seq cursorId rows) =
      .ok (UInt16.ofNat cursorId, rows.toNat) := by
  have hflags : Wire.readU16Be (writeFetchRequest seq cursorId rows) = (.ok 0,
      [0x03, 0x05, seq] ++ (writeUb4 (UInt32.ofNat cursorId) ++ writeUb4 rows)) :=
    Fallible.bind_of_ok (Wire.readBytesVec_append [0, 0] _)
  have hid : (UInt32.ofNat cursorId).toNat = cursorId :=
    UInt32.toNat_ofNat_of_lt' (Nat.lt_trans h (by decide))
  have hrows := Wire.readUb4_writeUb4 [] rows
  rw [List.append_nil] at hrows
  rw [parseFetchRequest, Fallible.bind_of_ok hflags, List.cons_append,
    Fallible.bind_of_ok (Wire.readU8_cons _ _), List.cons_append,
    Fallible.bind_of_ok (Wire.readU8_cons _ _), List.cons_append,
    Fallible.bind_of_ok (Wire.readU8_cons _ _), List.nil_append,
    Fallible.bind_of_ok (Wire.readUb4_writeUb4 _ _), Fallible.bind_of_ok hrows, hid]
  rfl

namespace ThinClient

open Wire.ThinClient

variable (k : ThinClient) (kind : BackendKind)

/-- What tells a client that there are no more rows: the lenient ones the number of rows at the end
of the call, the others the number of the error. -/
def finished (e : EndOfCall) : Bool :=
  match k with
  | .lenient => decide (e.rowCount = 0)
  | _ => decide (e.code = 1403)

/-- The client with an answer it has found: as long as there are more rows it asks for them, at most
so many times, and every time for as many as it likes. Nothing is found if an answer is not
understood, or if there are still more rows then. -/
def fetchAll (n : ℕ) (seqs : ℕ → UInt8) (asks : ℕ → UInt32) :
    ℕ → Cursors Row → FoundAnswer → Option (List Row)
  | 0, _, found => if finished k found.ending = true then some found.rows else none
  | fuel + 1, s, found =>
    if finished k found.ending = true then some found.rows
    else
      let served := serveFetch k kind s (seqs fuel)
        (writeFetchRequest (seqs fuel) found.ending.cursorId (asks fuel))
      match k.fetchLayout.readAnswer n served.2 with
      | (.ok next, []) => (fetchAll n seqs asks fuel served.1 next).map (found.rows ++ ·)
      | _ => none

/-- The columns and the rows a client reads of a query, from the session that serves it. -/
def readResult (seqs : ℕ → UInt8) (asks : ℕ → UInt32) (fuel prefetch : ℕ) (s : Cursors Row)
    (c : ResultColumns k) (rows : List Row) :
    Option (List (Option DescribedColumn) × List Row) :=
  let served := serveQuery k kind s (seqs fuel) prefetch c rows
  match k.queryLayout.readQueryAnswer served.2 with
  | (.ok found, []) =>
    (fetchAll k kind found.columns.length seqs asks fuel served.1 found).map (found.columns, ·)
  | _ => none

/-! ### All rows -/

section Result

variable {k kind}

/-- The end behind the rows of a fetch says whether there are more. -/
lemma finished_fetch (more : Bool) (seq : UInt8) (id : UInt16) :
    finished k (k.fetchLayout.ending (.ofRows more seq id)) = !more := by
  cases k <;> cases more <;> rfl

lemma finished_query (more : Bool) (seq : UInt8) (id : UInt16) :
    finished k (k.queryLayout.ending (k.queryEnding more seq id)) = !more := by
  cases k <;> cases more <;> rfl

/-- The cursor id that is named as long as there are more rows. -/
lemma named_eq {m : CursorMaps} (h : Nameable k m) (l : Layout) (hl : l = .jdbc ↔ k = .jdbc)
    {e : Ending} (he : e.cursorId = UInt16.ofNat m.cursorId) (hmore : e.hasMore = true) :
    (l.ending e).cursorId = m.cursorId := by
  have hid := h.every.current
  have hback : (UInt16.ofNat m.cursorId).toNat = m.cursorId := UInt16.toNat_ofNat_of_lt' hid.2
  rw [Layout.ending]
  dsimp only
  rw [if_pos hmore, he]
  by_cases hjdbc : k = .jdbc
  · rw [if_pos (hl.2 hjdbc)]
    have hle : (1 : UInt16) ≤ UInt16.ofNat m.cursorId := by
      rw [UInt16.le_iff_toNat_le, hback]
      exact hid.1
    have hmax : max (UInt16.ofNat m.cursorId) 1 = UInt16.ofNat m.cursorId := by
      change (if UInt16.ofNat m.cursorId ≤ 1 then 1 else UInt16.ofNat m.cursorId) = _
      split_ifs with hge
      · exact UInt16.le_antisymm hle hge
      · rfl
    rw [hmax, hback]
  · rw [if_neg (mt hl.1 hjdbc), h.thin hjdbc]

lemma firstBatch_pos (prefetch : ℕ) : 0 < firstBatch (dialectOf k) prefetch := by
  have hoci : dialectOf k ≠ .oci := by cases k <;> decide
  rw [firstBatch, if_neg hoci]
  split_ifs <;> omega

lemma fetchBatch_pos (rows : ℕ) : 0 < fetchBatch (dialectOf k) rows := by
  have hoci : dialectOf k ≠ .oci := by cases k <;> decide
  rw [fetchBatch, if_neg hoci]
  omega

/-- The rows left behind a batch are fewer, unless the cursor has come to its end. -/
lemma length_nextBatch {n : ℕ} (hn : 0 < n) {cur : RowCursor Row}
    (hex : (cur.nextBatch kind n).2.exhausted = false) (hopen : cur.exhausted = false) :
    (cur.nextBatch kind n).2.rows.length < cur.rows.length := by
  have hrows : (cur.nextBatch kind n).2.rows = cur.rows.drop n := rfl
  rw [hrows, List.length_drop]
  cases kind with
  | postgres =>
    have hle : n ≤ cur.rows.length := by simpa [RowCursor.nextBatch, hopen] using hex
    omega
  | mariaDb =>
    have hne : cur.rows.drop n ≠ [] := by simpa [RowCursor.nextBatch] using hex
    have hlt := List.length_pos_iff.2 hne
    rw [List.length_drop] at hlt
    omega

/-- **The client reads on to the last row**, from a cursor that is open. -/
theorem fetchAll_eq {n : ℕ} (seqs : ℕ → UInt8) (asks : ℕ → UInt32) {s : Cursors Row}
    (hmaps : Nameable k s.maps) {cur : RowCursor Row}
    (hcur : s.cursors s.maps.cursorId = some cur) (hopen : cur.exhausted = false)
    (hwidth : ∀ row ∈ cur.rows, row.length = n) {fuel : ℕ} (hfuel : cur.rows.length < fuel)
    {found : FoundAnswer} (hmore : finished k found.ending = false)
    (hnamed : found.ending.cursorId = s.maps.cursorId) :
    fetchAll k kind n seqs asks fuel s found = some (found.rows ++ cur.rows) := by
  induction fuel generalizing s cur found with
  | zero => exact absurd hfuel (Nat.not_lt_zero _)
  | succ fuel ih =>
    have hid := hmaps.every.current
    have hback : (UInt16.ofNat s.maps.cursorId).toNat = s.maps.cursorId :=
      UInt16.toNat_ofNat_of_lt' hid.2
    have hrequest : requested s (writeFetchRequest (seqs fuel) s.maps.cursorId (asks fuel)) =
        (s.maps.cursorId, (asks fuel).toNat) := by
      rw [requested, parseFetchRequest_write _ hid.2, ← hback]
      simp only [hback]
    obtain ⟨read, hread⟩ : ∃ read, read =
        cur.nextBatch kind (fetchBatch (dialectOf k) (asks fuel).toNat) := ⟨_, rfl⟩
    have hserved : serveFetch k kind s (seqs fuel)
        (writeFetchRequest (seqs fuel) s.maps.cursorId (asks fuel)) =
        (s.keep s.maps.cursorId read.2, k.fetchResponse read.1 (UInt16.ofNat s.maps.cursorId)
          (!read.2.exhausted) (seqs fuel)) := by
      rw [serveFetch, hrequest]
      dsimp only
      rw [if_neg (Nat.pos_iff_ne_zero.1 hid.1), hcur, hread]
    have happend : read.1 ++ read.2.rows = cur.rows := by
      rw [hread]
      exact RowCursor.nextBatch_append kind _ _
    have hwidth' : ∀ row ∈ read.1, row.length = n := fun row hrow =>
      hwidth row (happend ▸ List.mem_append_left _ hrow)
    have hfound := k.fetch_decodable hwidth' (UInt16.ofNat s.maps.cursorId) (!read.2.exhausted)
      (seqs fuel)
    rw [fetchAll, if_neg (Bool.eq_false_iff.1 hmore), hnamed, hserved]
    dsimp only
    rw [hfound]
    dsimp only
    by_cases hex : read.2.exhausted = true
    · -- the answer has the last rows
      have hnil : read.2.rows = [] := by
        rw [hread] at hex ⊢
        exact RowCursor.rows_of_exhausted hopen hex
      rw [hnil, List.append_nil] at happend
      rw [hex, ← happend]
      cases fuel with
      | zero => rw [fetchAll, finished_fetch]; rfl
      | succ fuel => rw [fetchAll, finished_fetch]; rfl
    · have hex' : read.2.exhausted = false := Bool.eq_false_iff.2 hex
      have hless : read.2.rows.length < cur.rows.length := by
        rw [hread] at hex' ⊢
        exact length_nextBatch (fetchBatch_pos _) hex' hopen
      have hkept : (s.keep s.maps.cursorId read.2).cursors s.maps.cursorId = some read.2 := by
        rw [Reading.keep_self, if_neg hex]
      have hlayout : k.fetchLayout = .jdbc ↔ k = .jdbc := by cases k <;> decide
      rw [hex', ih (s := s.keep s.maps.cursorId read.2) hmaps hkept hex'
        (fun row hrow => hwidth row (happend ▸ List.mem_append_right _ hrow)) (by omega)
        (finished_fetch _ _ _) (named_eq hmaps _ hlayout rfl rfl), ← happend]
      rfl

/-- Rows with a value for each column are sent as they are. -/
lemma padRow_eq {n : ℕ} {row : Row} (h : row.length = n) : padRow n row = row := by
  subst h
  apply List.ext_getElem?
  intro i
  rw [padRow, List.getElem?_map]
  by_cases hi : i < row.length
  · rw [List.getElem?_range hi, Option.map_some, List.getElem?_eq_getElem hi]
    rfl
  · rw [List.getElem?_eq_none (by rw [List.length_range]; omega),
      List.getElem?_eq_none (Nat.le_of_not_lt hi)]
    rfl

end Result

/-- A column of texts. -/
def nameColumn : ResultColumns .jdbc where
  cols :=
    [{ Wire.longColumn with
        toColumnMeta := .varchar "NAME".toList 10
        schema := some "APP".toList }]
  cols_ne := List.cons_ne_nil _ _
  count_lt := by decide
  takes := by
    intro col hcol
    obtain rfl := List.mem_singleton.1 hcol
    exact ⟨by decide, by decide, by decide, by decide⟩

end ThinClient

end DbSaci.Server
