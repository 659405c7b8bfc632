import DbSaci.Server.Cursors

set_option relaxedAutoImplicit false
set_option autoImplicit false

/-!
# The rows a client reads from a cursor

A client reads the rows of a query with the answer to its Execute and then with fetches from the
cursor that was announced. It gets them all, and none of another query, as long as no other query
has been given the same cursor id and the transaction has not ended.

## Main definitions

* `Stream` — what a client has read of a query whose cursor was announced.
* `Client.step` — the messages of a client.
* `StreamsFaithful` — of every query the rows were read from the first one on.
* `Current` — a fetch reads from the cursor of its query.

## Main results

* `streamsFaithful_of_current` — runs whose fetches are current.
* `secondQuery_not_faithful` — a thin client with two open queries, and a `COMMIT` in between.
-/

namespace DbSaci.Server

variable {ρ : Type}

/-- A query whose answer announced a cursor. -/
structure Stream (ρ : Type) where
  /-- The cursor id that was announced. -/
  id : ℕ
  /-- The rows of the query. -/
  rows : List ρ
  /-- The rows that were sent for it. -/
  sent : List ρ
  /-- The end of the rows was reported. -/
  ended : Bool
  /-- No query has been given the id since, and the transaction goes on. -/
  live : Bool
  deriving DecidableEq, Repr

/-- A session, and the queries whose cursors were announced in it. -/
structure Reading (ρ : Type) where
  session : Cursors ρ
  streams : List (Stream ρ)

/-- The messages of a client. A fetch is addressed to one of the queries whose cursors were
announced. -/
inductive Message (ρ : Type)
  | execute (f : Frame) (prefetch : ℕ) (rows : Option (List ρ))
  | fetch (query rows : ℕ)
  | endTransaction

namespace Reading

/-- A session at its start. -/
def init (d : Dialect) : Reading ρ := ⟨Cursors.init d, []⟩

/-- The queries with a cursor id are superseded. -/
def supersede (id : ℕ) (streams : List (Stream ρ)) : List (Stream ρ) :=
  streams.map fun s => if s.id = id then { s with live := false } else s

/-- The answer to an Execute: a query whose cursor is announced. -/
def announced (rows : Option (List ρ)) : Answer ρ → List (Stream ρ)
  | .rows batch (some id) => [⟨id, rows.getD [], batch, false, true⟩]
  | .rows _ none => []
  | .error => []

/-- The answer to a fetch for a query. -/
def Stream.receive (s : Stream ρ) : Answer ρ → Stream ρ
  | .rows batch more => { s with sent := s.sent ++ batch, ended := s.ended || more.isNone }
  | .error => s

variable (d : Dialect) (kind : BackendKind)

/-- What a message does. -/
def step (t : Reading ρ) : Message ρ → Reading ρ
  | .execute f prefetch rows =>
    match t.session.maps.step d f with
    | (_, .error _) =>
      { t with session := (t.session.execute d kind f prefetch rows).1 }
    | (maps, .ok _) =>
      { session := (t.session.execute d kind f prefetch rows).1
        streams := supersede maps.cursorId t.streams ++
          announced rows (t.session.execute d kind f prefetch rows).2 }
  | .fetch query rows =>
    match t.streams[query]? with
    | none => t
    | some s =>
      { session := (t.session.fetch d kind s.id rows).1
        streams := t.streams.set query (Stream.receive s (t.session.fetch d kind s.id rows).2) }
  | .endTransaction =>
    { session := t.session.endTransaction
      streams := t.streams.map fun s => { s with live := false } }

/-- A run. -/
def run (messages : List (Message ρ)) : Reading ρ := messages.foldl (step d kind) (init d)

/-- Of every query the rows that were sent are its first ones, and its end was only reported when
they are all of them. -/
def StreamsFaithful (t : Reading ρ) : Prop :=
  ∀ s ∈ t.streams, s.sent <+: s.rows ∧ (s.ended = true → s.sent = s.rows)

/-- A fetch is for a query that is not superseded; or its rows have all been sent, and no cursor is
open under its id. -/
def Current (t : Reading ρ) : Message ρ → Prop
  | .fetch query _ => ∀ s ∈ t.streams[query]?,
    s.live = true ∨ (s.sent = s.rows ∧ t.session.cursors s.id = none)
  | .execute _ _ _ | .endTransaction => True

/-- All fetches of a run are current. -/
def RunCurrent : Reading ρ → List (Message ρ) → Prop
  | _, [] => True
  | t, m :: messages => t.Current m ∧ RunCurrent (t.step d kind m) messages

/-! ### The invariant -/

/-- The maps hold no id zero. -/
structure Positive (m : CursorMaps) : Prop where
  current : m.cursorId ≠ 0
  next : m.ociNextCursorId ≠ 0
  ids : ∀ s id, m.ociCursorIds s = some id → id ≠ 0

/-- A query that is not superseded goes on with the cursor under its id. -/
def Attached (c : Cursors ρ) (s : Stream ρ) : Prop :=
  match c.cursors s.id with
  | some cur => s.sent ++ cur.rows = s.rows
  | none => s.sent = s.rows

/-- Queries that are not superseded have cursors of their own. -/
def Apart (streams : List (Stream ρ)) : Prop :=
  streams.Pairwise fun s s' => s.live = true → s'.live = true → s.id ≠ s'.id

/-- What holds in every state of a run whose fetches are current. -/
structure Inv (t : Reading ρ) : Prop where
  positive : Positive t.session.maps
  opened : ∀ id, ∀ cur ∈ t.session.cursors id, cur.exhausted = false
  nonzero : ∀ s ∈ t.streams, s.id ≠ 0
  attached : ∀ s ∈ t.streams, s.live = true → Attached t.session s
  apart : Apart t.streams
  faithful : t.StreamsFaithful

lemma nextCursorId_ne_zero (id : ℕ) : nextCursorId id ≠ 0 := by
  rw [nextCursorId]
  omega

/-- No message brings an id zero. -/
lemma step_positive {m : CursorMaps} (h : Positive m) (f : Frame) : Positive (m.step d f).1 := by
  have hreuse : ∀ p, Positive (m.reuse d f p) := by
    intro p
    rw [CursorMaps.reuse]
    split_ifs
    · split
      · next id hid => exact ⟨h.ids _ _ hid, h.next, h.ids⟩
      · exact h
    · exact h
  have hregister : ∀ (m : CursorMaps) p, Positive m → Positive (m.register d f.seq p) := by
    intro m p h
    rw [CursorMaps.register]
    split_ifs with hd
    · exact ⟨h.current, h.next, h.ids⟩
    · rw [CursorMaps.entry]
      dsimp only
      split
      · next id hid => exact ⟨h.ids _ _ hid, h.next, h.ids⟩
      · refine ⟨h.next, nextCursorId_ne_zero _, fun s id hs => ?_⟩
        change Function.update m.ociCursorIds p.1 (some m.ociNextCursorId) s = some id at hs
        by_cases hsp : s = p.1
        · rw [hsp, Function.update_self] at hs
          obtain rfl := Option.some.inj hs
          exact h.next
        · rw [Function.update_of_ne hsp] at hs
          exact h.ids s id hs
  rw [CursorMaps.step]
  cases m.resolve d f with
  | error e => exact h
  | ok p =>
    show Positive (if f.func = .execute ∧ p.1 ≠ "" then (m.reuse d f p).register d f.seq p
      else m.reuse d f p)
    split_ifs
    · exact hregister _ p (hreuse p)
    · exact hreuse p

/-! ### Steps -/

section Steps

variable {d kind} {t : Reading ρ}

/-- The cursor under another id stays. -/
lemma keep_of_ne (c : Cursors ρ) {id id' : ℕ} (h : id' ≠ id) (cur : RowCursor ρ) :
    (c.keep id cur).cursors id' = c.cursors id' := Function.update_of_ne h _ _

/-- The cursor that was read stays open until its end. -/
lemma keep_self (c : Cursors ρ) (id : ℕ) (cur : RowCursor ρ) :
    (c.keep id cur).cursors id = if cur.exhausted = true then none else some cur :=
  Function.update_self ..

lemma keep_opened {c : Cursors ρ} (h : ∀ id, ∀ cur ∈ c.cursors id, cur.exhausted = false)
    (id : ℕ) (cur : RowCursor ρ) :
    ∀ id', ∀ cur' ∈ (c.keep id cur).cursors id', cur'.exhausted = false := by
  intro id' cur' hcur'
  by_cases hid : id' = id
  · rw [hid, keep_self] at hcur'
    split_ifs at hcur' with hex
    · cases hcur'
    · obtain rfl := Option.some.inj hcur'
      exact Bool.eq_false_iff.2 hex
  · rw [keep_of_ne c hid] at hcur'
    exact h id' cur' hcur'

/-- What is left of the queries with other cursor ids. -/
lemma mem_supersede {id : ℕ} {streams : List (Stream ρ)} {s : Stream ρ}
    (h : s ∈ supersede id streams) : ∃ s' ∈ streams, s.id = s'.id ∧ s.rows = s'.rows ∧
      s.sent = s'.sent ∧ s.ended = s'.ended ∧ (s.live = true → s = s' ∧ s.id ≠ id) := by
  obtain ⟨s', hs', rfl⟩ := List.mem_map.1 h
  refine ⟨s', hs', ?_⟩
  split_ifs with hid
  · exact ⟨rfl, rfl, rfl, rfl, fun h => by cases h⟩
  · exact ⟨rfl, rfl, rfl, rfl, fun _ => ⟨rfl, hid⟩⟩

lemma supersede_apart {id : ℕ} {streams : List (Stream ρ)} (h : Apart streams) :
    Apart (supersede id streams) := by
  rw [Apart, supersede, List.pairwise_map]
  refine h.imp fun {s s'} hss' hs hs' => ?_
  split_ifs at hs hs' ⊢
  exact hss' hs hs'

/-- The queries that were there are as before, or superseded. -/
lemma supersede_inv (h : t.Inv) {maps : CursorMaps} (hmaps : Positive maps)
    {c : Cursors ρ} (hc : ∀ id', id' ≠ maps.cursorId → c.cursors id' = t.session.cursors id')
    (hopen : ∀ id, ∀ cur ∈ c.cursors id, cur.exhausted = false) (hcmaps : c.maps = maps) :
    Inv ⟨c, supersede maps.cursorId t.streams⟩ where
  positive := by rw [hcmaps]; exact hmaps
  opened := hopen
  nonzero s hs := by
    obtain ⟨s', hs', hid, -⟩ := mem_supersede hs
    rw [hid]
    exact h.nonzero s' hs'
  attached s hs hlive := by
    obtain ⟨s', hs', -, -, -, -, himp⟩ := mem_supersede hs
    obtain ⟨rfl, hid⟩ := himp hlive
    have := h.attached s hs' hlive
    rw [Attached] at this ⊢
    rw [hc s.id hid]
    exact this
  apart := supersede_apart h.apart
  faithful s hs := by
    obtain ⟨s', hs', -, hrows, hsent, hended, -⟩ := mem_supersede hs
    rw [hrows, hsent, hended]
    exact h.faithful s' hs'

/-- A query is executed. -/
lemma execute_inv (h : t.Inv) (f : Frame) (prefetch : ℕ) (rows : Option (List ρ)) :
    (t.step d kind (.execute f prefetch rows)).Inv := by
  have hpos := step_positive d h.positive f
  rw [step, Cursors.execute]
  cases hstep : t.session.maps.step d f with
  | mk maps result =>
    rw [hstep] at hpos
    cases result with
    | error e => exact ⟨hpos, h.opened, h.nonzero, h.attached, h.apart, h.faithful⟩
    | ok p =>
      have hothers : ∀ id', id' ≠ maps.cursorId →
          Function.update t.session.cursors maps.cursorId none id' = t.session.cursors id' :=
        fun id' hid => Function.update_of_ne hid _ _
      have hopen : ∀ id, ∀ cur ∈ Function.update t.session.cursors maps.cursorId none id,
          cur.exhausted = false := by
        intro id cur hcur
        by_cases hid : id = maps.cursorId
        · rw [hid, Function.update_self] at hcur
          cases hcur
        · rw [hothers id hid] at hcur
          exact h.opened id cur hcur
      cases rows with
      | none =>
        show Inv ⟨_, supersede maps.cursorId t.streams ++ []⟩
        rw [List.append_nil]
        exact supersede_inv h hpos hothers hopen rfl
      | some rows =>
        obtain ⟨read, hread⟩ : ∃ read,
            read = (RowCursor.opened rows).nextBatch kind (firstBatch d prefetch) := ⟨_, rfl⟩
        dsimp only
        rw [← hread]
        have hrows : read.1 ++ read.2.rows = rows := by
          rw [hread]
          exact RowCursor.nextBatch_append kind _ _
        have hold := supersede_inv h hpos
          (c := Cursors.keep ⟨maps, Function.update t.session.cursors maps.cursorId none⟩
            maps.cursorId read.2)
          (fun id' hid => (keep_of_ne _ hid _).trans (hothers id' hid))
          (keep_opened hopen _ _) rfl
        by_cases hex : read.2.exhausted = true
        · have hanswer : announced (some rows) (Cursors.answer maps.cursorId read) = [] := by
            rw [Cursors.answer, if_pos hex]
            rfl
          rw [hanswer, List.append_nil]
          exact hold
        · -- the cursor is announced
          have hanswer : announced (some rows) (Cursors.answer maps.cursorId read) =
              [⟨maps.cursorId, rows, read.1, false, true⟩] := by
            rw [Cursors.answer, if_neg hex]
            rfl
          have hnew : Attached (Cursors.keep
              ⟨maps, Function.update t.session.cursors maps.cursorId none⟩ maps.cursorId read.2)
              ⟨maps.cursorId, rows, read.1, false, true⟩ := by
            rw [Attached, keep_self, if_neg hex]
            exact hrows
          rw [hanswer]
          refine ⟨hold.positive, hold.opened, ?_, ?_, ?_, ?_⟩
          · intro s hs
            rcases List.mem_append.1 hs with hs | hs
            · exact hold.nonzero s hs
            · obtain rfl := List.mem_singleton.1 hs
              exact hpos.current
          · intro s hs hlive
            rcases List.mem_append.1 hs with hs | hs
            · exact hold.attached s hs hlive
            · obtain rfl := List.mem_singleton.1 hs
              exact hnew
          · refine List.pairwise_append.2 ⟨hold.apart, List.pairwise_singleton _ _, ?_⟩
            intro s hs s' hs' hlive _
            obtain rfl := List.mem_singleton.1 hs'
            obtain ⟨_, -, -, -, -, -, himp⟩ := mem_supersede hs
            exact (himp hlive).2
          · intro s hs
            rcases List.mem_append.1 hs with hs | hs
            · exact hold.faithful s hs
            · obtain rfl := List.mem_singleton.1 hs
              exact ⟨⟨read.2.rows, hrows⟩, fun h => by cases h⟩

/-- What holds of the other queries and of the changed one holds of all. -/
lemma forall_mem_set {streams : List (Stream ρ)} {i : ℕ} {s : Stream ρ} {P : Stream ρ → Prop}
    (hs : P s) (h : ∀ j, j ≠ i → ∀ s' ∈ streams[j]?, P s') : ∀ s' ∈ streams.set i s, P s' := by
  intro s' hs'
  obtain ⟨j, hj⟩ := List.mem_iff_getElem?.1 hs'
  by_cases hij : i = j
  · rw [hij, List.getElem?_set_self'] at hj
    obtain ⟨_, -, rfl⟩ := Option.map_eq_some_iff.1 hj
    exact hs
  · rw [List.getElem?_set_ne hij] at hj
    exact h j (fun h => hij h.symm) s' hj

/-- Queries at different places that are not superseded have different ids. -/
lemma apart_ne {streams : List (Stream ρ)} (h : Apart streams) {i j : ℕ} (hij : j ≠ i)
    {s s' : Stream ρ} (hs : streams[i]? = some s) (hs' : streams[j]? = some s')
    (hlive : s.live = true) (hlive' : s'.live = true) : s'.id ≠ s.id := by
  obtain ⟨hi, rfl⟩ := List.getElem?_eq_some_iff.1 hs
  obtain ⟨hj, rfl⟩ := List.getElem?_eq_some_iff.1 hs'
  have hpair := List.pairwise_iff_getElem.1 h
  rcases Nat.lt_or_gt_of_ne hij with hlt | hgt
  · exact hpair j i hj hi hlt hlive' hlive
  · exact (hpair i j hi hj hgt hlive hlive').symm

/-- A fetch changes neither id nor state of its query. -/
lemma set_apart {streams : List (Stream ρ)} (h : Apart streams) {i : ℕ} {s s' : Stream ρ}
    (hs : streams[i]? = some s) (hid : s'.id = s.id) (hlive : s'.live = s.live) :
    Apart (streams.set i s') := by
  have hkey : ∀ l : List (Stream ρ), Apart l ↔
      (l.map fun s => (s.live, s.id)).Pairwise fun a b => a.1 = true → b.1 = true → a.2 ≠ b.2 :=
    fun l => by rw [List.pairwise_map, Apart]
  obtain ⟨hi, hget⟩ := List.getElem?_eq_some_iff.1 hs
  have hsame : (streams.map fun s => (s.live, s.id)).set i (s'.live, s'.id) =
      streams.map fun s => (s.live, s.id) := by
    rw [hid, hlive, ← hget]
    have hi' : i < (streams.map fun s => (s.live, s.id)).length := by
      rw [List.length_map]
      exact hi
    rw [← List.getElem_map (fun s : Stream ρ => (s.live, s.id)) (h := hi'), List.set_getElem_self]
  rw [hkey, List.map_set, hsame, ← hkey]
  exact h

/-- A fetch that is current. -/
lemma fetch_inv (h : t.Inv) {query rows : ℕ} (hcur : t.Current (.fetch query rows)) :
    (t.step d kind (.fetch query rows)).Inv := by
  rw [step]
  cases hs : t.streams[query]? with
  | none => exact h
  | some s =>
    have hmem : s ∈ t.streams := List.mem_of_getElem? hs
    have hid : s.id ≠ 0 := h.nonzero s hmem
    obtain ⟨-, hended⟩ := h.faithful s hmem
    dsimp only
    rw [Cursors.fetch, if_neg hid]
    cases hopen : t.session.cursors s.id with
    | none =>
      -- all rows have been sent, and the end is reported
      have hall : s.sent ++ [] = s.rows := by
        rw [List.append_nil]
        rcases hcur s hs with hlive | ⟨hall, -⟩
        · have hatt := h.attached s hmem hlive
          rw [Attached, hopen] at hatt
          exact hatt
        · exact hall
      refine ⟨h.positive, h.opened, ?_, ?_, set_apart h.apart hs rfl rfl, ?_⟩
      · exact forall_mem_set hid fun j _ s' hj => h.nonzero s' (List.mem_of_getElem? hj)
      · refine forall_mem_set (fun _ => ?_) fun j _ s' hj => h.attached s' (List.mem_of_getElem? hj)
        rw [Attached]
        show match t.session.cursors s.id with
          | some cur => _
          | none => _
        rw [hopen]
        exact hall
      · refine forall_mem_set ⟨?_, fun _ => hall⟩ fun j _ s' hj =>
          h.faithful s' (List.mem_of_getElem? hj)
        exact hall ▸ List.prefix_refl _
    | some cur =>
      have hlive : s.live = true := by
        rcases hcur s hs with hlive | ⟨-, hnone⟩
        · exact hlive
        · rw [hopen] at hnone
          cases hnone
      have hatt : s.sent ++ cur.rows = s.rows := by
        have hatt := h.attached s hmem hlive
        rw [Attached, hopen] at hatt
        exact hatt
      obtain ⟨read, hread⟩ : ∃ read, read = cur.nextBatch kind (fetchBatch d rows) := ⟨_, rfl⟩
      dsimp only
      rw [← hread]
      have happend : read.1 ++ read.2.rows = cur.rows := by
        rw [hread]
        exact RowCursor.nextBatch_append kind _ _
      have hrows : (s.sent ++ read.1) ++ read.2.rows = s.rows := by
        rw [List.append_assoc, happend, hatt]
      have hlast : read.2.exhausted = true → s.sent ++ read.1 = s.rows := by
        intro hex
        rw [hread] at hex
        have hnil := RowCursor.rows_of_exhausted (h.opened s.id cur hopen) hex
        rw [← hread] at hnil
        rw [hnil, List.append_nil] at hrows
        exact hrows
      have hreceive : ∀ more, Stream.receive s (.rows read.1 more) =
          { s with sent := s.sent ++ read.1, ended := s.ended || more.isNone } := fun _ => rfl
      rw [Cursors.answer, hreceive]
      refine ⟨h.positive, keep_opened h.opened _ _, ?_, ?_, set_apart h.apart hs rfl rfl, ?_⟩
      · exact forall_mem_set hid fun j _ s' hj => h.nonzero s' (List.mem_of_getElem? hj)
      · refine forall_mem_set (fun _ => ?_) fun j hj s' hs' hlive' => ?_
        · rw [Attached, keep_self]
          by_cases hex : read.2.exhausted = true
          · rw [if_pos hex]
            exact hlast hex
          · rw [if_neg hex]
            exact hrows
        · have hne := apart_ne h.apart hj hs hs' hlive hlive'
          have hatt' := h.attached s' (List.mem_of_getElem? hs') hlive'
          rw [Attached] at hatt' ⊢
          rw [keep_of_ne _ hne]
          exact hatt'
      · refine forall_mem_set ⟨⟨read.2.rows, hrows⟩, fun hend => ?_⟩ fun j _ s' hj =>
          h.faithful s' (List.mem_of_getElem? hj)
        by_cases hex : read.2.exhausted = true
        · exact hlast hex
        · -- the end was reported before, so nothing was left to read
          have hbefore : s.ended = true := by simpa [hex] using hend
          have hnil : cur.rows = [] := by
            rw [hended hbefore] at hatt
            exact List.append_right_eq_self.1 hatt
          rw [hnil] at happend
          rw [(List.append_eq_nil_iff.1 happend).1, List.append_nil]
          exact hended hbefore

/-- The end of a transaction. -/
lemma endTransaction_inv (h : t.Inv) : (t.step d kind .endTransaction).Inv where
  positive := h.positive
  opened _ _ hcur := by cases hcur
  nonzero s hs := by
    obtain ⟨s', hs', rfl⟩ := List.mem_map.1 hs
    exact h.nonzero s' hs'
  attached s hs hlive := by
    obtain ⟨s', -, rfl⟩ := List.mem_map.1 hs
    cases hlive
  apart := List.pairwise_map.2 (h.apart.imp fun _ h => by cases h)
  faithful s hs := by
    obtain ⟨s', hs', rfl⟩ := List.mem_map.1 hs
    exact h.faithful s' hs'

/-- **A message of a client whose fetches are current.** -/
lemma step_inv (h : t.Inv) {m : Message ρ} (hm : t.Current m) : (t.step d kind m).Inv := by
  cases m with
  | execute f prefetch rows => exact execute_inv h f prefetch rows
  | fetch query rows => exact fetch_inv h hm
  | endTransaction => exact endTransaction_inv h

end Steps

/-! ### Runs -/

lemma init_positive (d : Dialect) : Positive (CursorMaps.init d) :=
  ⟨by cases d <;> decide, by cases d <;> decide, fun s id hs => by cases hs⟩

lemma init_inv (d : Dialect) : (init d : Reading ρ).Inv where
  positive := init_positive d
  opened _ _ hcur := by cases hcur
  nonzero _ hs := by cases hs
  attached _ hs := by cases hs
  apart := List.Pairwise.nil
  faithful _ hs := by cases hs

lemma foldl_inv {t : Reading ρ} (h : t.Inv) {messages : List (Message ρ)}
    (hm : RunCurrent d kind t messages) : (messages.foldl (step d kind) t).Inv := by
  induction messages generalizing t with
  | nil => exact h
  | cons m messages ih => exact ih (step_inv h hm.1) hm.2

lemma RunCurrent.initial {t : Reading ρ} {pre messages : List (Message ρ)}
    (h : RunCurrent d kind t messages) (hpre : pre <+: messages) : RunCurrent d kind t pre := by
  induction messages generalizing t pre with
  | nil =>
    rw [List.prefix_nil] at hpre
    subst hpre
    trivial
  | cons m messages ih =>
    cases pre with
    | nil => trivial
    | cons m' pre =>
      obtain ⟨rfl, htail⟩ := List.cons_prefix_cons.1 hpre
      exact ⟨h.1, ih h.2 htail⟩

/-- **Runs whose fetches are current**: in every state of the run, of every query whose cursor was
announced the rows that were sent are its first ones, each of them once and in order, and the end
was reported only with the last of them. -/
theorem streamsFaithful_of_current {messages : List (Message ρ)}
    (h : RunCurrent d kind (init d) messages) :
    ∀ pre, pre <+: messages → (run d kind pre).StreamsFaithful :=
  fun _ hpre => (foldl_inv d kind (init_inv d) (h.initial d kind hpre)).faithful

/-- A query with a text of its own. -/
def queryFrame (sql : String) : Frame where
  func := .execute
  seq := 1
  parsed := .ok (sql, [])
  hasNoSql := false
  named := none
  rebind p := .ok p.2

/-- A query that is read in three parts. -/
def readThrough : List (Message ℕ) :=
  [.execute (queryFrame "SELECT n FROM t") 2 (some [1, 2, 3, 4, 5]), .fetch 0 2, .fetch 0 2,
    .endTransaction]

/-- Its rows are all sent. -/
theorem readThrough_faithful : (run .jdbc .postgres readThrough).StreamsFaithful := by
  have h : RunCurrent .jdbc .postgres (init .jdbc) readThrough := by
    refine ⟨trivial, ?_, ?_, trivial, trivial⟩ <;>
    · rintro s ⟨⟩
      exact .inl rfl
  exact streamsFaithful_of_current .jdbc .postgres h _ List.prefix_rfl

/-- **Two open queries of a thin client share a cursor**, and a `COMMIT` cuts a query short. -/
theorem secondQuery_not_faithful :
    ¬ (run .thin .postgres [.execute (queryFrame "SELECT n FROM t") 2 (some [1, 2, 3]),
      .execute (queryFrame "SELECT n FROM u") 2 (some [7, 8, 9]), .fetch 0 2]).StreamsFaithful ∧
    ¬ (run .jdbc .postgres [.execute (queryFrame "SELECT n FROM t") 2 (some [1, 2, 3]),
      .endTransaction, .fetch 0 2]).StreamsFaithful := by
  constructor
  · intro h
    have hsent := (h ⟨1, [1, 2, 3], [1, 2, 9], true, false⟩ List.mem_cons_self).1
    exact absurd hsent (by decide)
  · intro h
    have hall := (h ⟨1, [1, 2, 3], [1, 2], true, false⟩ List.mem_cons_self).2 rfl
    exact absurd hall (by decide)

end Reading

end DbSaci.Server
