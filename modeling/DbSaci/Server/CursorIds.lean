import DbSaci.Server.Prepared
import Mathlib.Data.List.Induction
import Mathlib.Data.List.Nodup

set_option relaxedAutoImplicit false
set_option autoImplicit false

/-!
# Cursor ids

A session gives each text an id of its own as long as its counter has not come back to an id that
is in use. The counter is a `u16` and texts are never forgotten, so with more texts than ids two of
them share one.

## Main definitions

* `Coherent` — different texts have different ids, and each id leads back to its text.
* `Reruns` — a re-execute that names the id of a text runs that text.
* `capacity` — how many ids there are.

## Main results

* `cursorsCoherent_iff` — when the maps are coherent over a whole run, and all re-executes right.
* `wrapAround_not_coherent` — one text more than there are ids.
-/

namespace DbSaci.Server

/-! ### Statements -/

/-- Different texts have different ids, and each id leads back to its text. -/
structure Coherent (m : CursorMaps) : Prop where
  injective : ∀ s t id, m.ociCursorIds s = some id → m.ociCursorIds t = some id → s = t
  inverse : ∀ s id, m.ociCursorIds s = some id → ∃ types, m.ociIdToSql id = some (s, types)

/-- A re-execute that names the id of a text runs that text, if it runs anything. -/
def Reruns (d : Dialect) (m : CursorMaps) (f : Frame) : Prop :=
  f.isReexecute d = true → ∀ id ∈ f.named, ∀ s, m.ociCursorIds s = some id →
    ∀ p, m.resolve d f = .ok p → p.1 = s

/-- In every state of a run the maps are coherent, and every re-execute runs the right text. -/
def CursorsCoherent (d : Dialect) (fs : List Frame) : Prop :=
  ∀ pre, pre <+: fs → Coherent (CursorMaps.run d pre) ∧
    ∀ f, pre ++ [f] <+: fs → Reruns d (CursorMaps.run d pre) f

/-- How many ids there are: from 3 to 65535, and for the jdbc-style clients 1 as well. -/
def capacity : Dialect → ℕ
  | .oci => 65533
  | .jdbc | .thin => 65534

/-- The texts of a run. -/
def texts (fs : List Frame) : List String := (fs.filterMap Frame.text).dedup

/-- A bare re-execute of a jdbc-style client names the statement that was executed last. -/
def NamesLast (m : CursorMaps) (f : Frame) : Prop :=
  f.func ≠ .execute → ∀ id ∈ f.named, ∀ s, m.ociCursorIds s = some id →
    ∀ p ∈ m.lastExecute, (f.reexecuteRequest p).isOk = true → p.1 = s

/-! ### The ids in the order of the texts -/

/-- The id the counter reaches after so many texts. -/
def issuedId (d : Dialect) : ℕ → ℕ
  | 0 => firstCursorId d
  | n + 1 => nextCursorId (issuedId d n)

/-- Up to the last id the counter counts. -/
lemma issuedId_oci {n : ℕ} (h : n < 65533) : issuedId .oci n = n + 3 := by
  induction n with
  | zero => rfl
  | succ n ih =>
    rw [issuedId, ih (by omega), nextCursorId]
    omega

lemma issuedId_jdbc {n : ℕ} (h : n + 1 < 65534) : issuedId .jdbc (n + 1) = n + 3 := by
  induction n with
  | zero => rfl
  | succ n ih =>
    rw [issuedId, ih (by omega), nextCursorId]
    omega

/-- **The ids are different** as long as there are any. -/
lemma issuedId_inj {d : Dialect} (hd : d ≠ .thin) {a b : ℕ} (ha : a < capacity d)
    (hb : b < capacity d) (h : issuedId d a = issuedId d b) : a = b := by
  cases d with
  | thin => exact absurd rfl hd
  | oci =>
    rw [issuedId_oci ha, issuedId_oci hb] at h
    omega
  | jdbc =>
    have hfirst : issuedId .jdbc 0 = 1 := rfl
    cases a with
    | zero =>
      cases b with
      | zero => rfl
      | succ b =>
        rw [issuedId_jdbc hb, hfirst] at h
        omega
    | succ a =>
      cases b with
      | zero =>
        rw [issuedId_jdbc ha, hfirst] at h
        omega
      | succ b =>
        rw [issuedId_jdbc ha, issuedId_jdbc hb] at h
        omega

/-- **Then an id comes again.** -/
lemma issuedId_capacity {d : Dialect} (hd : d ≠ .thin) :
    ∃ a < capacity d, issuedId d (capacity d) = issuedId d a := by
  cases d with
  | thin => exact absurd rfl hd
  | oci =>
    refine ⟨0, by decide, ?_⟩
    have hlast : issuedId .oci 65532 = 65535 := issuedId_oci (by omega)
    change nextCursorId (issuedId .oci 65532) = 3
    rw [hlast]
    rfl
  | jdbc =>
    refine ⟨1, by decide, ?_⟩
    have hlast : issuedId .jdbc (65532 + 1) = 65535 := issuedId_jdbc (by omega)
    change nextCursorId (issuedId .jdbc (65532 + 1)) = 3
    rw [hlast]
    rfl

/-! ### The invariant of a run -/

/-- The texts after another frame, in the order they were first executed. -/
def addText (f : Frame) (ts : List String) : List String :=
  match f.text with
  | some s => if s ∈ ts then ts else ts ++ [s]
  | none => ts

/-- The ids are those of the texts in their order, and nothing else is remembered. -/
structure Numbered (d : Dialect) (ts : List String) (m : CursorMaps) : Prop where
  nodup : ts.Nodup
  next : m.ociNextCursorId = issuedId d ts.length
  ids : ∀ s id, m.ociCursorIds s = some id ↔ ∃ n, ts[n]? = some s ∧ id = issuedId d n
  nonempty : "" ∉ ts
  last : ∀ p ∈ m.lastExecute, p.1 ∈ ts
  seqs : ∀ q, ∀ p ∈ m.ociSeqToSql q, p.1 ∈ ts
  back : ∀ id, ∀ p ∈ m.ociIdToSql id, p.1 ∈ ts

/-- The id of a text leads back to it. -/
def LeadsBack (m : CursorMaps) (s : String) : Prop :=
  ∀ id, m.ociCursorIds s = some id → ∃ types, m.ociIdToSql id = some (s, types)

/-- What the maps hold after the texts of a list have been executed. -/
structure Tracks (d : Dialect) (ts : List String) (m : CursorMaps) : Prop
    extends Numbered d ts m where
  inverse : ts.length ≤ capacity d → ∀ s, LeadsBack m s

namespace Numbered

variable {d : Dialect} {ts : List String} {m : CursorMaps}

/-- Within the capacity an id is that of one text. -/
lemma injective (h : Numbered d ts m) (hd : d ≠ .thin) (hcap : ts.length ≤ capacity d)
    {s t : String} {id : ℕ} (hs : m.ociCursorIds s = some id) (ht : m.ociCursorIds t = some id) :
    s = t := by
  obtain ⟨a, ha, rfl⟩ := (h.ids s id).1 hs
  obtain ⟨b, hb, hab⟩ := (h.ids t _).1 ht
  obtain ⟨ha', -⟩ := List.getElem?_eq_some_iff.1 ha
  obtain ⟨hb', -⟩ := List.getElem?_eq_some_iff.1 hb
  obtain rfl := issuedId_inj hd (Nat.lt_of_lt_of_le ha' hcap) (Nat.lt_of_lt_of_le hb' hcap) hab
  rw [ha] at hb
  exact Option.some.inj hb

/-- Beyond the capacity two texts share an id. -/
lemma not_injective (h : Numbered d ts m) (hd : d ≠ .thin) (hcap : capacity d < ts.length) :
    ∃ s t id, s ≠ t ∧ m.ociCursorIds s = some id ∧ m.ociCursorIds t = some id := by
  obtain ⟨a, ha, hab⟩ := issuedId_capacity hd
  have hidx : a < ts.length := Nat.lt_trans ha hcap
  refine ⟨ts[a], ts[capacity d], issuedId d a, ?_, ?_, ?_⟩
  · intro heq
    exact Nat.ne_of_lt ha ((List.Nodup.getElem_inj_iff h.nodup).1 heq)
  · exact (h.ids _ _).2 ⟨a, List.getElem?_eq_getElem hidx, rfl⟩
  · exact (h.ids _ _).2 ⟨capacity d, List.getElem?_eq_getElem hcap, hab.symm⟩

/-- A statement that is looked up was executed before. -/
lemma mem_of_lookup (h : Numbered d ts m) {f : Frame} {p : Prepared}
    (hp : ((f.named.bind m.ociIdToSql).or (m.ociSeqToSql f.seq)).or m.lastExecute = some p) :
    p.1 ∈ ts := by
  simp only [Option.or_eq_some_iff, Option.bind_eq_some_iff] at hp
  rcases hp with (⟨id, -, hid⟩ | ⟨-, hseq⟩) | ⟨-, hlast⟩
  · exact h.back id p hid
  · exact h.seqs f.seq p hseq
  · exact h.last p hlast

lemma mem_of_hint (h : Numbered d ts m) {f : Frame} {p : Prepared}
    (hp : (f.named.bind m.ociIdToSql).or m.lastExecute = some p) : p.1 ∈ ts := by
  simp only [Option.or_eq_some_iff, Option.bind_eq_some_iff] at hp
  rcases hp with ⟨id, -, hid⟩ | ⟨-, hlast⟩
  · exact h.back id p hid
  · exact h.last p hlast

/-- A text that is not known gets the next id. -/
lemma add (h : Numbered d ts m) {s : String} (hs : s ∉ ts) (hne : s ≠ "") :
    Numbered d (ts ++ [s])
      { m with
        ociCursorIds := Function.update m.ociCursorIds s (some m.ociNextCursorId)
        ociNextCursorId := nextCursorId m.ociNextCursorId } where
  nodup := List.nodup_append.2 ⟨h.nodup, List.nodup_singleton s, by
    rintro a ha b hb rfl
    rw [List.mem_singleton] at hb
    exact hs (hb ▸ ha)⟩
  next := by
    simp only [h.next, List.length_append, List.length_singleton]
    rfl
  ids := by
    intro t id
    show Function.update m.ociCursorIds s (some m.ociNextCursorId) t = some id ↔ _
    by_cases hts : t = s
    · subst hts
      rw [Function.update_self, h.next]
      constructor
      · rintro ⟨⟩
        exact ⟨ts.length, by simp, rfl⟩
      · rintro ⟨n, hn, rfl⟩
        rw [List.getElem?_append] at hn
        split_ifs at hn with hlt
        · exact absurd (List.mem_of_getElem? hn) hs
        · rw [List.getElem?_singleton] at hn
          split_ifs at hn with hzero
          have : n = ts.length := by omega
          rw [this]
    · rw [Function.update_of_ne hts, h.ids]
      constructor
      · rintro ⟨n, hn, rfl⟩
        obtain ⟨hlt, -⟩ := List.getElem?_eq_some_iff.1 hn
        exact ⟨n, by rw [List.getElem?_append_left hlt, hn], rfl⟩
      · rintro ⟨n, hn, rfl⟩
        rw [List.getElem?_append] at hn
        split_ifs at hn with hlt
        · exact ⟨n, hn, rfl⟩
        · rw [List.getElem?_singleton] at hn
          split_ifs at hn with hzero
          exact absurd (Option.some.inj hn).symm hts
  nonempty := by
    rw [List.mem_append, List.mem_singleton]
    exact not_or.2 ⟨h.nonempty, hne.symm⟩
  last p hp := List.mem_append_left _ (h.last p hp)
  seqs q p hp := List.mem_append_left _ (h.seqs q p hp)
  back id p hp := List.mem_append_left _ (h.back id p hp)

/-- The statement of a known text is remembered. -/
lemma put (h : Numbered d ts m) {p : Prepared} (hp : p.1 ∈ ts) (seq : UInt8) (id : ℕ) :
    Numbered d ts
      { m with
        lastExecute := some p
        ociSeqToSql := Function.update m.ociSeqToSql seq (some p)
        cursorId := id
        ociIdToSql := Function.update m.ociIdToSql id (some p) } where
  nodup := h.nodup
  next := h.next
  ids := h.ids
  nonempty := h.nonempty
  last q hq := by
    obtain rfl := Option.some.inj hq
    exact hp
  seqs k q hq := by
    change Function.update m.ociSeqToSql seq (some p) k = some q at hq
    by_cases hk : k = seq
    · subst hk
      rw [Function.update_self] at hq
      obtain rfl := Option.some.inj hq
      exact hp
    · rw [Function.update_of_ne hk] at hq
      exact h.seqs k q hq
  back k q hq := by
    change Function.update m.ociIdToSql id (some p) k = some q at hq
    by_cases hk : k = id
    · subst hk
      rw [Function.update_self] at hq
      obtain rfl := Option.some.inj hq
      exact hp
    · rw [Function.update_of_ne hk] at hq
      exact h.back k q hq

end Numbered

/-! ### Steps -/

section Steps

variable {d : Dialect} {ts : List String} {m : CursorMaps}

/-- An Execute with a text runs it. -/
lemma resolve_of_text {f : Frame} {s : String} (h : f.text = some s) :
    ∃ types, m.resolve d f = .ok (s, types) ∧ f.func = .execute ∧ s ≠ "" := by
  rw [Frame.text] at h
  split at h
  · next p hfunc hparsed =>
    split_ifs at h with hne
    obtain rfl := Option.some.inj h
    refine ⟨p.2, ?_, hfunc, hne⟩
    rw [CursorMaps.resolve, hfunc]
    simp [hparsed, hne]
  · cases h

/-- A frame that runs a text it does not carry runs a known one. -/
lemma mem_of_resolve (h : Numbered d ts m) {f : Frame} (hf : f.text = none) {p : Prepared}
    (hp : m.resolve d f = .ok p) : p.1 = "" ∨ p.1 ∈ ts := by
  have hre : ∀ q, q.1 ∈ ts → f.reexecuteRequest q = .ok p → p.1 ∈ ts := by
    intro q hq hp
    rw [Frame.reexecuteRequest] at hp
    cases hr : f.rebind q with
    | error e =>
      rw [hr] at hp
      cases hp
    | ok types =>
      rw [hr] at hp
      cases hp
      exact hq
  rw [CursorMaps.resolve] at hp
  cases hfunc : f.func with
  | execute =>
    rw [hfunc] at hp
    have hempty : ∀ q, f.parsed = .ok q → q.1 = "" := by
      intro q hq
      by_contra hne
      simp [Frame.text, hfunc, hq, hne] at hf
    have hhint : ∀ e : Except String Prepared, (∀ q, e = .ok q → q.1 = "") →
        (∀ q, (f.named.bind m.ociIdToSql).or m.lastExecute = some q →
          f.reexecuteRequest q = .ok p) →
        ((f.named.bind m.ociIdToSql).or m.lastExecute = none → e = .ok p) →
        p.1 = "" ∨ p.1 ∈ ts := by
      intro e he hsome hnone
      cases hq : (f.named.bind m.ociIdToSql).or m.lastExecute with
      | some q => exact .inr (hre q (h.mem_of_hint hq) (hsome q hq))
      | none => exact .inl (he p (hnone hq))
    by_cases hoci : d = .oci
    · simp only [hoci, if_true] at hp
      cases hparsed : f.parsed with
      | ok q =>
        rw [hparsed] at hp
        exact .inl (hempty p (hparsed.trans hp))
      | error e =>
        rw [hparsed] at hp
        exact hhint (.error e) (fun q hq => by cases hq)
          (fun q hq => by rw [hq] at hp; exact hp) (fun hq => by rw [hq] at hp; exact hp)
    · simp only [hoci, if_false] at hp
      cases hparsed : f.parsed with
      | ok q =>
        rw [hparsed] at hp
        have hq := hempty q hparsed
        simp only [hq, ne_eq, not_true_eq_false, if_false] at hp
        split_ifs at hp with hno
        · exact hhint (.ok q) (fun r hr => by cases hr; exact hq)
            (fun q hq => by rw [hq] at hp; exact hp) (fun hq => by rw [hq] at hp; exact hp)
        · cases hp
          exact .inl hq
      | error e =>
        rw [hparsed] at hp
        simp only at hp
        split_ifs at hp with hno
        exact hhint (.error e) (fun q hq => by cases hq)
          (fun q hq => by rw [hq] at hp; exact hp) (fun hq => by rw [hq] at hp; exact hp)
  | reexecute | reexecuteAndFetch =>
    rw [hfunc] at hp
    simp only at hp
    split at hp
    · next q hq =>
      refine .inr (hre q ?_ hp)
      split_ifs at hq with hoci
      · exact h.mem_of_lookup hq
      · exact h.last q hq
    · cases hp

/-- A known text is registered. -/
lemma register_known (h : Tracks d ts m) (hd : d ≠ .thin) {p : Prepared} (hp : p.1 ∈ ts)
    (seq : UInt8) : Tracks d ts (m.register d seq p) := by
  obtain ⟨n, hn⟩ := List.mem_iff_getElem?.1 hp
  have hid : m.ociCursorIds p.1 = some (issuedId d n) := (h.ids _ _).2 ⟨n, hn, rfl⟩
  have hreg : m.register d seq p =
      { m with
        lastExecute := some p
        ociSeqToSql := Function.update m.ociSeqToSql seq (some p)
        cursorId := issuedId d n
        ociIdToSql := Function.update m.ociIdToSql (issuedId d n) (some p) } := by
    rw [CursorMaps.register, if_neg hd, CursorMaps.entry]
    simp only [hid]
  rw [hreg]
  refine { h.put hp seq (issuedId d n) with inverse := fun hcap s id hs => ?_ }
  by_cases heq : id = issuedId d n
  · subst heq
    obtain rfl := h.injective hd hcap hs hid
    exact ⟨p.2, Function.update_self ..⟩
  · obtain ⟨types, htypes⟩ := h.inverse hcap s id hs
    exact ⟨types, (Function.update_of_ne heq ..).trans htypes⟩

/-- A new text is registered. -/
lemma register_new (h : Tracks d ts m) (hd : d ≠ .thin) {p : Prepared} (hp : p.1 ∉ ts)
    (hne : p.1 ≠ "") (seq : UInt8) : Tracks d (ts ++ [p.1]) (m.register d seq p) := by
  have hid : m.ociCursorIds p.1 = none := by
    rw [Option.eq_none_iff_forall_ne_some]
    intro id hid
    obtain ⟨n, hn, -⟩ := (h.ids _ _).1 hid
    exact hp (List.mem_of_getElem? hn)
  have hadd := h.toNumbered.add hp hne
  have hreg : m.register d seq p =
      { m with
        lastExecute := some p
        ociSeqToSql := Function.update m.ociSeqToSql seq (some p)
        ociCursorIds := Function.update m.ociCursorIds p.1 (some m.ociNextCursorId)
        ociNextCursorId := nextCursorId m.ociNextCursorId
        cursorId := m.ociNextCursorId
        ociIdToSql := Function.update m.ociIdToSql m.ociNextCursorId (some p) } := by
    rw [CursorMaps.register, if_neg hd, CursorMaps.entry]
    simp only [hid]
  rw [hreg]
  have hput := hadd.put (List.mem_append_right ts (List.mem_singleton_self p.1)) seq
    m.ociNextCursorId
  refine { hput with inverse := fun hcap s id hs => ?_ }
  have hself : Function.update m.ociCursorIds p.1 (some m.ociNextCursorId) p.1 =
      some m.ociNextCursorId := Function.update_self ..
  by_cases heq : id = m.ociNextCursorId
  · subst heq
    obtain rfl := hadd.injective hd hcap hs hself
    exact ⟨p.2, Function.update_self ..⟩
  · have hsp : s ≠ p.1 := by
      rintro rfl
      exact heq (Option.some.inj (hs.symm.trans hself))
    have hold : m.ociCursorIds s = some id := (Function.update_of_ne hsp ..).symm.trans hs
    have hle : ts.length ≤ capacity d := by
      rw [List.length_append] at hcap
      omega
    obtain ⟨types, htypes⟩ := h.inverse hle s id hold
    exact ⟨types, (Function.update_of_ne heq ..).trans htypes⟩

/-- Answering with the id of a text changes no map. -/
lemma reuse_tracks (h : Tracks d ts m) (f : Frame) (p : Prepared) :
    Tracks d ts (m.reuse d f p) := by
  have hid : ∀ id, Tracks d ts { m with cursorId := id } := fun id =>
    ⟨⟨h.nodup, h.next, h.ids, h.nonempty, h.last, h.seqs, h.back⟩, h.inverse⟩
  rw [CursorMaps.reuse]
  split_ifs
  · split
    · exact hid _
    · exact h
  · exact h

/-- **What a frame does to the maps.** -/
lemma step_tracks (h : Tracks d ts m) (hd : d ≠ .thin) (f : Frame) :
    Tracks d (addText f ts) (m.step d f).1 := by
  rw [CursorMaps.step, addText]
  cases htext : f.text with
  | some s =>
    obtain ⟨types, hres, hfunc, hne⟩ := resolve_of_text (d := d) (m := m) htext
    rw [hres]
    simp only [CursorMaps.record, hfunc, hne, ne_eq, not_false_eq_true, and_self, if_true]
    have hreuse := reuse_tracks h f (s, types)
    split_ifs with hmem
    · exact register_known hreuse hd hmem f.seq
    · exact register_new (p := (s, types)) hreuse hd hmem hne f.seq
  | none =>
    cases hres : m.resolve d f with
    | error e => exact h
    | ok p =>
      have hreuse := reuse_tracks h f p
      simp only [CursorMaps.record]
      split_ifs with hreg
      · exact register_known hreuse hd
          ((mem_of_resolve h.toNumbered htext hres).resolve_left hreg.2) f.seq
      · exact hreuse

end Steps

/-! ### Runs -/

/-- The texts of a run in the order they were first executed. -/
def issued (fs : List Frame) : List String := fs.foldl (fun ts f => addText f ts) []

lemma issued_append (fs : List Frame) (f : Frame) :
    issued (fs ++ [f]) = addText f (issued fs) := by
  rw [issued, List.foldl_append]
  rfl

lemma run_append (d : Dialect) (fs : List Frame) (f : Frame) :
    CursorMaps.run d (fs ++ [f]) = ((CursorMaps.run d fs).step d f).1 := by
  rw [CursorMaps.run, List.foldl_append]
  rfl

lemma mem_addText {f : Frame} {ts : List String} {s : String} :
    s ∈ addText f ts ↔ s ∈ ts ∨ f.text = some s := by
  rw [addText]
  cases f.text with
  | none => simp
  | some t =>
    simp only [Option.some.injEq]
    split_ifs with ht
    · constructor
      · exact .inl
      · rintro (h | rfl)
        · exact h
        · exact ht
    · rw [List.mem_append, List.mem_singleton, eq_comm (a := s)]

lemma length_addText_le (f : Frame) (ts : List String) : ts.length ≤ (addText f ts).length := by
  rw [addText]
  split
  · split_ifs
    · exact Nat.le_refl _
    · rw [List.length_append]
      exact Nat.le_add_right _ _
  · exact Nat.le_refl _

lemma mem_issued {fs : List Frame} {s : String} : s ∈ issued fs ↔ s ∈ texts fs := by
  rw [texts, List.mem_dedup, List.mem_filterMap]
  induction fs using List.reverseRecOn with
  | nil => simp [issued]
  | append_singleton fs f ih =>
    rw [issued_append, mem_addText, ih]
    simp only [List.mem_append, List.mem_singleton]
    constructor
    · rintro (⟨g, hg, hs⟩ | hs)
      · exact ⟨g, .inl hg, hs⟩
      · exact ⟨f, .inr rfl, hs⟩
    · rintro ⟨g, hg | rfl, hs⟩
      · exact .inl ⟨g, hg, hs⟩
      · exact .inr hs

/-- More frames execute more texts. -/
lemma length_issued_le {pre fs : List Frame} (h : pre <+: fs) :
    (issued pre).length ≤ (issued fs).length := by
  obtain ⟨rest, rfl⟩ := h
  induction rest using List.reverseRecOn with
  | nil =>
    exact Nat.le_of_eq (by rw [List.append_nil])
  | append_singleton rest f ih =>
    rw [← List.append_assoc, issued_append]
    exact Nat.le_trans ih (length_addText_le f _)

/-- **What the maps hold after a run.** -/
theorem run_tracks {d : Dialect} (hd : d ≠ .thin) (fs : List Frame) :
    Tracks d (issued fs) (CursorMaps.run d fs) := by
  induction fs using List.reverseRecOn with
  | nil =>
    exact
      { nodup := List.nodup_nil
        next := rfl
        ids := by simp [issued, CursorMaps.run, CursorMaps.init]
        nonempty := List.not_mem_nil
        last := by simp [CursorMaps.run, CursorMaps.init]
        seqs := by simp [CursorMaps.run, CursorMaps.init]
        back := by simp [CursorMaps.run, CursorMaps.init]
        inverse := fun _ s id hs => by cases hs }
  | append_singleton fs f ih =>
    rw [issued_append, run_append]
    exact step_tracks ih hd f

lemma length_issued {d : Dialect} (hd : d ≠ .thin) (fs : List Frame) :
    (issued fs).length = (texts fs).length := by
  have hperm : (issued fs).Perm (texts fs) :=
    (List.perm_ext_iff_of_nodup (run_tracks hd fs).nodup (List.nodup_dedup _)).2
      fun s => mem_issued
  exact hperm.length_eq

/-- The maps are coherent as long as there are ids. -/
lemma coherent_iff {d : Dialect} (hd : d ≠ .thin) (fs : List Frame) :
    Coherent (CursorMaps.run d fs) ↔ (texts fs).length ≤ capacity d := by
  have htracks := run_tracks hd fs
  rw [← length_issued hd]
  constructor
  · intro h
    by_contra hcap
    obtain ⟨s, t, id, hst, hs, ht⟩ := htracks.not_injective hd (Nat.lt_of_not_le hcap)
    exact hst (h.injective s t id hs ht)
  · intro hcap
    exact ⟨fun s t id hs ht => htracks.injective hd hcap hs ht, htracks.inverse hcap⟩

/-! ### Re-executes -/

/-- A re-execute of a statement runs its text. -/
lemma text_of_reexecuteRequest {f : Frame} {q p : Prepared} (h : f.reexecuteRequest q = .ok p) :
    p.1 = q.1 := by
  rw [Frame.reexecuteRequest] at h
  cases hr : f.rebind q with
  | error e =>
    rw [hr] at h
    cases h
  | ok types =>
    rw [hr] at h
    cases h
    rfl

section Reexecute

variable {d : Dialect} {m : CursorMaps} {f : Frame}

/-- With an id that leads back, the statement of the id is re-executed. -/
lemma resolve_named (hd : d ≠ .thin) (hre : f.isReexecute d = true)
    (hid : d = .oci ∨ f.func = .execute) {id : ℕ} (hnamed : f.named = some id) {q : Prepared}
    (hq : m.ociIdToSql id = some q) : m.resolve d f = f.reexecuteRequest q := by
  rw [CursorMaps.resolve]
  cases hfunc : f.func with
  | reexecute | reexecuteAndFetch =>
    have hoci : d = .oci := hid.resolve_right (by rw [hfunc]; decide)
    simp [hoci, hnamed, hq]
  | execute =>
    cases d with
    | thin => exact absurd rfl hd
    | oci =>
      cases hparsed : f.parsed with
      | ok p => simp [Frame.isReexecute, hfunc, hparsed] at hre
      | error e => simp [hnamed, hq]
    | jdbc =>
      cases hparsed : f.parsed with
      | ok p =>
        have hno : p.1 = "" ∧ f.hasNoSql = true := by
          simpa [Frame.isReexecute, hfunc, hparsed] using hre
        simp [hno.1, hno.2, hnamed, hq]
      | error e =>
        have hno : f.hasNoSql = true := by simpa [Frame.isReexecute, hfunc, hparsed] using hre
        simp [hno, hnamed, hq]

/-- A bare re-execute of a jdbc-style client re-executes the last statement. -/
lemma resolve_last (hfunc : f.func ≠ .execute) : m.resolve .jdbc f =
    match m.lastExecute with
    | some q => f.reexecuteRequest q
    | none => .error "reexecute with no prepared statement" := by
  rw [CursorMaps.resolve]
  cases hf : f.func with
  | execute => exact absurd hf hfunc
  | reexecute | reexecuteAndFetch => rfl

/-- **With coherent maps a re-execute goes wrong only without its id being read.** -/
lemma reruns_iff (hd : d ≠ .thin) (hm : Coherent m) :
    Reruns d m f ↔ (d = .jdbc → NamesLast m f) := by
  by_cases hid : d = .oci ∨ f.func = .execute
  · have hruns : Reruns d m f := by
      intro hre id hnamed s hs p hp
      obtain ⟨types, hq⟩ := hm.inverse s id hs
      rw [resolve_named hd hre hid hnamed hq] at hp
      exact text_of_reexecuteRequest hp
    refine iff_of_true hruns ?_
    rintro rfl hfunc
    exact absurd (hid.resolve_left (by decide)) hfunc
  · obtain ⟨hoci, hfunc⟩ := not_or.1 hid
    obtain rfl : d = .jdbc := by
      cases d with
      | thin => exact absurd rfl hd
      | jdbc => rfl
      | oci => exact absurd rfl hoci
    have hre : f.isReexecute .jdbc = true := by
      rw [Frame.isReexecute]
      cases hf : f.func with
      | execute => exact absurd hf hfunc
      | reexecute | reexecuteAndFetch => rfl
    constructor
    · intro h _ _ id hnamed s hs q hlast hok
      have hres := resolve_last (m := m) hfunc
      rw [hlast] at hres
      cases hq : f.reexecuteRequest q with
      | error e =>
        rw [hq] at hok
        cases hok
      | ok p =>
        rw [← text_of_reexecuteRequest hq]
        exact h hre id hnamed s hs p (hres.trans hq)
    · intro h _ id hnamed s hs p hp
      rw [resolve_last hfunc] at hp
      cases hlast : m.lastExecute with
      | none =>
        rw [hlast] at hp
        cases hp
      | some q =>
        rw [hlast] at hp
        rw [text_of_reexecuteRequest hp]
        refine h rfl hfunc id hnamed s hs q hlast ?_
        simp only at hp
        rw [hp]
        rfl

end Reexecute

/-- **When a run keeps the cursor ids right**: there are no more texts than ids, and the bare
re-executes of a jdbc-style client name the statement that was executed last. -/
theorem cursorsCoherent_iff {d : Dialect} (hd : d ≠ .thin) (fs : List Frame) :
    CursorsCoherent d fs ↔ (texts fs).length ≤ capacity d ∧
      (d = .jdbc → ∀ pre f, pre ++ [f] <+: fs → NamesLast (CursorMaps.run d pre) f) := by
  constructor
  · intro h
    refine ⟨(coherent_iff hd fs).1 (h fs (List.prefix_refl fs)).1, ?_⟩
    rintro hjdbc pre f hpre
    obtain ⟨hm, hruns⟩ := h pre ((List.prefix_append pre [f]).trans hpre)
    exact (reruns_iff hd hm).1 (hruns f hpre) hjdbc
  · rintro ⟨hcap, hlast⟩ pre hpre
    have hm : Coherent (CursorMaps.run d pre) := by
      rw [coherent_iff hd, ← length_issued hd]
      rw [← length_issued hd] at hcap
      exact Nat.le_trans (length_issued_le hpre) hcap
    exact ⟨hm, fun f hf => (reruns_iff hd hm).2 fun hjdbc => hlast hjdbc pre f hf⟩

/-- An Execute of a text. -/
def executeFrame (sql : String) : Frame where
  func := .execute
  seq := 1
  parsed := .ok (sql, [])
  hasNoSql := false
  named := none
  rebind p := .ok p.2

/-- A re-execute of the statement with a cursor id. -/
def reexecuteFrame (id : ℕ) : Frame where
  func := .reexecuteAndFetch
  seq := 2
  parsed := .error "reexecute"
  hasNoSql := true
  named := some id
  rebind p := .ok p.2

/-- Two statements in turn, and the second one again. -/
theorem twoStatements_coherent :
    CursorsCoherent .oci
      [executeFrame "SELECT 1 FROM dual", executeFrame "SELECT 2 FROM dual", reexecuteFrame 3] :=
  (cursorsCoherent_iff (by decide) _).2 ⟨by decide, fun h => by cases h⟩

/-- A query with so many blanks behind it. -/
def query (n : ℕ) : String := String.ofList ("SELECT 1 FROM dual".toList ++ List.replicate n ' ')

lemma length_query (n : ℕ) : (query n).length = 18 + n := by
  have hselect : "SELECT 1 FROM dual".toList.length = 18 := by decide
  show (String.ofList ("SELECT 1 FROM dual".toList ++ List.replicate n ' ')).length = 18 + n
  rw [String.length_ofList, List.length_append, List.length_replicate, hselect]

/-- As many statements as there are ids, and one more. -/
def manyStatements : List Frame := (List.range 65534).map fun n => executeFrame (query n)

/-- **Two of so many statements share an id.** -/
theorem wrapAround_not_coherent : ¬ CursorsCoherent .oci manyStatements := by
  intro h
  have hcap := (coherent_iff (by decide) _).1 (h _ (List.prefix_refl _)).1
  have htext : ∀ n, (executeFrame (query n)).text = some (query n) := by
    intro n
    have hne : query n ≠ "" := by
      intro heq
      have hlen := length_query n
      have hempty : "".length = 0 := rfl
      rw [heq, hempty] at hlen
      omega
    exact if_neg hne
  have htexts : manyStatements.filterMap Frame.text = (List.range 65534).map query := by
    rw [manyStatements, List.filterMap_map, ← List.filterMap_eq_map]
    exact List.filterMap_congr fun n _ => htext n
  have hinj : Function.Injective query := by
    intro a b hab
    have hlen := congrArg String.length hab
    rw [length_query, length_query] at hlen
    omega
  rw [texts, htexts, List.dedup_eq_self.2 (List.nodup_range.map hinj), List.length_map,
    List.length_range] at hcap
  exact absurd hcap (by decide)

end DbSaci.Server
