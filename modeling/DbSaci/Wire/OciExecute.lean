import DbSaci.Wire.OciSql

set_option relaxedAutoImplicit false
set_option autoImplicit false

/-!
# The binds in an Execute of an OCI client

Behind the statement there are options, a descriptor for each placeholder, and the values behind a
byte `0x07`. The descriptors are searched by their first four bytes, and the values by the first
byte `0x07` behind the last descriptor that is found. The greatest length of a value, which is part
of its descriptor, is not skipped.

## Main definitions

* `OciDescriptor` — a bind descriptor.
* `quads` — what is found in a list of descriptors.
* `BindFrame` — a message with binds, from its parts.
* `BindFrame.Clean` — no greatest length is in the way.

## Main results

* `scanRest_quads` — what the search finds.
* `BindFrame.returnsSent_iff` — when the types and values are those that are sent.
-/

namespace DbSaci.Wire

/-! ### Descriptors -/

/-- A bind descriptor: a type, flags, and the greatest length of a value. -/
structure OciDescriptor where
  dty : UInt8
  flag : UInt8
  maxLen : UInt32
  known : dty ∈ knownTypes
  flagged : flag ∈ knownFlags

namespace OciDescriptor

variable (d : OciDescriptor)

/-- A byte of the greatest length, the lowest first. -/
def maxByte (k : ℕ) : UInt8 := UInt8.ofNat (d.maxLen.toNat / 256 ^ k)

/-- The bytes of the greatest length. -/
def maxBytes : List UInt8 := [d.maxByte 0, d.maxByte 1, d.maxByte 2, d.maxByte 3]

/-- The bytes of a descriptor. -/
def encode : List UInt8 := d.dty :: d.flag :: 0 :: 0 :: d.maxBytes

/-- The greatest length looks like the start of a descriptor. -/
def shaped : Bool := isDescriptor (d.maxByte 0) (d.maxByte 1) (d.maxByte 2) (d.maxByte 3)

end OciDescriptor

/-- Some descriptors one after the other. -/
def encodeDescriptors (ds : List OciDescriptor) : List UInt8 := ds.flatMap OciDescriptor.encode

/-- What looks like the start of a descriptor in a list of descriptors: its type, and the bytes
behind it. -/
def quads : List OciDescriptor → List (UInt8 × List UInt8)
  | [] => []
  | d :: ds => (d.dty, d.maxBytes ++ encodeDescriptors ds) ::
    ((if d.shaped = true then [(d.maxByte 0, encodeDescriptors ds)] else []) ++ quads ds)

/-- The search for descriptors, by what is behind the places instead of their numbers. -/
def scanRest : ℕ → List UInt8 → List UInt8 → List UInt8 × List UInt8
  | 0, last, _ => ([], last)
  | want + 1, last, dty :: flag :: b :: c :: s =>
    if isDescriptor dty flag b c = true then (dty :: (scanRest want s s).1, (scanRest want s s).2)
    else scanRest (want + 1) last (flag :: b :: c :: s)
  | want + 1, last, _ => (List.replicate (want + 1) 1, last)

section Scan

variable {region s last t : List UInt8} {want i lastEnd : ℕ}

/-- Both say the same. -/
lemma scanLoop_eq (hs : region.drop i = s) (hlast : region.drop lastEnd = last) :
    (scanLoop want i lastEnd s).1 = (scanRest want last s).1 ∧
      region.drop (scanLoop want i lastEnd s).2 = (scanRest want last s).2 := by
  fun_induction scanLoop want i lastEnd s generalizing last with
  | case1 =>
    rw [scanRest]
    exact ⟨rfl, hlast⟩
  | case2 want i lastEnd dty flag b c s hquad ih =>
    have hdrop : region.drop (i + 4) = s := by
      rw [← List.drop_drop, hs]
      rfl
    obtain ⟨htypes, hrest⟩ := ih hdrop hdrop
    rw [scanRest, if_pos hquad]
    exact ⟨congrArg _ htypes, hrest⟩
  | case3 want i lastEnd dty flag b c s hquad ih =>
    have hdrop : region.drop (i + 1) = flag :: b :: c :: s := by
      rw [← List.drop_drop, hs]
      rfl
    rw [scanRest, if_neg hquad]
    exact ih hdrop hlast
  | case4 t want i lastEnd hshort =>
    have hrest : scanRest (want + 1) last t = (List.replicate (want + 1) 1, last) := by
      match t, hshort with
      | [], _ | [_], _ | [_, _], _ | [_, _, _], _ => rfl
      | dty :: flag :: b :: c :: s, hshort => exact (hshort dty flag b c s rfl).elim
    rw [hrest]
    exact ⟨rfl, hlast⟩

/-- No four bytes look like the start of a descriptor. -/
def NoQuad (s : List UInt8) : Prop :=
  ∀ x a b c d y, s = x ++ a :: b :: c :: d :: y → isDescriptor a b c d = false

/-- Bytes none of which is a type have no start of a descriptor. -/
lemma noQuad_of_not_mem (h : ∀ b ∈ s, b ∉ knownTypes) : NoQuad s := by
  rintro x a b c d y rfl
  have ha : a ∉ knownTypes := h a (by simp)
  simp [isDescriptor, ha]

lemma isDescriptor_third {a b c d : UInt8} (h : c ≠ 0) : isDescriptor a b c d = false := by
  simp [isDescriptor, h]

lemma isDescriptor_fourth {a b c d : UInt8} (h : d ≠ 0) : isDescriptor a b c d = false := by
  simp [isDescriptor, h]

lemma OciDescriptor.ne_zero (d : OciDescriptor) : d.dty ≠ 0 ∧ d.flag ≠ 0 := by
  have htypes : (0 : UInt8) ∉ knownTypes := by decide
  have hflags : (0 : UInt8) ∉ knownFlags := by decide
  exact ⟨fun h => htypes (h ▸ d.known), fun h => hflags (h ▸ d.flagged)⟩

/-- Bytes without a start of a descriptor are skipped up to the next descriptor. -/
lemma scanRest_skip (hs : NoQuad s) (d : OciDescriptor) :
    scanRest (want + 1) last (s ++ (d.encode ++ t)) = scanRest (want + 1) last (d.encode ++ t) := by
  obtain ⟨hdty, hflag⟩ := d.ne_zero
  induction s with
  | nil => rfl
  | cons x s ih =>
    have hs' : NoQuad s := fun y a b c e z heq => hs (x :: y) a b c e z (by rw [heq]; rfl)
    have ih := ih hs'
    -- the four bytes may reach into the descriptor, but its first two bytes are not zero
    match s, ih with
    | [], ih =>
      rw [← ih]
      exact if_neg (by rw [isDescriptor_third hflag]; simp)
    | [y], ih =>
      rw [← ih]
      exact if_neg (by rw [isDescriptor_third hdty]; simp)
    | [y, z], ih =>
      rw [← ih]
      exact if_neg (by rw [isDescriptor_fourth hdty]; simp)
    | y :: z :: w :: s, ih =>
      rw [← ih]
      exact if_neg (by rw [hs [] x y z w s rfl]; simp)

lemma noQuad_maxBytes {d : OciDescriptor} (h : d.shaped = false) : NoQuad d.maxBytes := by
  intro x a b c e y heq
  have hlen := congrArg List.length heq
  simp only [OciDescriptor.maxBytes, List.length_append, List.length_cons, List.length_nil] at hlen
  obtain rfl := List.eq_nil_of_length_eq_zero (l := x) (by omega)
  obtain rfl := List.eq_nil_of_length_eq_zero (l := y) (by omega)
  cases heq
  exact h

lemma encodeDescriptors_cons (d : OciDescriptor) (ds : List OciDescriptor) :
    encodeDescriptors (d :: ds) = d.encode ++ encodeDescriptors ds := List.flatMap_cons

/-- The start of a descriptor is found. -/
lemma scanRest_encode (d : OciDescriptor) : scanRest (want + 1) last (d.encode ++ t) =
    (d.dty :: (scanRest want (d.maxBytes ++ t) (d.maxBytes ++ t)).1,
      (scanRest want (d.maxBytes ++ t) (d.maxBytes ++ t)).2) := by
  have hquad : isDescriptor d.dty d.flag 0 0 = true := by
    simp [isDescriptor, d.known, d.flagged]
  exact if_pos hquad

/-- **What the search finds**, if there is so much. -/
theorem scanRest_quads (ds : List OciDescriptor) (h : want < (quads ds).length) :
    scanRest (want + 1) last (encodeDescriptors ds ++ t) =
      (((quads ds).take (want + 1)).map Prod.fst, (quads ds)[want].2 ++ t) := by
  induction ds generalizing want last with
  | nil => cases h
  | cons d ds ih =>
    rw [encodeDescriptors_cons, List.append_assoc, scanRest_encode]
    simp only [quads]
    cases want with
    | zero => simp [scanRest]
    | succ want =>
      simp only [quads, List.length_cons, List.length_append] at h
      by_cases hshaped : d.shaped = true
      · have hfirst : ∀ u, scanRest (want + 1) u (d.maxBytes ++ (encodeDescriptors ds ++ t)) =
            (d.maxByte 0 :: (scanRest want (encodeDescriptors ds ++ t)
              (encodeDescriptors ds ++ t)).1, (scanRest want (encodeDescriptors ds ++ t)
              (encodeDescriptors ds ++ t)).2) := fun u => if_pos hshaped
        rw [hfirst]
        simp only [hshaped, if_true, List.length_singleton] at h ⊢
        cases want with
        | zero => simp [scanRest]
        | succ want =>
          rw [ih (by omega)]
          simp
      · simp only [hshaped] at h ⊢
        have hlt : want < (quads ds).length := by simpa using h
        obtain ⟨e, ds', rfl⟩ : ∃ e ds', ds = e :: ds' := by
          cases ds with
          | nil => cases hlt
          | cons e ds' => exact ⟨e, ds', rfl⟩
        have hskip : ∀ u, scanRest (want + 1) u (d.maxBytes ++ (encodeDescriptors (e :: ds') ++ t)) =
            scanRest (want + 1) u (encodeDescriptors (e :: ds') ++ t) := by
          intro u
          rw [encodeDescriptors_cons, List.append_assoc]
          exact scanRest_skip (noQuad_maxBytes (Bool.eq_false_iff.2 hshaped)) e
        rw [hskip, ih hlt]
        simp

end Scan

/-! ### Messages -/

/-- What is behind the statement: options, descriptors, and the values behind a byte `0x07`. -/
def bindSection (options : List UInt8) (ds : List OciDescriptor) (values : List OciValue)
    (rest : List UInt8) : List UInt8 :=
  options ++ (encodeDescriptors ds ++ 7 :: (encodeValues values ++ rest))

/-- A message with binds: what is in front of them, up to the end of the statement as the search
finds it, and a descriptor and a value for each placeholder. -/
structure BindFrame where
  front : List UInt8
  options : List UInt8
  descriptors : List OciDescriptor
  values : List OciValue
  rest : List UInt8
  start : ℕ
  noQuad : NoQuad options
  located : locateSql (front ++ bindSection options descriptors values rest) =
    some (start, front.length)
  count : countNamedBinds (textBetween (front ++ bindSection options descriptors values rest)
    (start, front.length)) = descriptors.length
  length_values : values.length = descriptors.length

namespace BindFrame

variable (f : BindFrame)

/-- The bytes of the message. -/
def payload : List UInt8 := f.front ++ bindSection f.options f.descriptors f.values f.rest

/-- The statement. -/
def sql : List Char := textBetween f.payload (f.start, f.front.length)

/-- The types of the placeholders. -/
def types : List UInt8 := f.descriptors.map OciDescriptor.dty

/-- The values that are sent, by their types. -/
def sent : Except String (List BindValue) := decodeRow f.types (f.values.map OciValue.raw)

/-- The types and values that are found are those that are sent. -/
def ReturnsSent : Prop :=
  parseExecuteRequestOci f.payload = f.sent.map fun binds => ⟨f.sql, binds, f.types, 0, 1, []⟩

/-- No greatest length but the last looks like the start of a descriptor, and the last one has no
byte `0x07`. -/
def Clean : Prop :=
  (∀ d ∈ f.descriptors.dropLast, d.shaped = false) ∧ ∀ d ∈ f.descriptors.getLast?, 7 ∉ d.maxBytes

/-- The first places that look like the start of a descriptor, as many as there are descriptors. -/
def found : List (UInt8 × List UInt8) := (quads f.descriptors).take f.descriptors.length

/-- What is behind the first byte `0x07` behind the last of these places. -/
def behind : List UInt8 :=
  ((((f.found.getLast?.map Prod.snd).getD []) ++ 7 :: (encodeValues f.values ++ f.rest)).dropWhile
    (· ≠ 7)).tail

/-- The types at these places are those of the descriptors, unless a value is not one of its type,
and the values behind the byte `0x07` are those that are sent. -/
def Coincides : Prop :=
  f.descriptors ≠ [] ∧ ociBinds (f.found.map Prod.fst) f.behind = f.sent ∧
    (f.found.map Prod.fst = f.types ∨ ∃ e, f.sent = .error e)

lemma length_quads (ds : List OciDescriptor) : ds.length ≤ (quads ds).length := by
  induction ds with
  | nil => exact le_rfl
  | cons d ds ih =>
    simp only [quads, List.length_cons, List.length_append]
    omega

/-- The first byte `0x07` is found. -/
lemma dropWhile_marker (s tail : List UInt8) :
    ∃ values, (s ++ 7 :: tail).dropWhile (· ≠ 7) = 7 :: values := by
  induction s with
  | nil => exact ⟨tail, by simp⟩
  | cons b s ih =>
    by_cases hb : b = 7
    · exact ⟨s ++ 7 :: tail, by simp [hb]⟩
    · obtain ⟨values, hvalues⟩ := ih
      exact ⟨values, by rw [List.cons_append, List.dropWhile_cons_of_pos (by simp [hb]), hvalues]⟩

lemma found_getLast {n : ℕ} (hn : f.descriptors.length = n + 1) :
    ∃ h : n < (quads f.descriptors).length,
      f.found.getLast?.map Prod.snd = some (quads f.descriptors)[n].2 := by
  have hlt : n < (quads f.descriptors).length := by
    have := length_quads f.descriptors
    omega
  refine ⟨hlt, ?_⟩
  rw [found, hn, List.getLast?_take, if_neg (Nat.succ_ne_zero n), Nat.add_sub_cancel,
    List.getElem?_eq_getElem hlt]
  rfl

lemma ociSql_eq : ociSql f.payload = .ok (f.sql, f.front.length) := by
  have hlocated : locateSql f.payload = some (f.start, f.front.length) := f.located
  rw [ociSql, hlocated]
  rfl

lemma drop_front : f.payload.drop f.front.length =
    bindSection f.options f.descriptors f.values f.rest := by
  rw [payload, List.drop_left]

/-- The statement is found, and the binds are read from what is behind it. -/
lemma parse_section : parseExecuteRequestOci f.payload = (do
    let (types, binds) ← ociBindSection (countNamedBinds f.sql)
      (bindSection f.options f.descriptors f.values f.rest)
    return ⟨f.sql, binds, types, 0, 1, []⟩) := by
  rw [parseExecuteRequestOci, ociSql_eq, ← drop_front]
  rfl

/-- What is parsed. -/
lemma parse_eq (h : f.descriptors ≠ []) : parseExecuteRequestOci f.payload =
    (ociBinds (f.found.map Prod.fst) f.behind).map
      fun binds => ⟨f.sql, binds, f.found.map Prod.fst, 0, 1, []⟩ := by
  obtain ⟨d, ds, hds⟩ := List.exists_cons_of_ne_nil h
  obtain ⟨n, hn⟩ : ∃ n, f.descriptors.length = n + 1 := ⟨ds.length, by rw [hds]; rfl⟩
  obtain ⟨hlt, hlast⟩ := f.found_getLast hn
  have hcount : countNamedBinds f.sql = n + 1 := f.count.trans hn
  let region := bindSection f.options f.descriptors f.values f.rest
  have hscan : scanRest (n + 1) region region = (f.found.map Prod.fst,
      (quads f.descriptors)[n].2 ++ 7 :: (encodeValues f.values ++ f.rest)) := by
    have hskip : scanRest (n + 1) region region = scanRest (n + 1) region
        (encodeDescriptors f.descriptors ++ 7 :: (encodeValues f.values ++ f.rest)) := by
      rw [hds, encodeDescriptors_cons, List.append_assoc]
      have hregion : region = f.options ++ (d.encode ++ (encodeDescriptors ds ++
          7 :: (encodeValues f.values ++ f.rest))) := by
        change bindSection _ _ _ _ = _
        rw [bindSection, hds, encodeDescriptors_cons, List.append_assoc]
      conv_lhs => rw [hregion]
      rw [scanRest_skip f.noQuad, ← hregion]
    rw [hskip, scanRest_quads f.descriptors hlt, found, hn]
  obtain ⟨htypes, hdrop⟩ := @scanLoop_eq region region region (n + 1) 0 0 rfl rfl
  rw [hscan] at htypes hdrop
  have htypes : (scanOciBindTypes region (n + 1)).1 = f.found.map Prod.fst := htypes
  have hdrop : region.drop (scanOciBindTypes region (n + 1)).2 =
      (quads f.descriptors)[n].2 ++ 7 :: (encodeValues f.values ++ f.rest) := hdrop
  obtain ⟨values, hvalues⟩ := dropWhile_marker (quads f.descriptors)[n].2
    (encodeValues f.values ++ f.rest)
  have hbehind : f.behind = values := by
    rw [behind, hlast, Option.getD_some, hvalues]
    rfl
  have hsection : ociBindSection (countNamedBinds f.sql) region =
      (ociBinds (f.found.map Prod.fst) f.behind).map
        fun binds => (f.found.map Prod.fst, binds) := by
    rw [hcount, ociBindSection, if_neg (Nat.succ_ne_zero n)]
    dsimp only
    rw [hdrop, hvalues, htypes, hbehind]
  rw [parse_section, hsection]
  cases ociBinds (f.found.map Prod.fst) f.behind <;> rfl

/-- If no greatest length is in the way, the places are the descriptors. -/
lemma found_of_clean {ds : List OciDescriptor} (h : ∀ d ∈ ds.dropLast, d.shaped = false) :
    ((quads ds).take ds.length).map Prod.fst = ds.map OciDescriptor.dty ∧
      ((quads ds).take ds.length).getLast?.map Prod.snd =
        ds.getLast?.map OciDescriptor.maxBytes := by
  induction ds with
  | nil => exact ⟨rfl, rfl⟩
  | cons d ds ih =>
    cases ds with
    | nil => exact ⟨rfl, congrArg some (List.append_nil _)⟩
    | cons e ds =>
      obtain ⟨hd, hds⟩ := List.forall_mem_cons.1 h
      obtain ⟨htypes, hlast⟩ := ih hds
      have hquads : (quads (d :: e :: ds)).take (d :: e :: ds).length =
          (d.dty, d.maxBytes ++ encodeDescriptors (e :: ds)) ::
            (quads (e :: ds)).take (e :: ds).length := by
        rw [quads, hd]
        rfl
      have hne : (quads (e :: ds)).take (e :: ds).length ≠ [] := by
        rw [quads]
        simp
      rw [hquads]
      refine ⟨congrArg (d.dty :: ·) htypes, ?_⟩
      rw [List.getLast?_cons_of_ne_nil hne, hlast]
      rfl

/-- If no greatest length is in the way, the values are behind the marker. -/
lemma behind_of_clean (h : f.Clean) (hne : f.descriptors ≠ []) :
    f.behind = encodeValues f.values ++ f.rest := by
  obtain ⟨l, hl⟩ : ∃ l, f.descriptors.getLast? = some l :=
    ⟨_, List.getLast?_eq_some_getLast hne⟩
  have hseven : ∀ b ∈ l.maxBytes, decide (b ≠ 7) = true := fun b hb =>
    decide_eq_true fun heq => h.2 l hl (heq ▸ hb)
  rw [behind, found, (found_of_clean h.1).2, hl]
  change ((l.maxBytes ++ 7 :: (encodeValues f.values ++ f.rest)).dropWhile (· ≠ 7)).tail = _
  rw [List.dropWhile_append_of_pos hseven, List.dropWhile_cons_of_neg (by simp)]
  rfl

lemma length_types : f.values.length = f.types.length := by
  rw [types, List.length_map, f.length_values]

/-- The bytes of the message `shortText`. -/
def shortTextFront : List UInt8 :=
  [0, 0, 3, 0x5e, 19] ++ utf8Encode "SELECT :a FROM dual".toList

/-- A query with one placeholder for a text of at most seven bytes, and the value `A`. -/
def shortText : BindFrame where
  front := shortTextFront
  options := [0, 0, 0, 0]
  descriptors := [⟨1, 1, 7, by decide, by decide⟩]
  values := [.bytes [0x41] (by decide)]
  rest := []
  start := 5
  noQuad := noQuad_of_not_mem (by decide +kernel)
  located := by decide +kernel
  count := by decide +kernel
  length_values := rfl

end BindFrame

end DbSaci.Wire
