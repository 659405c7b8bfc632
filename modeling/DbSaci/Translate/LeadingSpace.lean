import DbSaci.Translate.OracleDdl

set_option relaxedAutoImplicit false
set_option autoImplicit false

/-!
# White space in front of a definition

The pass gives the same statement behind any white space if and only if it cuts the statement at no
place that it has found in the text without that white space.

## Main definitions

* `IgnoresLeading` — the pass gives the same statement behind any white space.
* `Shifted` — a branch of the pass cuts the statement at a place found in the other text.

## Main results

* `steady_storedColumns`, `steady_lowerRest` — the steps leave a front, and white space before it.
* `ignoresLeading_iff` — when the pass gives the same statement behind any white space.
-/

namespace DbSaci.Translate.Ddl

open Text Physical

variable (alphanumeric : Char → Bool)

/-- The pass gives the same statement behind any white space, up to that white space. -/
def IgnoresLeading (s : List Char) : Prop :=
  ∀ w, Spaces w → ∃ r r', rewriteOracleDdl alphanumeric (w ++ s) = some r ∧
    rewriteOracleDdl alphanumeric s = some r' ∧ trimStart r = trimStart r'

/-- A branch of the pass cuts the statement: `ALTER TABLE` with a list of columns behind `ADD`,
`MODIFY`, `DROP` or `SET UNUSED`, or the keys of an index. -/
def Shifted (l : List Char) : Prop :=
  (startsWith "ALTER TABLE ".toList l = true ∧
      ∃ b ∈ alterBranches, (find b.1 (upper l)).isSome = true) ∨
    ∃ onAt, indexOn l = some onAt ∧ '(' ∈ l.drop (onAt + "ON".toList.length)

/-! ### The steps -/

section Steps

variable {X : List Char}

lemma isWordByte_of_isAlpha {c : Char} (h : c.isAlpha = true ∨ c = '_') : isWordByte c = true := by
  rcases h with h | rfl
  · rw [isWordByte, Char.isAlphanum, h]
    rfl
  · rfl

/-- What is copied stays as it is. -/
lemma replaceIdentLoop_copy (ident put : List Char) (n : ℕ) (before : Option Char)
    (x t : List Char) :
    replaceIdentLoop ident put (x.length + n) 0 before (x ++ t) =
      x ++ replaceIdentLoop ident put n 0 (lastAfter before x) t := by
  induction x generalizing before with
  | nil =>
    rw [List.length_nil, Nat.zero_add]
    rfl
  | cons c x ih =>
    have hlen : (c :: x).length + n = (x.length + n) + 1 := by
      rw [List.length_cons]
      omega
    rw [hlen, List.cons_append, replaceIdentLoop, ih, lastAfter_cons, List.cons_append]

/-- White space stays as it is. -/
lemma replaceIdentLoop_spaces {w : List Char} (hw : Spaces w) (ident put : List Char)
    (before : Option Char) (s : List Char) :
    replaceIdentLoop ident put 0 0 before (w ++ s) =
      w ++ replaceIdentLoop ident put 0 0 (lastAfter before w) s := by
  induction w generalizing before with
  | nil => rfl
  | cons c w ih =>
    have hc := hw c List.mem_cons_self
    have hquote : ¬ (c = '\'' ∨ c = '"' ∨ c.toNat = 96) := by
      rintro (rfl | rfl | h)
      · cases hc
      · cases hc
      · simp [isSpace, h] at hc
    have hword : ¬ (c.isAlpha = true ∨ c = '_') := by
      intro h
      have hbyte := isWordByte_of_isAlpha h
      rw [not_isWordByte_of_isSpace hc] at hbyte
      cases hbyte
    rw [List.cons_append, replaceIdentLoop, if_neg hquote, if_neg hword,
      ih (fun d hd => hw d (List.mem_cons_of_mem c hd)), lastAfter_cons, List.cons_append]

/-- A word at the start of a text stays as it is if it starts with another letter. -/
lemma replaceIdentLoop_word (put : List Char) {ident x : List Char} {c : Char}
    (hx : ∀ d ∈ c :: x, d.isAlpha = true) (hhead : ident.head? ≠ some c.toUpper)
    (t : List Char) (before : Option Char) :
    replaceIdentLoop ident put 0 0 before (c :: x ++ t) =
      c :: x ++ replaceIdentLoop ident put (t.takeWhile isWordByte).length 0
        (lastAfter (some c) x) t := by
  have hbyte : ∀ d ∈ c :: x, isWordByte d = true := fun d hd =>
    isWordByte_of_isAlpha (Or.inl (hx d hd))
  have hc := hx c List.mem_cons_self
  have hquote : ¬ (c = '\'' ∨ c = '"' ∨ c.toNat = 96) := by
    rintro (rfl | rfl | h)
    · cases hc
    · cases hc
    · rw [← Char.ofNat_toNat c, h] at hc
      cases hc
  have hword : (c :: x ++ t).takeWhile isWordByte = c :: (x ++ t.takeWhile isWordByte) := by
    rw [List.takeWhile_append_of_pos hbyte, List.cons_append]
  have hident : ¬ (upper (c :: (x ++ t.takeWhile isWordByte)) = ident ∧ before ≠ some '.') := by
    rintro ⟨rfl, -⟩
    exact hhead rfl
  have hlen : (c :: (x ++ t.takeWhile isWordByte)).length - 1 =
      x.length + (t.takeWhile isWordByte).length := by
    rw [List.length_cons, Nat.add_sub_cancel, List.length_append]
  rw [List.cons_append] at hword
  rw [List.cons_append, replaceIdentLoop, if_neg hquote, if_pos (Or.inl hc)]
  simp only [hword]
  rw [if_neg hident, hlen, replaceIdentLoop_copy, List.cons_append]

/-- **Identifiers are looked for behind a word** that starts with another letter. -/
theorem steady_replaceIdentCi {ident : List Char} (put : List Char)
    (hletters : ∀ c ∈ X, c.isUpper = true) (hne : X ≠ []) (hhead : X.head? ≠ ident.head?) :
    Steady X fun s => replaceIdentCi s ident put := by
  intro s hs
  obtain ⟨x, t, rfl, hx⟩ := exists_front hs
  obtain ⟨c, x, rfl⟩ : ∃ c x', x = c :: x' := by
    refine List.exists_cons_of_ne_nil ?_
    rintro rfl
    exact hne hx.symm
  have halpha : ∀ d ∈ c :: x, d.isAlpha = true := by
    intro d hd
    have hup : d.toUpper.isUpper = true := by
      apply hletters
      rw [← hx]
      exact List.mem_map_of_mem hd
    rcases toUpper_cases d with h | ⟨h, -⟩
    · rw [h] at hup
      delta Char.isAlpha
      rw [hup]
      rfl
    · exact h
  have hother : ident.head? ≠ some c.toUpper := by
    rw [← hx] at hhead
    exact fun h => hhead h.symm
  have hword := replaceIdentLoop_word put halpha hother t
  refine ⟨?_, fun w hw => ?_⟩
  · show startsWith X (replaceIdentLoop ident put 0 0 none (c :: x ++ t)) = true
    rw [hword]
    exact startsWith_front hx
  · show replaceIdentLoop ident put 0 0 none (w ++ (c :: x ++ t)) =
      w ++ replaceIdentLoop ident put 0 0 none (c :: x ++ t)
    rw [replaceIdentLoop_spaces hw, hword, hword]

/-- **Virtual columns are looked for behind a front.** -/
theorem steady_storedColumns (hletters : ∀ c ∈ X, c.isUpper = true) (hne : X ≠ [])
    (hhead : X.head? ≠ some 'V') (trimmed : List Char) : Steady X (storedColumns trimmed) := by
  by_cases h : startsWith "CREATE ".toList trimmed = true ∧
      (find " GENERATED ".toList (upper trimmed)).isSome = true
  · have hfun : storedColumns trimmed =
        fun sql => replaceIdentCi sql "VIRTUAL".toList "STORED".toList := by
      funext sql
      rw [storedColumns, if_pos h]
    rw [hfun]
    exact steady_replaceIdentCi _ hletters hne hhead
  · have hfun : storedColumns trimmed = fun sql => sql := by
      funext sql
      rw [storedColumns, if_neg h]
    rw [hfun]
    exact fun s hs => ⟨hs, fun _ _ => rfl⟩

lemma defaultLoop_none {s : List Char} (h : find "DEFAULT ON NULL ".toList (upper s) = none)
    (n : ℕ) : defaultLoop n s = s := by
  cases n with
  | zero => rfl
  | succ n => rw [defaultLoop, h]

/-- A round makes the text shorter. -/
lemma defaultLoop_shorter {s : List Char} {pos : ℕ}
    (h : find "DEFAULT ON NULL ".toList (upper s) = some pos) :
    (s.take pos ++ ("DEFAULT ".toList ++
      s.drop (pos + "DEFAULT ON NULL ".toList.length))).length < s.length := by
  have hle := find_add_le h
  have h1 : "DEFAULT ON NULL ".toList.length = 16 := rfl
  have h2 : "DEFAULT ".toList.length = 8 := rfl
  rw [length_upper] at hle
  simp only [List.length_append, List.length_take, List.length_drop]
  omega

/-- More rounds than characters do nothing. -/
lemma defaultLoop_eq {n : ℕ} {s : List Char} (h : s.length ≤ n) :
    defaultLoop n s = defaultLoop s.length s := by
  induction n using Nat.strongRecOn generalizing s with
  | ind n ih =>
    cases hfind : find "DEFAULT ON NULL ".toList (upper s) with
    | none => rw [defaultLoop_none hfind, defaultLoop_none hfind]
    | some pos =>
      have hlt := defaultLoop_shorter hfind
      obtain ⟨m, rfl⟩ : ∃ m, n = m + 1 := ⟨n - 1, by omega⟩
      obtain ⟨k, hk⟩ : ∃ k, s.length = k + 1 := ⟨s.length - 1, by omega⟩
      rw [hk, defaultLoop, hfind, defaultLoop, hfind]
      show defaultLoop m _ = defaultLoop k _
      rw [ih m (by omega) (by omega)]
      rcases Nat.lt_or_ge k (m + 1) with hkm | hkm
      · rw [ih k hkm (by omega)]
      · omega

lemma defaultLoop_append {x : List Char}
    (hx : ∀ t, Text.Quiet "DEFAULT ON NULL ".toList x t) (n : ℕ) (t : List Char) :
    defaultLoop n (x ++ t) = x ++ defaultLoop n t := by
  induction n generalizing t with
  | zero => rfl
  | succ n ih =>
    rw [defaultLoop, defaultLoop, (hx t).find_append]
    cases hfind : find "DEFAULT ON NULL ".toList (upper t) with
    | none => rfl
    | some pos =>
      have hpos : pos + x.length + "DEFAULT ON NULL ".toList.length =
          x.length + (pos + "DEFAULT ON NULL ".toList.length) := by omega
      simp only [Option.map_some, hpos, List.drop_length_add_append]
      rw [Nat.add_comm pos, List.take_length_add_append, List.append_assoc, ih]

/-- **The end of the pass works behind a front.** -/
theorem steady_lowerRest (hX : Front X) (happart : Apart "DEFAULT ON NULL ".toList X) :
    Steady X (lowerRest alphanumeric) := by
  have hloop : Steady X fun out => defaultLoop out.length out := by
    intro s hs
    obtain ⟨x, t, rfl, hx⟩ := exists_front hs
    have hquiet : ∀ w, Spaces w → defaultLoop (w ++ (x ++ t)).length (w ++ (x ++ t)) =
        w ++ (x ++ defaultLoop t.length t) := by
      intro w hw
      have hfront : ∀ t, Text.Quiet "DEFAULT ON NULL ".toList (w ++ x) t := by
        intro t
        have hself : Text.Quiet "DEFAULT ON NULL ".toList x t := by
          apply quiet_of_apart
          rw [hx]
          exact happart
        exact (quiet_of_letter (by decide) hw (x ++ t)).append hself
      have hle : t.length ≤ (w ++ x ++ t).length := by
        rw [List.length_append]
        omega
      rw [← List.append_assoc, defaultLoop_append hfront, defaultLoop_eq hle, List.append_assoc]
    have hself := hquiet [] (by simp [Spaces])
    rw [List.nil_append, List.nil_append] at hself
    refine ⟨?_, fun w hw => ?_⟩
    · show startsWith X (defaultLoop (x ++ t).length (x ++ t)) = true
      rw [hself]
      exact startsWith_front hx
    · show defaultLoop (w ++ (x ++ t)).length (w ++ (x ++ t)) =
        w ++ defaultLoop (x ++ t).length (x ++ t)
      rw [hquiet w hw, hself]
  exact (steady_strip alphanumeric hX).comp hloop

end Steps

/-! ### Statements that are not cut -/

lemma find_singleton_isSome (c : Char) (s : List Char) : (find [c] s).isSome = true ↔ c ∈ s := by
  induction s with
  | nil => simp [find]
  | cons d s ih =>
    rw [find]
    by_cases h : [c].isPrefixOf (d :: s) = true
    · obtain ⟨rfl, -⟩ := List.cons_prefix_cons.1 (List.isPrefixOf_iff_prefix.1 h)
      simp
    · have hne : c ≠ d := by
        rintro rfl
        exact h (List.isPrefixOf_iff_prefix.2 (List.prefix_append [c] s))
      rw [if_neg h, Option.isSome_map, ih, List.mem_cons, or_iff_right hne]

/-- No branch is taken where no marker is found. -/
lemma firstBranch_passes {trimmed : List Char} (out : List Char)
    {L : List (List Char × (List (List Char) → Option (List Char)))}
    (h : ∀ b ∈ L, find b.1 (upper trimmed) = none) : firstBranch trimmed out L = .passes := by
  induction L with
  | nil => rfl
  | cons b L ih =>
    rw [firstBranch, listBranch, h b List.mem_cons_self]
    exact ih fun b' hb => h b' (List.mem_cons_of_mem b hb)

/-- What the pass gives where it does not cut the statement. -/
def uncut (l sql : List Char) : List Char :=
  match materializedView l with
  | some view => view
  | none =>
    match indexOn l with
    | some _ => stripOraclePhysicalClauses alphanumeric (storedColumns l sql)
    | none => lowerRest alphanumeric (storedColumns l sql)

/-- **The pass where it does not cut the statement.** -/
theorem lowerDdl_of_not_shifted {sql l : List Char} (htrim : trimStart sql = l)
    (h : ¬ Shifted l) : lowerDdl alphanumeric sql = some (uncut alphanumeric l sql) := by
  rw [lowerDdl, uncut]
  simp only [htrim]
  cases hview : materializedView l with
  | some view => rfl
  | none =>
    cases hon : indexOn l with
    | some onAt =>
      have hmem : '(' ∉ l.drop (onAt + "ON".toList.length) := fun hmem =>
        h (Or.inr ⟨onAt, hon, hmem⟩)
      rw [← find_singleton_isSome, Option.not_isSome_iff_eq_none] at hmem
      simp only [indexKeys, hmem, Option.map_some]
    | none =>
      show (if startsWith "ALTER TABLE ".toList l = true then _ else _) = _
      split_ifs with halter
      · have hpasses : firstBranch l (storedColumns l sql) alterBranches = .passes := by
          apply firstBranch_passes
          intro b hb
          rw [← Option.not_isSome_iff_eq_none]
          exact fun hfind => h (Or.inl ⟨halter, b, hb, hfind⟩)
        rw [hpasses]
      · rfl

/-- Two words at the start of a text agree. -/
lemma take_of_startsWith {p q l : List Char} (hp : startsWith p l = true)
    (hq : startsWith q l = true) : p.take q.length = q.take p.length := by
  rw [startsWith, List.isPrefixOf_iff_prefix] at hp hq
  obtain ⟨r, hr⟩ := hq
  rw [← hr] at hp
  exact take_of_start hp

/-- A statement is not cut if it starts otherwise. -/
lemma not_shifted_of_front {X l : List Char} (hl : startsWith X l = true)
    (hX : ∀ p ∈ "ALTER TABLE ".toList :: indexPrefixes, X.take p.length ≠ p.take X.length) :
    ¬ Shifted l := by
  have hno : ∀ p ∈ "ALTER TABLE ".toList :: indexPrefixes, ¬ startsWith p l = true :=
    fun p hp hstart => hX p hp (take_of_startsWith hl hstart)
  rintro (⟨halter, -⟩ | ⟨onAt, hon, -⟩)
  · exact hno _ List.mem_cons_self halter
  · have hany : ¬ (indexPrefixes.any fun p => startsWith p l) = true := by
      rw [List.any_eq_true]
      rintro ⟨p, hp, hstart⟩
      exact hno p (List.mem_cons_of_mem _ hp) hstart
    rw [indexOn, if_neg hany] at hon
    cases hon

/-! ### Statements that are cut -/

/-- A text that cannot be cut behind so many bytes. -/
lemma exists_unsplit {m : ℕ} (hm : 0 < m) :
    ∃ w, Spaces w ∧ ∀ s, splitAtByte m (w ++ s) = none := by
  have hodd : ∀ k s, splitAtByte (2 * k + 1) (List.replicate (k + 1) '\u00a0' ++ s) = none := by
    intro k
    induction k with
    | zero => exact fun s => rfl
    | succ k ih =>
      intro s
      have hsize : ('\u00a0').utf8Size = 2 := rfl
      have hsub : 2 * (k + 1) + 1 - 2 = 2 * k + 1 := by omega
      rw [List.replicate_succ, List.cons_append, splitAtByte, hsize, if_pos (by omega), hsub, ih]
      rfl
  have hspaces : ∀ k, Spaces (List.replicate k '\u00a0') := by
    intro k c hc
    rw [List.eq_of_mem_replicate hc]
    rfl
  rcases Nat.even_or_odd' m with ⟨k, rfl | rfl⟩
  · obtain ⟨j, rfl⟩ : ∃ j, k = j + 1 := ⟨k - 1, by omega⟩
    refine ⟨' ' :: List.replicate (j + 1) '\u00a0', ?_, fun s => ?_⟩
    · intro c hc
      rcases List.mem_cons.1 hc with rfl | hc
      · rfl
      · exact hspaces _ c hc
    · have hsize : (' ').utf8Size = 1 := rfl
      have hsucc : 2 * (j + 1) = 2 * j + 1 + 1 := by omega
      rw [hsucc, List.cons_append, splitAtByte, hsize, if_pos (by omega), Nat.add_sub_cancel, hodd]
      rfl
  · exact ⟨List.replicate (k + 1) '\u00a0', hspaces _, hodd k⟩

lemma byteLen_pos {s : List Char} (h : s ≠ []) : 0 < byteLen s := by
  obtain ⟨c, s, rfl⟩ := List.exists_cons_of_ne_nil h
  have hpos := c.utf8Size_pos
  simp only [byteLen, List.map_cons, List.sum_cons]
  omega

/-- The branches panic if the text cannot be cut at the first marker. -/
lemma firstBranch_panics {c : Char} {t : List Char} (hc : isSpace c = false)
    {L : List (List Char × (List (List Char) → Option (List Char)))}
    (hL : ∀ b ∈ L, b.1.head? = some ' ')
    (h : ∃ b ∈ L, (find b.1 (upper (c :: t))).isSome = true) :
    ∃ m, 0 < m ∧ ∀ out, splitAtByte m out = none → firstBranch (c :: t) out L = .panics := by
  induction L with
  | nil =>
    obtain ⟨b, hb, -⟩ := h
    cases hb
  | cons b L ih =>
    cases hfind : find b.1 (upper (c :: t)) with
    | none =>
      obtain ⟨b', hb', hsome⟩ := h
      have hmem : b' ∈ L := by
        rcases List.mem_cons.1 hb' with rfl | hmem
        · rw [hfind] at hsome
          cases hsome
        · exact hmem
      obtain ⟨m, hm, hpanics⟩ := ih (fun b hb => hL b (List.mem_cons_of_mem _ hb)) ⟨b', hmem, hsome⟩
      refine ⟨m, hm, fun out hout => ?_⟩
      rw [firstBranch, listBranch, hfind]
      exact hpanics out hout
    | some i =>
      refine ⟨byteLen ((c :: t).take i), ?_, fun out hout => ?_⟩
      · apply byteLen_pos
        cases i with
        | zero =>
          -- the marker starts with a blank
          have hblank := hL b List.mem_cons_self
          obtain ⟨q, hq⟩ : ∃ q, b.1 = ' ' :: q := by
            cases hb : b.1 with
            | nil =>
              rw [hb] at hblank
              cases hblank
            | cons d q =>
              rw [hb] at hblank
              obtain rfl := Option.some.inj hblank
              exact ⟨q, rfl⟩
          rw [hq, upper_cons, find] at hfind
          split_ifs at hfind with hpre
          · obtain ⟨heq, -⟩ := List.cons_prefix_cons.1 (List.isPrefixOf_iff_prefix.1 hpre)
            rw [eq_blank_of_toUpper heq.symm] at hc
            cases hc
          · obtain ⟨j, -, hj⟩ := Option.map_eq_some_iff.1 hfind
            cases hj
        | succ i => simp
      · rw [firstBranch, listBranch, hfind]
        simp only [hout]

/-- Which statements create an index. -/
lemma exists_indexPrefix {l : List Char} {onAt : ℕ} (h : indexOn l = some onAt) :
    ∃ p ∈ indexPrefixes, startsWith p l = true := by
  rw [indexOn] at h
  split_ifs at h with hany
  rwa [List.any_eq_true] at hany

lemma materializedView_none {l : List Char}
    (h : ¬ startsWith "CREATE MATERIALIZED VIEW".toList l = true) : materializedView l = none := by
  have hif : ¬ (startsWith "CREATE MATERIALIZED VIEW".toList l = true ∧
      atBoundary (l.drop "CREATE MATERIALIZED VIEW".toList.length) = true) := fun hand => h hand.1
  rw [materializedView]
  exact if_neg hif

/-- In `ALTER TABLE` the branches for lists of columns are tried. -/
lemma lowerDdl_alterTable {sql l : List Char} (htrim : trimStart sql = l)
    (halter : startsWith "ALTER TABLE ".toList l = true) :
    lowerDdl alphanumeric sql =
      match firstBranch l sql alterBranches with
      | .panics => none
      | .returns altered => some altered
      | .passes => some (lowerRest alphanumeric sql) := by
  have hview : materializedView l = none := materializedView_none fun hstart =>
    absurd (take_of_startsWith halter hstart) (by decide)
  have hon : indexOn l = none := by
    rw [Option.eq_none_iff_forall_ne_some]
    intro onAt hon
    obtain ⟨p, hp, hstart⟩ := exists_indexPrefix hon
    have hne : ∀ p ∈ indexPrefixes, ("ALTER TABLE ".toList).take p.length ≠
        p.take "ALTER TABLE ".toList.length := by decide
    exact hne p hp (take_of_startsWith halter hstart)
  have hstored : storedColumns l sql = sql := by
    rw [storedColumns, if_neg]
    rintro ⟨hstart, -⟩
    exact absurd (take_of_startsWith halter hstart) (by decide)
  rw [lowerDdl]
  simp only [htrim, hview, hon, hstored]
  refine (if_pos halter).trans ?_
  cases firstBranch l sql alterBranches with
  | panics => rfl
  | passes => rfl
  | returns altered => rfl

/-- **A statement that is cut panics behind some white space.** -/
theorem exists_panics {c : Char} {t : List Char} (hc : isSpace c = false)
    (h : Shifted (c :: t)) : ∃ w, Spaces w ∧ lowerDdl alphanumeric (w ++ c :: t) = none := by
  have htrim : ∀ w, Spaces w → trimStart (w ++ c :: t) = c :: t := by
    intro w hw
    rw [trimStart_spaces hw, trimStart_of_head hc]
  rcases h with ⟨halter, hfind⟩ | ⟨onAt, hon, hmem⟩
  · obtain ⟨m, hm, hpanics⟩ := firstBranch_panics hc (by simp [alterBranches]) hfind
    obtain ⟨w, hw, hunsplit⟩ := exists_unsplit hm
    refine ⟨w, hw, ?_⟩
    rw [lowerDdl_alterTable alphanumeric (htrim w hw) halter, hpanics _ (hunsplit _)]
  · obtain ⟨j, hj⟩ := Option.isSome_iff_exists.1 ((find_singleton_isSome _ _).2 hmem)
    have hm : 0 < byteLen ((c :: t).take (onAt + "ON".toList.length + j)) := by
      apply byteLen_pos
      have hlen : onAt + "ON".toList.length + j = (onAt + 1 + j) + 1 := by
        have htwo : "ON".toList.length = 2 := rfl
        omega
      rw [hlen, List.take_succ_cons]
      exact List.cons_ne_nil _ _
    obtain ⟨w, hw, hunsplit⟩ := exists_unsplit hm
    obtain ⟨p, hp, hstart⟩ := exists_indexPrefix hon
    have hfronts : ∀ p ∈ indexPrefixes, ("CREATE MATERIALIZED VIEW".toList).take p.length ≠
        p.take "CREATE MATERIALIZED VIEW".toList.length ∧ "CREA".toList <+: p := by decide
    have hview : materializedView (c :: t) = none := materializedView_none fun hview =>
      (hfronts p hp).1 (take_of_startsWith hview hstart)
    have hcreate : startsWith "CREA".toList (c :: t) = true := by
      rw [startsWith, List.isPrefixOf_iff_prefix] at hstart ⊢
      exact (hfronts p hp).2.trans hstart
    have hstored := (steady_storedColumns (by decide) (by decide) (by decide) (c :: t) _
      hcreate).2 w hw
    refine ⟨w, hw, ?_⟩
    simp only [lowerDdl, htrim w hw, hview, hon, hstored, indexKeys, hj, hunsplit,
      Option.bind_none, Option.map_none]

/-! ### White space in front -/

section Leading

variable {X : List Char}

/-- What the pass gives behind white space where it does not cut the statement. -/
lemma trimStart_uncut (hX : Front X) (happart : Apart "DEFAULT ON NULL ".toList X)
    (hletters : ∀ c ∈ X, c.isUpper = true) (hhead : X.head? ≠ some 'V') {l w : List Char}
    (hl : startsWith X l = true) (hw : Spaces w) :
    trimStart (uncut alphanumeric l (w ++ l)) = trimStart (uncut alphanumeric l l) := by
  have hne : X ≠ [] := by
    rintro rfl
    exact absurd hX.starts (by decide)
  have hstored := steady_storedColumns hletters hne hhead l
  rw [uncut, uncut]
  cases materializedView l with
  | some view => rfl
  | none =>
    cases indexOn l with
    | some onAt =>
      have hspaces := (((steady_strip alphanumeric hX).comp hstored) l hl).2 w hw
      exact (congrArg trimStart hspaces).trans (trimStart_spaces hw _)
    | none =>
      have hspaces := (((steady_lowerRest alphanumeric hX happart).comp hstored) l hl).2 w hw
      exact (congrArg trimStart hspaces).trans (trimStart_spaces hw _)

lemma ignoresLeading_iff_of_front (hX : Front X) (hpatterns : ∀ p ∈ patterns, Behind X p)
    (hdrop : X.take 4 ≠ "DROP".toList.take X.length) (happart : Apart "DEFAULT ON NULL ".toList X)
    (hletters : ∀ c ∈ X, c.isUpper = true) (hhead : X.head? ≠ some 'V') {s : List Char}
    (hs : startsWith X s = true) :
    IgnoresLeading alphanumeric s ↔ ¬ Shifted (rewriteOracleDdlCommon alphanumeric s) := by
  have hnil : Spaces [] := by simp [Spaces]
  rcases rewriteOracleDdlCommon_spaces alphanumeric hX hpatterns hdrop hs with
    ⟨r, ⟨Y, hY, hr⟩, hcommon⟩ | ⟨hl, hcommon⟩
  · -- the statement is turned into another one
    have hself := hcommon [] hnil
    rw [List.nil_append] at hself
    have hfronts : ∀ Y ∈ replacedFronts, "CREA".toList <+: Y ∧
        ∀ p ∈ "ALTER TABLE ".toList :: indexPrefixes, Y.take p.length ≠ p.take Y.length := by
      decide
    have hcreate : startsWith "CREA".toList r = true := by
      rw [startsWith, List.isPrefixOf_iff_prefix] at hr ⊢
      exact (hfronts Y hY).1.trans hr
    have htrim := front_create.trimStart hcreate hnil
    rw [List.nil_append] at htrim
    have hnot : ¬ Shifted r := not_shifted_of_front hr (hfronts Y hY).2
    rw [hself]
    refine iff_of_true (fun w hw => ?_) hnot
    refine ⟨uncut alphanumeric r r, uncut alphanumeric r r, ?_, ?_, rfl⟩
    · rw [rewriteOracleDdl, hcommon w hw, lowerDdl_of_not_shifted alphanumeric htrim hnot]
    · rw [rewriteOracleDdl, hself, lowerDdl_of_not_shifted alphanumeric htrim hnot]
  · have htrim := fun w (hw : Spaces w) => hX.trimStart hl hw
    have htrimnil := htrim [] hnil
    rw [List.nil_append] at htrimnil
    constructor
    · intro hignores hshifted
      obtain ⟨c, t, hct, hc⟩ := hX.head hl
      rw [hct] at hshifted
      obtain ⟨w, hw, hpanics⟩ := exists_panics alphanumeric hc hshifted
      obtain ⟨r, r', hr, -, -⟩ := hignores w hw
      rw [rewriteOracleDdl, hcommon w hw, hct, hpanics] at hr
      cases hr
    · intro hnot w hw
      refine ⟨_, _, ?_, ?_, trimStart_uncut alphanumeric hX happart hletters hhead hl hw⟩
      · rw [rewriteOracleDdl, hcommon w hw,
          lowerDdl_of_not_shifted alphanumeric (htrim w hw) hnot]
      · rw [rewriteOracleDdl, lowerDdl_of_not_shifted alphanumeric htrimnil hnot]

/-- **When the pass gives the same statement behind any white space**: if and only if it does not
cut it. -/
theorem ignoresLeading_iff {s : List Char}
    (hs : startsWith "ALTER ".toList s = true ∨ startsWith "CREATE ".toList s = true) :
    IgnoresLeading alphanumeric s ↔ ¬ Shifted (rewriteOracleDdlCommon alphanumeric s) := by
  have hshorter : ∀ {p q : List Char}, p <+: q → startsWith q s = true → startsWith p s = true := by
    intro p q hpq hq
    rw [startsWith, List.isPrefixOf_iff_prefix] at hq ⊢
    exact hpq.trans hq
  rcases hs with hs | hs
  · exact ignoresLeading_iff_of_front alphanumeric front_alter behind_alter (by decide) (by decide)
      (by decide) (by decide) (hshorter (by decide) hs)
  · exact ignoresLeading_iff_of_front alphanumeric front_create behind_create (by decide)
      (by decide) (by decide) (by decide) (hshorter (by decide) hs)

end Leading

end DbSaci.Translate.Ddl
