import DbSaci.Library.Fronts
import DbSaci.Translate.ClauseMarks
import DbSaci.Translate.FullOuterJoin

set_option relaxedAutoImplicit false
set_option autoImplicit false

/-!
# What both engines lower in a definition

`rewrite_oracle_ddl_common` runs for both engines: it turns synonyms into views, takes away storage
clauses, constraint states and length semantics, and writes the columns of a `DROP (..)` one by one.

## Main definitions

* `rewriteOracleDdlCommon` — the pass, of which `commonPasses` are the steps.
* `Front` — a front of a statement in which nothing is lowered.

## Main results

* `steady_strip`, `steady_commonPasses` — the steps leave a front, and white space before it.
* `rewriteOracleDdlCommon_spaces` — the pass does not look at white space in front.
-/

namespace DbSaci.Translate.Ddl

open Text Physical

/-! ### The pass -/

/-- The text without the semicolons it ends with. -/
def trimSemicolons (s : List Char) : List Char := s.rdropWhile fun c => c = ';'

/-- `CREATE [OR REPLACE] [PUBLIC] SYNONYM name FOR target`: a view. -/
def createSynonym (trimmed : List Char) : Option (List Char) :=
  (stripKw trimmed ["CREATE".toList]).bind fun rest =>
    let replaced := stripKw rest ["OR".toList, "REPLACE".toList]
    let orReplace := if replaced.isSome = true then "OR REPLACE ".toList else []
    let rest := replaced.getD rest
    let rest := (stripKw rest ["PUBLIC".toList]).getD rest
    (stripKw rest ["SYNONYM".toList]).bind fun rest =>
      (findTopLevelKw rest "FOR".toList).bind fun forAt =>
        let name := trim (rest.take forAt)
        let target := trimSemicolons (trim (rest.drop (forAt + "FOR".toList.length)))
        if name ≠ [] ∧ target ≠ [] then
          some ("CREATE ".toList ++ (orReplace ++ ("VIEW ".toList ++
            (name ++ (" AS SELECT * FROM ".toList ++ target)))))
        else none

/-- `DROP SYNONYM [PUBLIC] name`: the view is dropped. -/
def dropSynonym (trimmed : List Char) : Option (List Char) :=
  (stripKw trimmed ["DROP".toList, "SYNONYM".toList]).bind fun rest =>
    let rest := (stripKw rest ["PUBLIC".toList]).getD rest
    let name := trimSemicolons (trim rest)
    if name ≠ [] then some ("DROP VIEW IF EXISTS ".toList ++ name) else none

/-- `strip_prefix`. -/
def stripPrefix (p s : List Char) : Option (List Char) :=
  if p.isPrefixOf s = true then some (s.drop p.length) else none

/-- `CREATE GLOBAL TEMPORARY TABLE` and `CREATE PRIVATE TEMPORARY TABLE`. -/
def temporaryTable (trimmed : List Char) : Option (List Char) :=
  (["CREATE GLOBAL TEMPORARY TABLE ".toList, "CREATE PRIVATE TEMPORARY TABLE ".toList].find? fun
      marker => startsWith marker trimmed).map fun marker =>
    let tail := trimmed.drop marker.length
    let tail := ((stripPrefix "IF NOT EXISTS ".toList tail).or
      (stripPrefix "if not exists ".toList tail)).getD tail
    "CREATE TEMPORARY TABLE IF NOT EXISTS ".toList ++ tail

/-- `strip_char_byte_length_qualifier`. -/
def stripCharByteLengthQualifier (sql : List Char) : List Char :=
  [" CHAR)".toList, " BYTE)".toList, " char)".toList, " byte)".toList].foldl
    (fun out p => replaceAll p ")".toList out) sql

/-- One list of columns that are dropped, written one by one. -/
def dropColumnsAt (kw sql : List Char) : Option (List Char) :=
  (find kw (upper sql)).bind fun at_ =>
    let list := sql.drop (at_ + (kw.length - 1))
    (matchingParen list).map fun close =>
      sql.take at_ ++ ' ' :: (commas ((splitTopLevelCommas ((list.take close).drop 1)).map fun c =>
        "DROP COLUMN ".toList ++ trim c) ++ list.drop (close + 1))

/-- `rewrite_alter_drop_columns`. -/
def rewriteAlterDropColumns (sql : List Char) : List Char :=
  ((dropColumnsAt " DROP (".toList sql).or (dropColumnsAt " SET UNUSED (".toList sql)).getD sql

/-- The states behind `NOT NULL` that are left out. -/
def enabledStates : List (List Char) :=
  [" NOT NULL ENABLE NOVALIDATE".toList, " NOT NULL ENABLE VALIDATE".toList,
    " NOT NULL ENABLE".toList]

/-- The states that are left out with their `NOT NULL`. -/
def disabledStates : List (List Char) :=
  [" NOT NULL DISABLE NOVALIDATE".toList, " NOT NULL DISABLE VALIDATE".toList,
    " NOT NULL DISABLE".toList]

/-- The states that are left out at the end. -/
def tailStates : List (List Char) :=
  [" ENABLE".toList, " DISABLE".toList, " NOVALIDATE".toList, " VALIDATE".toList]

section Pass

variable (alphanumeric : Char → Bool)

/-- What is done to a statement that is neither a synonym nor a temporary table. -/
def commonPasses (sql : List Char) : List Char :=
  let out := stripOraclePhysicalClauses alphanumeric sql
  let out := replaceAll " DEFAULT ON NULL ".toList " DEFAULT ".toList out
  let out := stripCharByteLengthQualifier out
  let out := enabledStates.foldl (fun out kw => replaceCi kw " NOT NULL".toList out) out
  let out := disabledStates.foldl (fun out kw => replaceCi kw [] out) out
  let out := tailStates.foldl (fun out tail => truncateTail tail out) out
  rewriteAlterDropColumns out

/-- `rewrite_oracle_ddl_common`. -/
def rewriteOracleDdlCommon (sql : List Char) : List Char :=
  let trimmed := trimStart sql
  match (createSynonym trimmed).or (dropSynonym trimmed) with
  | some view => view
  | none =>
    match temporaryTable trimmed with
    | some table => stripOraclePhysicalClauses alphanumeric table
    | none => commonPasses alphanumeric sql

end Pass

/-! ### Fronts -/

/-- The patterns that are looked for in a text. -/
def patterns : List (List Char) :=
  [" DEFAULT ON NULL ".toList, " CHAR)".toList, " BYTE)".toList, " char)".toList,
    " byte)".toList, " DROP (".toList, " SET UNUSED (".toList] ++
    (enabledStates ++ (disabledStates ++ tailStates))

/-- The keywords that storage clauses and constraint states start with. -/
def clauseKeywords : List (List Char) :=
  valuedKeywords ++ (flagKeywords ++
    ["ENABLE ROW MOVEMENT".toList, "SEGMENT CREATION".toList, "STORAGE".toList, "LOB".toList,
      "ENABLE".toList, "DISABLE".toList])

/-- Nothing is left out of the front of a statement. -/
structure Front (X : List Char) : Prop where
  keywords : ∀ k ∈ clauseKeywords, Apart k X
  plain : ∀ c ∈ X, c ≠ '\'' ∧ c ≠ '"' ∧ c ≠ '(' ∧ c ≠ ')'
  starts : X.head?.any (fun c => !isSpace c) = true
  bitmap : X <+: "CREATE INDEX".toList ∨
    X.take "CREATE BITMAP INDEX".toList.length ≠ "CREATE BITMAP INDEX".toList.take X.length

lemma front_alter : Front "ALTER".toList := ⟨by decide, by decide, by decide, by decide⟩

lemma front_alterTable : Front "ALTER TABLE ".toList := ⟨by decide, by decide, by decide, by decide⟩

lemma front_create : Front "CREA".toList := ⟨by decide, by decide, by decide, by decide⟩

lemma behind_alter : ∀ p ∈ patterns, Behind "ALTER".toList p := by decide

lemma behind_create : ∀ p ∈ patterns, Behind "CREA".toList p := by decide

section Front

variable {X : List Char}

lemma Front.head (hX : Front X) {s : List Char} (hs : startsWith X s = true) :
    ∃ c t, s = c :: t ∧ isSpace c = false := by
  obtain ⟨x, t, rfl, rfl⟩ := exists_front hs
  have hstarts := hX.starts
  cases x with
  | nil => cases hstarts
  | cons c x =>
    refine ⟨c, x ++ t, rfl, ?_⟩
    have hc : isSpace c.toUpper = false := by
      simpa [upper] using hstarts
    rcases toUpper_cases c with h | ⟨h, h'⟩
    · rwa [h] at hc
    · rw [← Bool.not_eq_true]
      intro hspace
      rw [toUpper_of_isSpace hspace, hspace] at hc
      cases hc

lemma Front.trimStart (hX : Front X) {s : List Char} (hs : startsWith X s = true) {w : List Char}
    (hw : Spaces w) : trimStart (w ++ s) = s := by
  obtain ⟨c, t, rfl, hc⟩ := hX.head hs
  rw [trimStart_spaces hw, trimStart_of_head hc]

/-! ### Storage clauses -/

variable (alphanumeric : Char → Bool)

/-- Nothing is left out where no keyword stands. -/
lemma consumed_none {tail : List Char} (h : ∀ k ∈ clauseKeywords, startsKeyword k tail = false)
    (depth : ℤ) (last : Option Char) : consumed alphanumeric depth last tail = none := by
  have hone : ∀ k ∈ ["ENABLE".toList, "DISABLE".toList], oneStateConsumed k tail = none := by
    intro k hk
    have hmem : k ∈ clauseKeywords := by
      simp only [List.mem_cons, List.not_mem_nil, or_false] at hk
      rcases hk with rfl | rfl
      · decide
      · decide
    rw [oneStateConsumed, h k hmem, if_neg (by simp)]
  have hfind : ∀ L : List (List Char), (∀ k ∈ L, k ∈ clauseKeywords) →
      L.find? (fun k => startsKeyword k tail) = none := by
    intro L hL
    rw [List.find?_eq_none]
    intro k hk
    rw [h k (hL k hk)]
    decide
  have hclause : clauseConsumed tail = none := by
    rw [clauseConsumed, hfind _ (by decide), hfind _ (by decide), h _ (by decide),
      h "SEGMENT CREATION".toList (by decide), storageConsumed, h "STORAGE".toList (by decide),
      lobConsumed, h "LOB".toList (by decide)]
    rfl
  rw [consumed, hclause, stateConsumed, hone _ (by simp), hone _ (by simp)]
  simp

/-- A text in which no keyword starts is kept. -/
lemma mark_of_quiet {x rest : List Char} (hx : ∀ c ∈ x, c ≠ '\'' ∧ c ≠ '"' ∧ c ≠ '(' ∧ c ≠ ')')
    (h : ∀ k ∈ clauseKeywords, Text.Quiet k x rest) (last : Option Char) :
    (clauseMarker alphanumeric).mark (0, last) (x ++ rest) =
      x.map (fun c => (c, true)) ++
        (clauseMarker alphanumeric).mark (0, lastAfter last x) rest := by
  induction x generalizing last with
  | nil => rfl
  | cons c x ih =>
    obtain ⟨h1, h2, h3, h4⟩ := hx c List.mem_cons_self
    have hnone : consumed alphanumeric 0 last (c :: (x ++ rest)) = none := by
      apply consumed_none
      intro k hk
      rw [startsKeyword, (h k hk).1]
      rfl
    have hdepth : depthAfter 0 c = 0 := by rw [depthAfter, if_neg h3, if_neg h4]
    rw [List.cons_append, mark_keep (not_or.2 ⟨h1, h2⟩) hnone, hdepth, lastAfter_cons,
      ih (fun d hd => hx d (List.mem_cons_of_mem c hd)) fun k hk => (h k hk).2]
    rfl

lemma replaceDdlPrefix_spaces (hX : Front X) {s w : List Char} (hs : startsWith X s = true)
    (hw : Spaces w) (oracle pg : List Char) :
    replaceDdlPrefix (w ++ s) oracle pg = w ++ replaceDdlPrefix s oracle pg := by
  have htail := hX.trimStart hs hw
  have hself := hX.trimStart hs (w := []) (by simp [Spaces])
  rw [List.nil_append] at hself
  have hlead : (w ++ s).length - s.length = w.length := by
    rw [List.length_append, Nat.add_sub_cancel]
  simp only [replaceDdlPrefix, htail, hself, hlead, Nat.sub_self, List.take_zero, List.nil_append,
    List.take_left]
  split_ifs
  · rfl
  · rfl

lemma replaceDdlPrefix_front (hX : Front X) {s oracle pg : List Char} (hs : startsWith X s = true)
    (hpg : upper pg = pg)
    (hor : X <+: pg ∨ X.take oracle.length ≠ oracle.take X.length) :
    startsWith X (replaceDdlPrefix s oracle pg) = true := by
  have hself := hX.trimStart hs (w := []) (by simp [Spaces])
  rw [List.nil_append] at hself
  simp only [replaceDdlPrefix, hself, Nat.sub_self, List.take_zero, List.nil_append]
  split_ifs with hif
  · simp only [startsWith, List.isPrefixOf_iff_prefix] at hs hif ⊢
    rcases hor with hpre | hne
    · rw [upper_append, hpg]
      exact hpre.trans (List.prefix_append _ _)
    · -- both would stand at the start of the text
      obtain ⟨r, hr⟩ := hif.1
      rw [← hr] at hs
      exact absurd (take_of_start hs) hne
  · exact hs

/-- **Storage clauses are looked for behind a front.** -/
theorem steady_strip (hX : Front X) : Steady X (stripOraclePhysicalClauses alphanumeric) := by
  intro s hs
  have hiff : ∀ w, Spaces w → (IsDdl (w ++ s) ↔ IsDdl s) := by
    intro w hw
    have hself := hX.trimStart hs (w := []) (by simp [Spaces])
    rw [List.nil_append] at hself
    rw [IsDdl, IsDdl, hX.trimStart hs hw, hself]
  by_cases hddl : IsDdl s
  · have hfront := replaceDdlPrefix_front hX hs (by decide) hX.bitmap
    obtain ⟨x, t, hx, hup⟩ := exists_front hfront
    have hquiet : ∀ k ∈ clauseKeywords, Text.Quiet k x t := by
      intro k hk
      apply quiet_of_apart
      rw [hup]
      exact hX.keywords k hk
    have hplain : ∀ c ∈ x, c ≠ '\'' ∧ c ≠ '"' ∧ c ≠ '(' ∧ c ≠ ')' := by
      intro c hc
      have hmem : c.toUpper ∈ X := by
        rw [← hup]
        exact List.mem_map_of_mem hc
      obtain ⟨h1, h2, h3, h4⟩ := hX.plain _ hmem
      refine ⟨?_, ?_, ?_, ?_⟩ <;> rintro rfl
      · exact h1 rfl
      · exact h2 rfl
      · exact h3 rfl
      · exact h4 rfl
    have hspaces : ∀ w, Spaces w → ∀ k ∈ clauseKeywords, Text.Quiet k w (x ++ t) := by
      intro w hw k hk
      have hletter : ∀ k ∈ clauseKeywords, k.head?.any (fun d => !isSpace d) = true := by decide
      exact quiet_of_letter (hletter k hk) hw (x ++ t)
    have hne : x ≠ [] := by
      rintro rfl
      subst hup
      exact absurd hX.starts (by decide)
    have hlast : ∀ w, lastAfter (lastAfter none w) x = x.getLast? := by
      intro w
      rw [lastAfter, List.getLast?_eq_some_getLast hne]
      rfl
    have hkept : ∀ w, Spaces w → stripOraclePhysicalClauses alphanumeric (w ++ s) =
        w ++ (x ++ kept ((clauseMarker alphanumeric).mark (0, x.getLast?) t)) := by
      intro w hw
      have hplainw : ∀ c ∈ w, c ≠ '\'' ∧ c ≠ '"' ∧ c ≠ '(' ∧ c ≠ ')' := by
        intro c hc
        have hspace := hw c hc
        refine ⟨?_, ?_, ?_, ?_⟩ <;> rintro rfl <;> cases hspace
      rw [stripOraclePhysicalClauses, if_pos ((hiff w hw).2 hddl), marked,
        replaceDdlPrefix_spaces hX hs hw, hx, mark_of_quiet alphanumeric hplainw (hspaces w hw),
        mark_of_quiet alphanumeric hplain hquiet, hlast, kept_append, kept_append, kept_map_true,
        kept_map_true]
    have hself := hkept [] (by simp [Spaces])
    rw [List.nil_append, List.nil_append] at hself
    refine ⟨?_, fun w hw => ?_⟩
    · rw [hself]
      exact startsWith_front hup
    · rw [hkept w hw, hself]
  · refine ⟨?_, fun w hw => ?_⟩
    · rw [stripOraclePhysicalClauses, if_neg hddl]
      exact hs
    · rw [stripOraclePhysicalClauses, stripOraclePhysicalClauses, if_neg hddl,
        if_neg fun h => hddl ((hiff w hw).1 h)]

/-! ### Dropped columns -/

lemma dropColumnsAt_append {kw x t : List Char} (h : Text.Quiet kw x t) (hne : kw ≠ []) :
    dropColumnsAt kw (x ++ t) = (dropColumnsAt kw t).map (x ++ ·) := by
  rw [dropColumnsAt, dropColumnsAt, h.find_append]
  cases hfind : find kw (upper t) with
  | none => rfl
  | some i =>
    have hlen : 0 < kw.length := List.length_pos_of_ne_nil hne
    have hdrop : i + x.length + (kw.length - 1) = x.length + (i + (kw.length - 1)) := by omega
    simp only [Option.map_some, Option.bind_some, hdrop, List.drop_length_add_append]
    cases matchingParen (t.drop (i + (kw.length - 1))) with
    | none => rfl
    | some close =>
      rw [Option.map_some, Option.map_some, Option.map_some, Nat.add_comm i, List.take_length_add_append,
        List.append_assoc]

/-- **The columns that are dropped are looked for behind a front.** -/
theorem steady_rewriteAlterDropColumns (hdrop : Behind X " DROP (".toList)
    (hunused : Behind X " SET UNUSED (".toList) : Steady X rewriteAlterDropColumns := by
  have happend : ∀ {x t : List Char}, Text.Quiet " DROP (".toList x t →
      Text.Quiet " SET UNUSED (".toList x t →
      rewriteAlterDropColumns (x ++ t) = x ++ rewriteAlterDropColumns t := by
    intro x t h h'
    rw [rewriteAlterDropColumns, rewriteAlterDropColumns, dropColumnsAt_append h (by decide),
      dropColumnsAt_append h' (by decide)]
    cases dropColumnsAt " DROP (".toList t with
    | some s => rfl
    | none =>
      cases dropColumnsAt " SET UNUSED (".toList t with
      | some s => rfl
      | none => rfl
  have hup : ∀ kw ∈ [" DROP (".toList, " SET UNUSED (".toList], upper kw = kw := by decide
  intro s hs
  obtain ⟨x, t, rfl, hx⟩ := exists_front hs
  have hquiet : ∀ w, Spaces w → rewriteAlterDropColumns (w ++ (x ++ t)) =
      w ++ (x ++ rewriteAlterDropColumns t) := by
    intro w hw
    have h := hdrop.quiet hx hw t
    have h' := hunused.quiet hx hw t
    rw [hup _ (by simp)] at h h'
    rw [← List.append_assoc, happend h h', List.append_assoc]
  have hself := hquiet [] (by simp [Spaces])
  rw [List.nil_append, List.nil_append] at hself
  refine ⟨?_, fun w hw => ?_⟩
  · rw [hself]
    exact startsWith_front hx
  · rw [hquiet w hw, hself]

/-! ### All steps -/

lemma steady_replaceCi_foldl {L : List (List Char)} (hL : ∀ p ∈ L, Behind X p) (r : List Char) :
    Steady X fun s => L.foldl (fun out kw => replaceCi kw r out) s :=
  Steady.foldl fun p hp => steady_replaceCi (hL p hp) r

/-- **The steps are taken behind a front.** -/
theorem steady_commonPasses (hX : Front X) (hpatterns : ∀ p ∈ patterns, Behind X p) :
    Steady X (commonPasses alphanumeric) := by
  have hpattern : ∀ L : List (List Char), (∀ p ∈ L, p ∈ patterns) → ∀ p ∈ L, Behind X p :=
    fun L hL p hp => hpatterns p (hL p hp)
  have hstrip := steady_strip alphanumeric hX
  have honNull := steady_replaceAll (hpatterns " DEFAULT ON NULL ".toList (by decide))
    " DEFAULT ".toList
  have hlength : Steady X stripCharByteLengthQualifier :=
    Steady.foldl fun p hp => steady_replaceAll (hpattern _ (by decide) p hp) ")".toList
  have henabled := steady_replaceCi_foldl (hpattern enabledStates (by decide)) " NOT NULL".toList
  have hdisabled := steady_replaceCi_foldl (hpattern disabledStates (by decide)) []
  have htails : Steady X fun s => tailStates.foldl (fun out tail => truncateTail tail out) s :=
    Steady.foldl fun p hp => steady_truncateTail (hpattern tailStates (by decide) p hp)
  have hdrop := steady_rewriteAlterDropColumns (hpatterns " DROP (".toList (by decide))
    (hpatterns " SET UNUSED (".toList (by decide))
  exact hdrop.comp (htails.comp (hdisabled.comp (henabled.comp (hlength.comp
    (honNull.comp hstrip)))))

/-- What synonyms and temporary tables are turned into starts with one of these. -/
def replacedFronts : List (List Char) :=
  ["CREATE V".toList, "CREATE O".toList, "CREATE TEMPORARY".toList]

lemma front_temporary : Front "CREATE TEMPORARY".toList := ⟨by decide, by decide, by decide, by decide⟩

lemma startsWith_append_of_upper {p : List Char} (hp : upper p = p) (s : List Char) :
    startsWith p (p ++ s) = true :=
  startsWith_front hp

lemma createSynonym_front {s view : List Char} (h : createSynonym s = some view) :
    ∃ Y ∈ replacedFronts, startsWith Y view = true := by
  obtain ⟨rest, -, h⟩ := Option.bind_eq_some_iff.1 h
  obtain ⟨rest', -, h⟩ := Option.bind_eq_some_iff.1 h
  obtain ⟨forAt, -, h⟩ := Option.bind_eq_some_iff.1 h
  simp only at h
  split_ifs at h with hnames hreplaced
  · obtain rfl := Option.some.inj h
    exact ⟨"CREATE O".toList, by decide, startsWith_append_of_upper (by decide) _⟩
  · obtain rfl := Option.some.inj h
    exact ⟨"CREATE V".toList, by decide, startsWith_append_of_upper (by decide) _⟩

lemma dropSynonym_none (hX : Front X) (hdrop : X.take 4 ≠ "DROP".toList.take X.length)
    {s : List Char} (hs : startsWith X s = true) : dropSynonym s = none := by
  have hself := hX.trimStart hs (w := []) (by simp [Spaces])
  rw [List.nil_append] at hself
  have hstart : ¬ startsWith "DROP".toList s = true := by
    intro hstart
    rw [startsWith, List.isPrefixOf_iff_prefix] at hs hstart
    obtain ⟨r, hr⟩ := hstart
    rw [← hr] at hs
    exact hdrop (take_of_start hs)
  rw [dropSynonym, stripKw, hself, stripWords, if_neg (by simp)]
  simp only [if_true, if_neg hstart, Option.bind_none]

/-- **The pass does not look at white space in front**: it is kept, unless the statement is turned
into another one. -/
theorem rewriteOracleDdlCommon_spaces (hX : Front X) (hpatterns : ∀ p ∈ patterns, Behind X p)
    (hdrop : X.take 4 ≠ "DROP".toList.take X.length) {s : List Char}
    (hs : startsWith X s = true) :
    (∃ r, (∃ Y ∈ replacedFronts, startsWith Y r = true) ∧
        ∀ w, Spaces w → rewriteOracleDdlCommon alphanumeric (w ++ s) = r) ∨
      (startsWith X (rewriteOracleDdlCommon alphanumeric s) = true ∧
        ∀ w, Spaces w → rewriteOracleDdlCommon alphanumeric (w ++ s) =
          w ++ rewriteOracleDdlCommon alphanumeric s) := by
  have htrim : ∀ w, Spaces w → trimStart (w ++ s) = s := fun w hw => hX.trimStart hs hw
  have hdropped := dropSynonym_none hX hdrop hs
  cases hview : createSynonym s with
  | some view =>
    refine Or.inl ⟨view, createSynonym_front hview, fun w hw => ?_⟩
    simp only [rewriteOracleDdlCommon, htrim w hw, hview, Option.some_or]
  | none =>
    cases htable : temporaryTable s with
    | some table =>
      have hfront : startsWith "CREATE TEMPORARY".toList table = true := by
        obtain ⟨marker, -, rfl⟩ := Option.map_eq_some_iff.1 htable
        exact startsWith_append_of_upper (p := "CREATE TEMPORARY".toList) (by decide) _
      have hstrip := steady_strip alphanumeric front_temporary table hfront
      refine Or.inl ⟨_, ⟨"CREATE TEMPORARY".toList, by decide, hstrip.1⟩, fun w hw => ?_⟩
      simp only [rewriteOracleDdlCommon, htrim w hw, hview, hdropped, htable, Option.none_or]
    | none =>
      have hsteady := steady_commonPasses alphanumeric hX hpatterns s hs
      have hpass : ∀ w, Spaces w → rewriteOracleDdlCommon alphanumeric (w ++ s) =
          commonPasses alphanumeric (w ++ s) := by
        intro w hw
        simp only [rewriteOracleDdlCommon, htrim w hw, hview, hdropped, htable, Option.none_or]
      have hnil := hpass [] (by simp [Spaces])
      rw [List.nil_append] at hnil
      refine Or.inr ⟨?_, fun w hw => ?_⟩
      · rw [hnil]
        exact hsteady.1
      · rw [hpass w hw, hnil, hsteady.2 w hw]

end Front

end DbSaci.Translate.Ddl
