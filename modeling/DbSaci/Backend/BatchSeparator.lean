import DbSaci.Backend.MariaDbPrepare
import DbSaci.Library.Barrier
import DbSaci.Library.Separator

set_option relaxedAutoImplicit false
set_option autoImplicit false

/-!
# Several statements in one text

The translator puts a comment between the statements that one statement of the client becomes, and
the backend cuts the text wherever that comment stands. The client can write the comment too, as a
comment or in a literal.

## Main definitions

* `simpleStatements`, `ddlStatements` — the statements that are run for a text.
* `Emitted` — the statements of the translator, and the text they are joined to.
* `Emitted.RunsSimple`, `Emitted.RunsDdl` — the statements of the translator are run.
* `Emitted.Separable` — a condition on the text and its parameters.

## Main results

* `runs_iff` — the statements of the translator are run exactly under the condition.
* `quotedMarker_not_runs` — a literal that is cut in two.
-/

namespace DbSaci.Backend.Batch

open Text Wire Separator

/-! ### The backend -/

/-- `MARIADB_BATCH_SEP`. -/
def batchSep : List Char := "\n/* dbsaci-batch */\n".toList

/-- What is searched for. -/
def marker : List Char := trim batchSep

/-- The statements of a text, without those that are blank. -/
def batchParts (msql : List Char) : List (List Char) :=
  ((cut marker msql).map trim).filter (· ≠ [])

/-- The statements that are run for a prepared text. -/
def statementsRun (msql : List Char) (params : List Param) : List (List Char) :=
  if params = [] ∧ marker <:+: msql then batchParts msql else [msql]

/-- A text without white space around it and semicolons behind it. -/
def stripped (sql : List Char) : List Char := (trim sql).rdropWhile (· == ';')

/-- An `UPDATE` without what is behind the last `RETURNING`. -/
def withoutReturning (command : List Char) : List Char :=
  if "UPDATE ".toList.isPrefixOf (trimStart (upper command)) then
    match rfind " RETURNING ".toList (upper command) with
    | some r => trim (command.take r)
    | none => command
  else command

/-- The text that `execute_simple` prepares. -/
def commandOf (sql : List Char) : List Char := withoutReturning (stripped sql)

/-- The commands about transactions, which `execute_simple` runs before it prepares a text. -/
def isControl (command : List Char) : Bool :=
  ["COMMIT", "ROLLBACK", "BEGIN", "START TRANSACTION"].any (fun w => upper command == w.toList) ||
    ["SET TRANSACTION ", "SAVEPOINT ", "RELEASE SAVEPOINT ", "ROLLBACK TO "].any fun w =>
      w.toList.isPrefixOf (upper command)

/-- The statements `execute_simple` runs from where it prepares its text. Without parameters a
program is run as it stands in the text. -/
def simpleStatements (sql : List Char) (binds : List BindValue) :
    Except String (List (List Char)) :=
  (mariadbPrepare (commandOf sql) binds).map fun p => statementsRun p.1 p.2

/-- The statements `execute_ddl` runs from where it prepares its text. -/
def ddlStatements (sql : List Char) (binds : List BindValue) : Except String (List (List Char)) :=
  (mariadbPrepare sql binds).map fun p => statementsRun p.1 p.2

/-! ### The translator -/

/-- What the translator makes of a statement: one statement, or several. None of them is blank. -/
structure Emitted where
  statements : List (List Char)
  nonempty : statements ≠ []
  solid : ∀ s ∈ statements, ∃ c ∈ s, isSpace c = false

namespace Emitted

variable (e : Emitted)

/-- The text the statements are joined to. -/
def text : List Char := batchSep.intercalate e.statements

/-- The statements that have to be run: a single one as it has been prepared, and several one by
one. Where the statements are complete, none of these begins or ends in a literal. -/
def expected (msql : List Char) : List (List Char) :=
  if e.statements.length = 1 then [msql] else e.statements.map trim

/-- **`execute_simple` runs the statements of the translator** for the text of a client. -/
def RunsSimple (sql : List Char) (binds : List BindValue) : Prop :=
  ∃ msql, simpleStatements sql binds = .ok (e.expected msql) ∧
    (mariadbPrepare (commandOf sql) binds).map Prod.fst = .ok msql

/-- **`execute_ddl` runs the statements of the translator.** -/
def RunsDdl (binds : List BindValue) : Prop :=
  ∃ msql, ddlStatements e.text binds = .ok (e.expected msql) ∧
    (mariadbPrepare e.text binds).map Prod.fst = .ok msql

/-- A single statement has parameters, or the comment does not stand in it. Several statements have
no parameters, nothing is cut off, and the comment stands in none of them. -/
def Separable (command : List Char) (params : List Param) : Prop :=
  if e.statements.length = 1 then params = [] → ¬ marker <:+: command
  else params = [] ∧ command = e.text ∧ ∀ s ∈ e.statements, ¬ marker <:+: s

end Emitted

/-! ### The comment -/

lemma marker_eq : marker = "/* dbsaci-batch */".toList := by
  have hsep : batchSep = ['\n'] ++ ("/* dbsaci-batch */".toList ++ ['\n']) := by
    show "\n/* dbsaci-batch */\n".toList = _
    rewrite [String.toList_ofList, String.toList_ofList]
    rfl
  have hgap : Gap ['\n'] := fun c hc => by
    obtain rfl := List.mem_singleton.1 hc
    rfl
  refine (congrArg trim hsep).trans (trim_gaps hgap hgap ?_)
  rewrite [String.toList_ofList]
  exact ⟨List.cons_ne_nil _ _, rfl, rfl⟩

lemma batchSep_eq : batchSep = '\n' :: (marker ++ ['\n']) := by
  rw [marker_eq]
  show "\n/* dbsaci-batch */\n".toList = _
  rewrite [String.toList_ofList, String.toList_ofList]
  rfl

lemma marker_ne_nil : marker ≠ [] := by
  rw [marker_eq, String.toList_ofList]
  exact List.cons_ne_nil _ _

lemma newline_not_mem : '\n' ∉ marker := by
  rw [marker_eq, String.toList_ofList]
  decide

lemma trim_newline_cons (s : List Char) : trim ('\n' :: s) = trim s := rfl

lemma trim_append_newline (s : List Char) : trim (s ++ ['\n']) = trim s := by
  by_cases h : ∀ c ∈ s, isSpace c = true
  · have hs : trimStart (s ++ ['\n']) = [] := by
      rw [trimStart, List.dropWhile_eq_nil_iff]
      intro c hc
      rcases List.mem_append.1 hc with hc | hc
      · exact h c hc
      · obtain rfl := List.mem_singleton.1 hc
        rfl
    rw [trim, trim, hs, trimStart, List.dropWhile_eq_nil_iff.2 h]
  · have hs : trimStart (s ++ ['\n']) = trimStart s ++ ['\n'] := by
      push Not at h
      obtain ⟨c, hc, hspace⟩ := h
      have hne : s.dropWhile isSpace ≠ [] := fun hnil =>
        hspace (List.dropWhile_eq_nil_iff.1 hnil c hc)
      rw [trimStart, trimStart, List.dropWhile_append,
        if_neg (by rwa [List.isEmpty_iff])]
    rw [trim, trim, hs, trimEnd, trimEnd, List.rdropWhile_concat_pos _ _ _ rfl]

lemma infix_of_trim (s : List Char) : trim s <:+: s :=
  (List.rdropWhile_prefix _ _).isInfix.trans (List.dropWhile_suffix _).isInfix

/-- The comment has no white space at its ends, so that it is not cut. -/
lemma marker_infix_trim {s : List Char} (h : marker <:+: s) : marker <:+: trim s := by
  obtain ⟨a, b, rfl⟩ := h
  obtain ⟨m, hm⟩ : ∃ m, marker = '/' :: m := by
    rw [marker_eq, String.toList_ofList]
    exact ⟨_, rfl⟩
  have hlast : marker.getLast? = some '/' := by
    rw [marker_eq, String.toList_ofList]
    rfl
  obtain ⟨x, hx⟩ : ∃ x, trimStart (a ++ marker ++ b) = x ++ marker ++ b := by
    by_cases ha : ∀ c ∈ a, isSpace c = true
    · refine ⟨[], ?_⟩
      rw [List.append_assoc, trimStart, List.dropWhile_append_of_pos ha, List.nil_append, hm]
      rfl
    · have hne : a.dropWhile isSpace ≠ [] := fun hnil => ha (List.dropWhile_eq_nil_iff.1 hnil)
      refine ⟨a.dropWhile isSpace, ?_⟩
      rw [List.append_assoc, trimStart, List.dropWhile_append, if_neg (by rwa [List.isEmpty_iff]),
        List.append_assoc]
  have hend : trim (a ++ marker ++ b) = x ++ marker ++ trimEnd b := by
    rw [trim, hx, trimEnd_append (c := '/') _ rfl]
    rw [List.getLast?_append, hlast]
    rfl
  exact ⟨x, trimEnd b, hend.symm⟩

/-! ### Texts without parameters -/

/-- Where the parts have no parameter, they are copied. -/
lemma eq_of_rewriteParts {binds : List BindValue} {s t : List Char}
    (h : rewriteParts binds (parts s) = .ok (t, [])) : t = s := by
  induction s using scan_induction generalizing t with
  | nil => exact (congrArg Prod.fst (Except.ok.inj h)).symm
  | cons c s ih =>
    have hpart : (nextPart c s).1 = .copy (c :: s.take (nextPart c s).2) ∨
        ∃ n replacement, (nextPart c s).1 = .parameter n replacement := by
      unfold nextPart
      split_ifs
      · exact Or.inl rfl
      · exact Or.inr ⟨_, _, rfl⟩
      · exact Or.inl (congrArg _ (congrArg _ List.take_zero.symm))
    rw [parts, scan_cons, show scan nextPart _ = parts _ from rfl] at h
    rcases hpart with hcopy | ⟨n, replacement, hparam⟩
    · rw [hcopy, rewriteParts] at h
      cases hrest : rewriteParts binds (parts (s.drop (nextPart c s).2)) with
      | error e =>
        rw [hrest] at h
        cases h
      | ok r =>
        rw [hrest] at h
        obtain ⟨htext, hnil⟩ := Prod.mk.inj (Except.ok.inj h)
        obtain ⟨u, params⟩ := r
        obtain rfl : params = [] := hnil
        rw [← htext, ih _ hrest, List.cons_append, List.take_append_drop]
    · rw [hparam, rewriteParts] at h
      cases hvalue : numberedValue binds n with
      | error e =>
        rw [hvalue] at h
        cases h
      | ok value =>
        rw [hvalue] at h
        cases hrest : rewriteParts binds (parts (s.drop (nextPart c s).2)) with
        | error e =>
          rw [hrest] at h
          cases h
        | ok r =>
          rw [hrest] at h
          cases (Prod.mk.inj (Except.ok.inj h)).2

/-- **A text that is prepared without a parameter is the text itself.** -/
theorem eq_of_mariadbPrepare {sql msql : List Char} {binds : List BindValue}
    (h : mariadbPrepare sql binds = .ok (msql, [])) : msql = sql := by
  rw [mariadbPrepare] at h
  split_ifs at h
  · cases hvalues : allOk (binds.map bindValue) with
    | error e =>
      rw [hvalues] at h
      cases h
    | ok values =>
      rw [hvalues] at h
      exact (Prod.mk.inj (Except.ok.inj h)).1.symm
  · exact eq_of_rewriteParts h

/-! ### The parts of a text -/

/-- The white space around the comment goes with it. -/
lemma map_trim_cut {ss : List (List Char)} (hne : ss ≠ []) (h : ∀ s ∈ ss, ¬ marker <:+: s) :
    (cut marker (batchSep.intercalate ss)).map trim = ss.map trim := by
  induction ss with
  | nil => exact absurd rfl hne
  | cons s ss ih =>
    have hs : ¬ marker <:+: s := h s List.mem_cons_self
    cases ss with
    | nil =>
      rw [List.intercalate_singleton, cut_of_not_infix hs]
    | cons t ts =>
      set rest := batchSep.intercalate (t :: ts) with hrest
      have htext : batchSep.intercalate (s :: t :: ts) =
          s ++ ['\n'] ++ (marker ++ (['\n'] ++ rest)) := by
        rw [intercalate_cons (List.cons_ne_nil _ _), ← hrest, batchSep_eq]
        simp only [List.append_assoc, List.cons_append, List.nil_append]
      have hpass : Passes marker ['\n'] rest :=
        passes_of_not_mem (x := []) newline_not_mem
          (fun hnil => marker_ne_nil (List.infix_nil.1 hnil)) rest
      obtain ⟨p, ps, hps⟩ := List.exists_cons_of_ne_nil (cut_ne_nil marker rest)
      have hcut := ih (List.cons_ne_nil _ _) fun u hu => h u (List.mem_cons_of_mem _ hu)
      rw [hps, List.map_cons] at hcut
      rw [htext, cut_append marker_ne_nil (passes_of_not_mem newline_not_mem hs _),
        cut_of_passes hpass, hps, List.modifyHead_cons, List.map_cons, List.map_cons,
        trim_append_newline, List.map_cons, ← hcut]
      rfl

/-! ### What is cut off -/

/-- How often a letter of `RETURNING` that the comment does not have stands in a text. -/
def letters (s : List Char) : ℕ := (upper (solid s)).count 'R'

lemma letters_append (s t : List Char) : letters (s ++ t) = letters s + letters t := by
  rw [letters, solid_append, upper_append, List.count_append]
  rfl

lemma letters_trim (s : List Char) : letters (trim s) = letters s := by
  rw [letters, solid_trim]
  rfl

lemma letters_marker : letters marker = 0 := by
  rw [marker_eq, String.toList_ofList]
  decide

lemma letters_batchSep : letters batchSep = 0 := by
  have hline : letters ['\n'] = 0 := rfl
  rw [batchSep_eq, ← List.singleton_append, letters_append, letters_append, letters_marker, hline]

lemma letters_pos {s : List Char} (h : 'R' ∈ upper s) : 0 < letters s := by
  obtain ⟨c, hc, hupper⟩ := List.mem_map.1 h
  have hspace : isSpace c = false := by
    by_contra hc'
    rw [Bool.not_eq_false] at hc'
    rw [toUpper_of_isSpace hc'] at hupper
    rw [hupper] at hc'
    exact absurd hc' (by decide)
  have hsolid : c ∈ solid s := by
    rw [solid, List.mem_filter, hspace]
    exact ⟨hc, rfl⟩
  rw [letters, List.count_pos_iff]
  exact List.mem_map.2 ⟨c, hsolid, hupper⟩

lemma letters_intercalate {sep : List Char} (hsep : letters sep = 0) (ps : List (List Char)) :
    letters (sep.intercalate ps) = (ps.map letters).sum := by
  induction ps with
  | nil => rfl
  | cons p ps ih =>
    cases ps with
    | nil => rw [List.intercalate_singleton, List.map_singleton, List.sum_singleton]
    | cons q qs =>
      rw [intercalate_cons (List.cons_ne_nil _ _), letters_append, letters_append, hsep, ih,
        Nat.zero_add, List.map_cons (l := q :: qs), List.sum_cons]

/-- What is trimmed, and the parts that are blank, have no letters. -/
lemma letters_parts (ps : List (List Char)) :
    (((ps.map trim).filter (· ≠ [])).map letters).sum = (ps.map letters).sum := by
  induction ps with
  | nil => rfl
  | cons p ps ih =>
    rw [List.map_cons, List.filter_cons, List.map_cons, List.sum_cons, ← ih, ← letters_trim p]
    split_ifs with hp
    · rw [List.map_cons, List.sum_cons]
    · have hnil : trim p = [] := by simpa using hp
      rw [hnil]
      exact (Nat.zero_add _).symm

lemma letters_batchParts (msql : List Char) :
    ((batchParts msql).map letters).sum = letters msql := by
  rw [batchParts, letters_parts, ← letters_intercalate letters_marker,
    intercalate_cut marker_ne_nil]

/-- **With what is behind `RETURNING`, letters go.** -/
theorem letters_withoutReturning (text : List Char) :
    withoutReturning text = text ∨ letters (withoutReturning text) < letters text := by
  rw [withoutReturning]
  split_ifs
  · cases hr : rfind " RETURNING ".toList (upper text) with
    | none => exact Or.inl rfl
    | some r =>
      right
      have hword : " RETURNING ".toList <+: upper (text.drop r) := by
        rw [upper_drop]
        exact prefix_of_rfind hr
      have hmem : 'R' ∈ upper (text.drop r) := by
        refine hword.subset ?_
        rewrite [String.toList_ofList]
        decide
      calc letters (trim (text.take r)) = letters (text.take r) := letters_trim _
        _ < letters (text.take r) + letters (text.drop r) :=
          Nat.lt_add_of_pos_right (letters_pos hmem)
        _ = letters text := by rw [← letters_append, List.take_append_drop]
  · exact Or.inl rfl

/-! ### The statements that are run -/

namespace Emitted

variable (e : Emitted)

lemma letters_text : letters e.text = (e.statements.map letters).sum :=
  letters_intercalate letters_batchSep e.statements

/-- No statement is blank, so that none goes. -/
lemma filter_statements : (e.statements.map trim).filter (· ≠ []) = e.statements.map trim := by
  rw [List.filter_eq_self]
  intro t ht
  obtain ⟨s, hs, rfl⟩ := List.mem_map.1 ht
  obtain ⟨c, hc, hspace⟩ := e.solid s hs
  have hsolid : c ∈ Text.solid (trim s) := by
    rw [solid_trim, Text.solid, List.mem_filter, hspace]
    exact ⟨hc, rfl⟩
  simpa using List.ne_nil_of_mem (List.mem_filter.1 hsolid).1

/-- Where a statement is not the first of several, the comment stands in front of it. -/
lemma marker_infix_text (h : e.statements.length ≠ 1) : marker <:+: e.text := by
  obtain ⟨s, ss, hss⟩ := List.exists_cons_of_ne_nil e.nonempty
  cases ss with
  | nil => exact absurd (congrArg List.length hss) h
  | cons t ts =>
    refine ⟨s ++ ['\n'], '\n' :: batchSep.intercalate (t :: ts), ?_⟩
    rw [text, hss, intercalate_cons (List.cons_ne_nil _ _), batchSep_eq]
    simp only [List.append_assoc, List.cons_append, List.nil_append]

/-- A single statement is run as it is. -/
lemma run_single {command : List Char} {params : List Param} (h : e.statements.length = 1) :
    statementsRun command params = e.expected command ↔ e.Separable command params := by
  rw [expected, if_pos h, Separable, if_pos h, statementsRun]
  split_ifs with hcut
  · refine iff_of_false ?_ fun hsep => hsep hcut.1 hcut.2
    intro hparts
    have hmem : command ∈ batchParts command := hparts ▸ List.mem_singleton_self command
    obtain ⟨x, hx, htrim⟩ := List.mem_map.1 (List.mem_filter.1 hmem).1
    exact not_infix_of_mem_cut marker_ne_nil hx
      ((htrim ▸ hcut.2 : marker <:+: trim x).trans (infix_of_trim x))
  · exact iff_of_true rfl fun hnil hinfix => hcut ⟨hnil, hinfix⟩

/-- Several statements are run as they are. -/
lemma run_several {command : List Char} {params : List Param} (h : e.statements.length ≠ 1)
    (hcommand : command = e.text ∨ letters command < letters e.text) :
    statementsRun command params = e.expected command ↔ e.Separable command params := by
  rw [expected, if_neg h, Separable, if_neg h]
  constructor
  · intro hrun
    rw [statementsRun] at hrun
    split_ifs at hrun with hcut
    · have htext : command = e.text := by
        refine hcommand.resolve_right fun hlt => ?_
        have hletters := letters_batchParts command
        rw [hrun, ← e.filter_statements, letters_parts, ← e.letters_text] at hletters
        exact Nat.lt_irrefl _ (hletters ▸ hlt)
      refine ⟨hcut.1, htext, fun s hs hinfix => ?_⟩
      have hmem : trim s ∈ batchParts command := hrun ▸ List.mem_map_of_mem hs
      obtain ⟨x, hx, htrim⟩ := List.mem_map.1 (List.mem_filter.1 hmem).1
      exact not_infix_of_mem_cut marker_ne_nil hx
        ((htrim ▸ marker_infix_trim hinfix : marker <:+: trim x).trans (infix_of_trim x))
    · have hlen := congrArg List.length hrun
      rw [List.length_map] at hlen
      exact absurd hlen.symm h
  · rintro ⟨hparams, htext, hfree⟩
    rw [statementsRun, if_pos ⟨hparams, htext ▸ e.marker_infix_text h⟩, batchParts, htext, text,
      map_trim_cut e.nonempty hfree, e.filter_statements]

/-- **What is run for a text that has been prepared.** -/
theorem statementsRun_iff {command msql : List Char} {binds : List BindValue} {params : List Param}
    (hprepare : mariadbPrepare command binds = .ok (msql, params))
    (hcommand : command = e.text ∨ letters command < letters e.text) :
    statementsRun msql params = e.expected msql ↔ e.Separable command params := by
  by_cases hparams : params = []
  · subst hparams
    obtain rfl := eq_of_mariadbPrepare hprepare
    by_cases h : e.statements.length = 1
    · exact e.run_single h
    · exact e.run_several h hcommand
  · have hrun : statementsRun msql params = [msql] := if_neg fun hcut => hparams hcut.1
    rw [hrun, expected, Separable]
    split_ifs with h
    · exact iff_of_true rfl fun hnil => absurd hnil hparams
    · refine iff_of_false (fun heq => ?_) fun hsep => hparams hsep.1
      have hlen := congrArg List.length heq
      rw [List.length_map] at hlen
      exact h hlen.symm

end Emitted

/-- **The statements of the translator are run exactly where they are separable**: the backend runs
a single one as it is, and several of them one by one. -/
theorem runs_iff (e : Emitted) (binds : List BindValue) :
    (∀ sql msql params, stripped sql = e.text → isControl (commandOf sql) = false →
      mariadbPrepare (commandOf sql) binds = .ok (msql, params) →
        (e.RunsSimple sql binds ↔ e.Separable (commandOf sql) params)) ∧
    ∀ msql params, mariadbPrepare e.text binds = .ok (msql, params) →
      (e.RunsDdl binds ↔ e.Separable e.text params) := by
  constructor
  · intro sql msql params hsql _ hprepare
    have hcommand : commandOf sql = e.text ∨ letters (commandOf sql) < letters e.text := by
      rw [commandOf, hsql]
      exact letters_withoutReturning e.text
    rw [← e.statementsRun_iff hprepare hcommand, Emitted.RunsSimple, simpleStatements, hprepare]
    constructor
    · rintro ⟨m, hrun, hm⟩
      obtain rfl := Except.ok.inj hm
      exact Except.ok.inj hrun
    · exact fun hrun => ⟨msql, congrArg Except.ok hrun, rfl⟩
  · intro msql params hprepare
    rw [← e.statementsRun_iff hprepare (Or.inl rfl), Emitted.RunsDdl, ddlStatements, hprepare]
    constructor
    · rintro ⟨m, hrun, hm⟩
      obtain rfl := Except.ok.inj hm
      exact Except.ok.inj hrun
    · exact fun hrun => ⟨msql, congrArg Except.ok hrun, rfl⟩

/-! ### A literal with the comment -/

/-- A statement with the comment in a literal. -/
def quotedMarker : List Char := "INSERT INTO t VALUES ('/* dbsaci-batch */')".toList

/-- The literal is written out once, for the facts about it. -/
lemma quotedMarker_eq : quotedMarker =
    "INSERT INTO t VALUES ('".toList ++ ("/* dbsaci-batch */".toList ++ "')".toList) := by
  show "INSERT INTO t VALUES ('/* dbsaci-batch */')".toList = _
  rewrite [String.toList_ofList, String.toList_ofList, String.toList_ofList, String.toList_ofList]
  rfl

lemma quotedMarker_solid : ∀ s ∈ [quotedMarker], ∃ c ∈ s, isSpace c = false := by
  intro s hs
  obtain rfl := List.mem_singleton.1 hs
  rw [quotedMarker_eq, String.toList_ofList]
  exact ⟨'I', List.mem_cons_self, rfl⟩

lemma stripped_quotedMarker : stripped quotedMarker = quotedMarker := by
  rw [quotedMarker_eq]
  rewrite [String.toList_ofList, String.toList_ofList, String.toList_ofList]
  decide +kernel

lemma commandOf_quotedMarker : commandOf quotedMarker = quotedMarker := by
  rw [commandOf, stripped_quotedMarker, quotedMarker_eq]
  rewrite [String.toList_ofList, String.toList_ofList, String.toList_ofList]
  rw [withoutReturning, String.toList_ofList]
  exact if_neg (by decide)

lemma isControl_quotedMarker : isControl quotedMarker = false := by
  rw [quotedMarker_eq]
  rewrite [String.toList_ofList, String.toList_ofList, String.toList_ofList]
  rw [isControl]
  simp only [List.any_cons, List.any_nil]
  repeat rw [String.toList_ofList]
  decide +kernel

lemma prepare_quotedMarker : mariadbPrepare quotedMarker [] = .ok (quotedMarker, []) := by
  have hplain : hasDollarDigit quotedMarker = false := by
    rw [quotedMarker_eq]
    rewrite [String.toList_ofList, String.toList_ofList, String.toList_ofList]
    decide +kernel
  rw [mariadbPrepare, if_neg fun h => h.2.2 rfl, rewriteParts_of_plain [] hplain]

lemma batchParts_quotedMarker :
    batchParts quotedMarker = ["INSERT INTO t VALUES ('".toList, "')".toList] := by
  rw [batchParts, quotedMarker_eq, marker_eq]
  rewrite [String.toList_ofList, String.toList_ofList, String.toList_ofList]
  decide +kernel

/-- A literal of the client can have the comment in it. It is cut in two, and the statement with
it. -/
theorem quotedMarker_not_runs : ∃ e : Emitted, e.statements = [quotedMarker] ∧
    stripped quotedMarker = e.text ∧ isControl (commandOf quotedMarker) = false ∧
    simpleStatements quotedMarker [] = .ok ["INSERT INTO t VALUES ('".toList, "')".toList] ∧
      ¬ e.RunsSimple quotedMarker [] := by
  have hmarked : marker <:+: quotedMarker := by
    rw [quotedMarker_eq, marker_eq]
    exact ⟨_, _, List.append_assoc _ _ _⟩
  have hrun : simpleStatements quotedMarker [] =
      .ok ["INSERT INTO t VALUES ('".toList, "')".toList] := by
    rw [simpleStatements, commandOf_quotedMarker, prepare_quotedMarker, Except.map, statementsRun,
      if_pos ⟨rfl, hmarked⟩, batchParts_quotedMarker]
  refine ⟨⟨[quotedMarker], List.cons_ne_nil _ _, quotedMarker_solid⟩, rfl, ?_, ?_, hrun, ?_⟩
  · rw [stripped_quotedMarker, Emitted.text, List.intercalate_singleton]
  · rw [commandOf_quotedMarker, isControl_quotedMarker]
  · rintro ⟨msql, hexpected, -⟩
    rw [hrun] at hexpected
    cases Except.ok.inj hexpected

end DbSaci.Backend.Batch
