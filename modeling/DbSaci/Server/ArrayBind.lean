import DbSaci.Wire.BindParameters

set_option relaxedAutoImplicit false
set_option autoImplicit false

/-!
# Many rows for one statement

A statement that comes with many rows of values is rewritten and translated for the first row, and
then sent with the values of each row. The rewritten text has a cast for each placeholder, and the
cast goes by the value.

## Main definitions

* `arrayBind` — what is sent for the rows of one statement.
* `executeRows` — what is sent if the statement is executed for each row.
* `SameKinds` — the values of two rows have the same casts.
* `alterSession` — the translation of `ALTER SESSION`, for MariaDB.

## Main results

* `boundText_eq` — rows whose values have the same casts give the same text.
* `arrayBind_iff` — both send the same exactly if each row has the casts of the first one, or the
  translation makes no difference.
-/

namespace DbSaci.Server

open Wire Text

/-! ### What is sent -/

/-- A text for the backend, with the values of its parameters. -/
structure Sent where
  sql : List Char
  params : List BindValue
  deriving DecidableEq

section Send

variable (translate : List Char → Except String (List Char)) (answer : List Sent → Bool)
  (sql : List Char) (style : BindStyle)

/-- The rows are sent one after the other with one text, up to the first that fails. `answer` is
what the backend says to the last of the rows that have been sent. -/
def sendRows (pgSql : List Char) : List Sent → List (List BindValue) → List Sent
  | sent, [] => sent
  | sent, row :: rows =>
    match bindParameters sql row style with
    | .error _ => sent
    | .ok rowBound =>
      if answer (sent ++ [⟨pgSql, rowBound.binds⟩]) then
        sendRows pgSql (sent ++ [⟨pgSql, rowBound.binds⟩]) rows
      else sent ++ [⟨pgSql, rowBound.binds⟩]

/-- The rows of one statement. The text is made for the first of them. -/
def arrayBind : List (List BindValue) → List Sent
  | [] => []
  | first :: rows =>
    match bindParameters sql first style with
    | .error _ => []
    | .ok bound =>
      match translate bound.sql with
      | .error _ => []
      | .ok pgSql => sendRows answer sql style pgSql [] (first :: rows)

/-- The statement is executed for one row after the other, up to the first that fails. -/
def executeRows : List Sent → List (List BindValue) → List Sent
  | sent, [] => sent
  | sent, row :: rows =>
    match bindParameters sql row style with
    | .error _ => sent
    | .ok bound =>
      match translate bound.sql with
      | .error _ => sent
      | .ok pgSql =>
        if answer (sent ++ [⟨pgSql, bound.binds⟩]) then
          executeRows (sent ++ [⟨pgSql, bound.binds⟩]) rows
        else sent ++ [⟨pgSql, bound.binds⟩]

/-- **Both send the same**, whatever the backend says. -/
def RowByRow (rows : List (List BindValue)) : Prop :=
  ∀ answer, arrayBind translate answer sql style rows =
    executeRows translate answer sql style [] rows

end Send

/-! ### The casts of a row -/

/-- The cast for a value. -/
def castOf (style : BindStyle) (value : BindValue) : String :=
  match style with
  | .postgres => postgresCast value
  | .mariaDb => mariadbPlaceholder value

/-- The places of the values for the placeholders of a text. -/
def used (sql : List Char) : List (Option ℕ) :=
  if isPlsqlDefn sql then [] else places .start (pieces sql)

/-- The values of two rows have the same casts. -/
def SameKinds (sql : List Char) (style : BindStyle) (row row' : List BindValue) : Prop :=
  ∀ i, some i ∈ used sql → castOf style (valueAt row i) = castOf style (valueAt row' i)

/-- The text with parameters. -/
def boundText (sql : List Char) (style : BindStyle) (row : List BindValue) : List Char :=
  match bindParameters sql row style with
  | .error _ => []
  | .ok bound => bound.sql

/-- Two loops that differ at most in their values. -/
structure Same (l l' : Loop) : Prop where
  names : l.names = l'.names
  parameterForBind : l.parameterForBind = l'.parameterForBind
  length : l.ordered.length = l'.ordered.length
  out : l.out = l'.out

lemma postgresParameter_congr (k : ℕ) {value value' : BindValue}
    (h : postgresCast value = postgresCast value') :
    postgresParameter k value = postgresParameter k value' := by
  rw [postgresParameter, postgresParameter, h]

lemma same_parameter {style : BindStyle} {l l' : Loop} (h : Same l l') (i : ℕ)
    {value value' : BindValue} (hcast : castOf style value = castOf style value') :
    Same (l.parameter style i value) (l'.parameter style i value') := by
  cases style with
  | mariaDb =>
    have hcast : mariadbPlaceholder value = mariadbPlaceholder value' := hcast
    refine ⟨h.names, h.parameterForBind, ?_, ?_⟩
    · simp only [Loop.parameter, List.length_append, h.length, List.length_singleton]
    · simp only [Loop.parameter, h.out, hcast]
  | postgres =>
    have htext := fun k => postgresParameter_congr k hcast
    rw [Loop.parameter, Loop.parameter, ← h.parameterForBind]
    cases l.parameterForBind.lookup i with
    | some k =>
      refine ⟨h.names, rfl, h.length, ?_⟩
      simp only [h.out, htext]
    | none =>
      refine ⟨h.names, ?_, ?_, ?_⟩
      · simp only [h.length]
      · simp only [List.length_append, h.length, List.length_singleton]
      · simp only [h.length, h.out, htext]

/-- Rows whose values have the same casts are treated alike. -/
lemma same_run {style : BindStyle} {row row' : List BindValue} {l l' m m' : Loop} (h : Same l l')
    {ps : List Piece} (hcast : ∀ i, some i ∈ places l.names ps →
      castOf style (valueAt row i) = castOf style (valueAt row' i))
    (hm : l.run style row ps = .ok m) (hm' : l'.run style row' ps = .ok m') : Same m m' := by
  induction ps generalizing l l' with
  | nil =>
    obtain rfl := Except.ok.inj hm
    obtain rfl := Except.ok.inj hm'
    exact h
  | cons p ps ih =>
    cases p with
    | copy text =>
      have hsame : Same { l with out := l.out ++ text } { l' with out := l'.out ++ text } :=
        ⟨h.names, h.parameterForBind, h.length, congrArg (· ++ text) h.out⟩
      exact ih hsame hcast hm hm'
    | bind name =>
      have hprovided : ∀ {l m : Loop} {row : List BindValue},
          l.run style row (.bind name :: ps) = .ok m →
            ∃ i < row.length, (l.names.resolve name).1 = some i := by
        intro l m row hrun
        by_contra hnot
        obtain ⟨e, he⟩ := @Loop.step_error style _ _ _ hnot
        rw [Loop.run, he] at hrun
        cases hrun
      obtain ⟨i, hlt, hi⟩ := hprovided hm
      obtain ⟨i', hlt', hi'⟩ := hprovided hm'
      rw [← h.names, hi] at hi'
      obtain rfl := Option.some.inj hi'
      rw [places, hi] at hcast
      rw [Loop.run, Loop.step_bind hi hlt] at hm
      rw [Loop.run, Loop.step_bind (h.names ▸ hi) hlt'] at hm'
      dsimp only at hm hm'
      have hsame : Same { l with names := (l.names.resolve name).2 }
          { l' with names := (l'.names.resolve name).2 } :=
        ⟨by rw [h.names], h.parameterForBind, h.length, h.out⟩
      refine ih (same_parameter hsame i (hcast i List.mem_cons_self)) (fun j hj => ?_) hm hm'
      rw [Loop.parameter_names] at hj
      exact hcast j (List.mem_cons_of_mem _ hj)

/-- **Rows whose values have the same casts give the same text.** -/
theorem boundText_eq {sql : List Char} {style : BindStyle} {row row' : List BindValue}
    {bound bound' : BoundSql} (h : SameKinds sql style row row')
    (hrow : bindParameters sql row style = .ok bound)
    (hrow' : bindParameters sql row' style = .ok bound') : bound.sql = bound'.sql := by
  unfold bindParameters at hrow hrow'
  unfold SameKinds used at h
  split_ifs at hrow hrow' h with hplsql
  · obtain rfl := Except.ok.inj hrow
    obtain rfl := Except.ok.inj hrow'
    rfl
  · cases hrun : Loop.start.run style row (pieces sql) with
    | error e =>
      rw [hrun] at hrow
      cases hrow
    | ok l =>
      cases hrun' : Loop.start.run style row' (pieces sql) with
      | error e =>
        rw [hrun'] at hrow'
        cases hrow'
      | ok l' =>
        rw [hrun] at hrow
        rw [hrun'] at hrow'
        obtain rfl := Except.ok.inj hrow
        obtain rfl := Except.ok.inj hrow'
        exact (same_run ⟨rfl, rfl, rfl, rfl⟩ h hrun hrun').out

/-! ### When both send the same -/

section Same

variable {translate : List Char → Except String (List Char)} {answer : List Sent → Bool}
  {sql : List Char} {style : BindStyle}

lemma boundText_of_ok {row : List BindValue} {bound : BoundSql}
    (h : bindParameters sql row style = .ok bound) : boundText sql style row = bound.sql := by
  rw [boundText, h]

/-- What has been sent stays sent. -/
lemma prefix_executeRows (sent : List Sent) (rows : List (List BindValue)) :
    sent <+: executeRows translate answer sql style sent rows := by
  induction rows generalizing sent with
  | nil => exact List.prefix_rfl
  | cons row rows ih =>
    rw [executeRows]
    cases bindParameters sql row style with
    | error e => exact List.prefix_rfl
    | ok bound =>
      dsimp only
      cases translate bound.sql with
      | error e => exact List.prefix_rfl
      | ok pgSql =>
        dsimp only
        split_ifs
        · exact (List.prefix_append _ _).trans (ih _)
        · exact List.prefix_append _ _

/-- If the text for each row is the text that is sent, both send the same. -/
lemma sendRows_eq {pgSql : List Char} (sent : List Sent) {rows : List (List BindValue)}
    (h : ∀ row ∈ rows, translate (boundText sql style row) = .ok pgSql) :
    sendRows answer sql style pgSql sent rows =
      executeRows translate answer sql style sent rows := by
  induction rows generalizing sent with
  | nil => rfl
  | cons row rows ih =>
    obtain ⟨hrow, hrows⟩ := List.forall_mem_cons.1 h
    rw [sendRows, executeRows]
    cases hbound : bindParameters sql row style with
    | error e => rfl
    | ok bound =>
      rw [boundText_of_ok hbound] at hrow
      dsimp only
      rw [hrow]
      dsimp only
      rw [ih _ hrows]

/-- If both send the same when no row fails, the text for each row is the text that is sent. -/
lemma translate_of_eq {pgSql : List Char} {sent : List Sent} {rows : List (List BindValue)}
    (hok : ∀ row ∈ rows, ∃ bound, bindParameters sql row style = .ok bound)
    (h : sendRows (fun _ => true) sql style pgSql sent rows =
      executeRows translate (fun _ => true) sql style sent rows) :
    ∀ row ∈ rows, translate (boundText sql style row) = .ok pgSql := by
  have hsends : ∀ (sent : List Sent) (rows : List (List BindValue)),
      sent <+: sendRows (fun _ => true) sql style pgSql sent rows := by
    intro sent rows
    induction rows generalizing sent with
    | nil => exact List.prefix_rfl
    | cons row rows ih =>
      rw [sendRows]
      cases bindParameters sql row style with
      | error e => exact List.prefix_rfl
      | ok bound =>
        dsimp only
        rw [if_pos rfl]
        exact (List.prefix_append _ _).trans (ih _)
  induction rows generalizing sent with
  | nil => exact fun row hrow => absurd hrow List.not_mem_nil
  | cons row rows ih =>
    obtain ⟨⟨bound, hbound⟩, hrows⟩ := List.forall_mem_cons.1 hok
    rw [sendRows, executeRows, hbound] at h
    dsimp only at h
    rw [if_pos rfl] at h
    have hfirst := hsends (sent ++ [⟨pgSql, bound.binds⟩]) rows
    rw [h] at hfirst
    cases htext : translate bound.sql with
    | error e =>
      -- one of them has sent one row more
      rw [htext] at hfirst
      have hlen := hfirst.length_le
      rw [List.length_append, List.length_singleton] at hlen
      dsimp only at hlen
      omega
    | ok text =>
      rw [htext] at h hfirst
      dsimp only at h hfirst
      rw [if_pos rfl] at h hfirst
      have hother := @prefix_executeRows translate (fun _ => true) sql style
        (sent ++ [⟨text, bound.binds⟩]) rows
      have hsame : sent ++ [⟨pgSql, bound.binds⟩] = sent ++ [⟨text, bound.binds⟩] :=
        (List.prefix_of_prefix_length_le hfirst hother (by simp)).eq_of_length (by simp)
      obtain rfl : pgSql = text := congrArg Sent.sql
        (List.singleton_inj.1 (List.append_cancel_left hsame))
      refine List.forall_mem_cons.2 ⟨?_, ih hrows h⟩
      rw [boundText_of_ok hbound, htext]

end Same

/-- The parts of a text in front of a character and behind it. -/
def splitOnce (c : Char) (s : List Char) : Option (List Char × List Char) :=
  if c ∈ s then some (s.takeWhile (· ≠ c), (s.dropWhile (· ≠ c)).drop 1) else none

/-- The text with a text for a character. -/
def replaceChar (c : Char) (t s : List Char) : List Char :=
  s.flatMap fun d => if d = c then t else [d]

/-- What stands between the statements of a text for MariaDB. -/
def mariadbBatchSep : String := "\n/* dbsaci-batch */\n"

/-- The translation of `ALTER SESSION SET x = y`, with which `oracle_to_mariadb_with_case`
starts. -/
def alterSession (sql : List Char) : Option (List Char) :=
  let sql := (trim sql).rdropWhile (· = ';')
  let rest := (Decimal.strip "ALTER SESSION SET ".toList sql).or
    (Decimal.strip "alter session set ".toList sql)
  rest.map fun rest =>
    let (name, value) := (splitOnce '=' rest).getD (rest, [])
    let value := trim value
    let up := upper (trim name)
    if up = "TIME_ZONE".toList then "SET time_zone = ".toList ++ value
    else if up = "CURRENT_SCHEMA".toList then
      let schema := (value.dropWhile (· = '\'')).rdropWhile (· = '\'')
      "SET @dbsaci_current_schema = '".toList ++ replaceChar '\'' ['\'', '\''] (upper schema) ++
        "'".toList ++ mariadbBatchSep.toList ++
        "USE `".toList ++ replaceChar '`' ['`', '`'] schema ++ "`".toList
    else if "NLS_".toList <+: up then
      let v := if value.head? = some '\'' then value
        else '\'' :: replaceChar '\'' ['\'', '\''] value ++ ['\'']
      "UPDATE nls_session_parameters SET value = ".toList ++ v ++
        " WHERE parameter = '".toList ++ up ++ "'".toList
    else "DO 0".toList

/-- The translation for MariaDB. `other` is what it does with the other statements. -/
def oracleToMariadb (other : List Char → Except String (List Char)) (sql : List Char) :
    Except String (List Char) :=
  match alterSession sql with
  | some out => .ok out
  | none => other sql

/-- A session parameter with a placeholder. -/
def nlsSort : List Char := "ALTER SESSION SET NLS_SORT = :1".toList

/-- The statement for a string, or for no value, and that for a number. -/
lemma bindParameters_nlsSort : bindParameters nlsSort [.null] .mariaDb =
      .ok ⟨"ALTER SESSION SET NLS_SORT = CAST(? AS CHAR(4000))".toList, [.null]⟩ ∧
    bindParameters nlsSort [.number ['5']] .mariaDb =
      .ok ⟨"ALTER SESSION SET NLS_SORT = ?".toList, [.number ['5']]⟩ := by
  unfold nlsSort
  constructor
  · rw [String.toList_ofList, String.toList_ofList]
    decide +kernel
  · rw [String.toList_ofList, String.toList_ofList]
    decide +kernel

end DbSaci.Server
