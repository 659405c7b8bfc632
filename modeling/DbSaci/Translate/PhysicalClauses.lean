import DbSaci.Library.Marking
import DbSaci.Translate.ReplaceIdentifier

set_option relaxedAutoImplicit false
set_option autoImplicit false

/-!
# Storage clauses

`strip_oracle_physical_clauses` leaves out what only Oracle's storage needs. It runs over the text of
a statement and tests at each place outside quoted parts if one of its keywords stands there.

## Main definitions

* `consumed` — how much the pass leaves out at a place.
* `marked` — each character of the statement, and if it is kept.
* `stripOraclePhysicalClauses` — the pass.
-/

namespace DbSaci.Translate.Physical

open Text

/-! ### The tests -/

/-- `starts_keyword`: the keyword stands there, and no longer identifier does. -/
def startsKeyword (keyword tail : List Char) : Bool :=
  startsWith keyword tail && !(tail.drop keyword.length).head?.any isWordByte

/-- `skip_clause_value`: the keyword, the white space behind it, and what stands up to white space,
a comma or a closing parenthesis. -/
def skipClauseValue (tail : List Char) (keywordLen : ℕ) : ℕ :=
  let rest := tail.drop keywordLen
  let value := trimStart rest
  keywordLen + (rest.length - value.length) +
    (value.takeWhile fun c => !(isSpace c || c = ',' || c = ')')).length

/-- The keywords that have a value. -/
def valuedKeywords : List (List Char) :=
  ["TABLESPACE".toList, "PCTFREE".toList, "INITRANS".toList, "MAXTRANS".toList, "PARALLEL".toList]

/-- The keywords that stand alone. -/
def flagKeywords : List (List Char) :=
  ["LOGGING".toList, "NOLOGGING".toList, "NOPARALLEL".toList, "CACHE".toList, "NOCACHE".toList,
    "COMPUTE STATISTICS".toList]

/-- `STORAGE (..)`. -/
def storageConsumed (tail : List Char) : Option ℕ :=
  if startsKeyword "STORAGE".toList tail = true then
    let after := trimStart (tail.drop "STORAGE".toList.length)
    if after.head? = some '(' then
      (matchingParen after).map fun stop => tail.length - after.length + stop + 1
    else none
  else none

/-- `LOB (..) STORE AS (..)`. -/
def lobConsumed (tail : List Char) : Option ℕ :=
  if startsKeyword "LOB".toList tail = true then
    let afterLob := trimStart (tail.drop "LOB".toList.length)
    if afterLob.head? = some '(' then
      (matchingParen afterLob).bind fun colsEnd =>
        let afterStore := trimStart (afterLob.drop (colsEnd + 1))
        if startsWith "STORE AS".toList afterStore = true then
          let afterAs := trimStart (afterStore.drop "STORE AS".toList.length)
          if afterAs.head? = some '(' then
            (matchingParen afterAs).map fun attrsEnd => tail.length - afterAs.length + attrsEnd + 1
          else none
        else none
    else none
  else none

/-- The tests that are made outside parentheses. -/
def clauseConsumed (tail : List Char) : Option ℕ :=
  (((((valuedKeywords.find? fun k => startsKeyword k tail).map fun k =>
    skipClauseValue tail k.length).or
    ((flagKeywords.find? fun k => startsKeyword k tail).map List.length)).or
    (if startsKeyword "ENABLE ROW MOVEMENT".toList tail = true then
      some "ENABLE ROW MOVEMENT".toList.length else none)).or
    (if startsKeyword "SEGMENT CREATION".toList tail = true then
      some (skipClauseValue tail "SEGMENT CREATION".toList.length) else none)).or
    ((storageConsumed tail).or (lobConsumed tail))

/-- What stands behind `ENABLE` and `DISABLE` in statements of their own. -/
def tableLevel : List (List Char) :=
  ["CONSTRAINT".toList, "TRIGGER".toList, "ALL".toList, "ROW MOVEMENT".toList]

/-- What may go on behind a constraint state. -/
def followKeywords : List (List Char) :=
  ["VALIDATE".toList, "NOVALIDATE".toList, "RELY".toList, "NORELY".toList]

/-- One constraint state with what follows it. -/
def oneStateConsumed (state tail : List Char) : Option ℕ :=
  let after := trimStart (tail.drop state.length)
  if startsKeyword state tail = true ∧ ¬ (tableLevel.any fun k => startsKeyword k after) = true then
    match followKeywords.find? fun k => startsKeyword k after with
    | some follow => some (tail.length - after.length + follow.length)
    | none => some state.length
  else none

/-- The tests for constraint states. -/
def stateConsumed (tail : List Char) : Option ℕ :=
  (oneStateConsumed "ENABLE".toList tail).or (oneStateConsumed "DISABLE".toList tail)

section Pass

variable (alphanumeric : Char → Bool)

/-- No identifier ends there. `alphanumeric` tells the letters and digits of all scripts. -/
def atBoundary (last : Option Char) : Bool :=
  last.all fun c => !(alphanumeric c || c = '_' || c = '$')

/-- How much is left out at a place. -/
def consumed (depth : ℤ) (last : Option Char) (tail : List Char) : Option ℕ :=
  (if depth = 0 then clauseConsumed tail else none).or
    (if atBoundary alphanumeric last = true then stateConsumed tail else none)

/-- The depth behind a character. -/
def depthAfter (depth : ℤ) (c : Char) : ℤ :=
  if c = '(' then depth + 1 else if c = ')' then depth - 1 else depth

/-- One step of the loop. The state has the depth, and the last character that is kept. -/
def clauseMarker : Marker (ℤ × Option Char) Char := fun st c s =>
  if c = '\'' ∨ c = '"' then
    (skipQuoted c s, true, st.1, (s.take (skipQuoted c s)).getLast?.or (some c))
  else
    match consumed alphanumeric st.1 st.2 (c :: s) with
    | some n => (n - 1, false, st)
    | none => (0, true, depthAfter st.1 c, some c)

/-- `replace_ddl_prefix`. -/
def replaceDdlPrefix (sql oracle pg : List Char) : List Char :=
  let tail := trimStart sql
  let leading := sql.length - tail.length
  if startsWith oracle tail = true ∧
      (tail.drop oracle.length).head?.all (fun c => c ∈ [' ', '\t', '\n', '\r', '\x0c']) = true then
    sql.take leading ++ (pg ++ tail.drop oracle.length)
  else sql

/-- Each character of the statement, and if it is kept. -/
def marked (sql : List Char) : List (Char × Bool) :=
  (clauseMarker alphanumeric).mark (0, none)
    (replaceDdlPrefix sql "CREATE BITMAP INDEX".toList "CREATE INDEX".toList)

/-- The pass runs for the statement. -/
def IsDdl (sql : List Char) : Prop :=
  startsWith "CREATE ".toList (trimStart sql) = true ∨
    startsWith "ALTER ".toList (trimStart sql) = true ∨
      startsWith "CREATE INDEX".toList (trimStart sql) = true

instance (sql : List Char) : Decidable (IsDdl sql) := by
  unfold IsDdl
  infer_instance

/-- `strip_oracle_physical_clauses`. -/
def stripOraclePhysicalClauses (sql : List Char) : List Char :=
  if IsDdl sql then kept (marked alphanumeric sql) else sql

end Pass

end DbSaci.Translate.Physical
