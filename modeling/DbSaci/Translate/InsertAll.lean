import DbSaci.Library.Text

set_option relaxedAutoImplicit false
set_option autoImplicit false

/-!
# Multi-table `INSERT`

`rewriteInsertAll` and `rewriteInsertAllMariadb` cut an `INSERT ALL` or `INSERT FIRST` up by
keyword searches: the end of the last `VALUES` list divides the clauses from the subquery, and the
clauses are consumed from the front. A text they do not take apart is left unchanged; slicing a
text where there is no character boundary is a panic.

## Main definitions

* `Failure`, `Target`, `When` — the outcomes, and an `INSERT` of the lowered statement.
* `lastValuesClose`, `lastValuesCloseMariadb` — the end of the last `VALUES` list.
* `readClauses`, `readClausesMariadb` — the loops over the clauses.
* `rewriteInsertAll`, `rewriteInsertAllMariadb` — the passes, up to the text they print.
* `insertAllText`, `insertAllMariadbText` — the text.
-/

namespace DbSaci.Translate

open Text

/-- Why a pass lowers nothing. -/
inductive Failure
  | panic
  | unchanged
  deriving DecidableEq, Repr

/-- The `WHERE` clause of a lowered `INSERT`: the condition of a `WHEN`, or for `ELSE` the
conditions so far, each of them negated. -/
inductive When
  | cond (c : List Char)
  | noneOf (cs : List (List Char))
  deriving DecidableEq, Repr

/-- The text of a `WHERE` clause. -/
def When.text : When → List Char
  | cond c => c
  | noneOf [] => "TRUE".toList
  | noneOf cs =>
    List.intercalate " AND ".toList (cs.map fun c => "NOT (".toList ++ c ++ ")".toList)

/-- One `INSERT` of the lowered statement. -/
structure Target where
  table : List Char
  cols : List Char
  values : List Char
  when : Option When
  deriving DecidableEq, Repr

/-! ### Where the clauses end -/

/-- How many characters there are up to the end of the first parentheses. -/
def parenEnd (s : List Char) : Option ℕ := do
  let openAt ← find ['('] s
  let closeAt ← matchingParen (s.drop openAt)
  return openAt + closeAt + 1

/-- The text can be compared with a word of six bytes, and the next byte looked at: it starts with
an ASCII character, and if it has seven bytes the sixth ends a character. -/
def sliceable (s : List Char) : Bool :=
  (s.take 1).all (fun c => decide (c.utf8Size = 1)) &&
    (decide (byteLen s < 7) || isCharBoundary 6 s)

/-- The word `VALUES` and something after it that is no letter or digit. -/
def isValuesWord (s : List Char) : Bool :=
  decide (7 ≤ byteLen s) && startsWith "VALUES".toList s &&
    ((s.drop 6).take 1).all fun c => !c.isAlphanum

/-- The end of the last `VALUES` list at depth zero. The scan looks at the characters one by one,
but skips what a list has been matched to. -/
def lastValuesClose : List Char → ℕ → ℕ → ℤ → Option Char → ℕ → Option ℕ
  | [], _, _, _, _, last => some last
  | _ :: s, skip + 1, idx, depth, quoted, last =>
    lastValuesClose s skip (idx + 1) depth quoted last
  | c :: s, 0, idx, depth, some q, last =>
    lastValuesClose s 0 (idx + 1) depth (if c = q then none else some q) last
  | c :: s, 0, idx, depth, none, last =>
    if c = '\'' ∨ c = '"' then lastValuesClose s 0 (idx + 1) depth (some c) last
    else if c = '(' then lastValuesClose s 0 (idx + 1) (depth + 1) none last
    else if c = ')' then lastValuesClose s 0 (idx + 1) (depth - 1) none last
    else if depth = 0 then
      if sliceable (c :: s) then
        match if isValuesWord (c :: s) then parenEnd (c :: s) else none with
        | some n => lastValuesClose s (n - 1) (idx + 1) depth none (idx + n)
        | none => lastValuesClose s 0 (idx + 1) depth none last
      else none
    else lastValuesClose s 0 (idx + 1) depth none last

/-- The end of the last `VALUES` list, wherever the word stands. The search ends at the first
`VALUES` that no parentheses follow. -/
def lastValuesCloseMariadb : List Char → ℕ → ℕ → ℕ → ℕ
  | [], _, _, last => last
  | _ :: s, skip + 1, idx, last => lastValuesCloseMariadb s skip (idx + 1) last
  | c :: s, 0, idx, last =>
    if startsWith "VALUES".toList (c :: s) then
      match parenEnd (c :: s) with
      | some n => lastValuesCloseMariadb s (n - 1) (idx + 1) (idx + n)
      | none => last
    else lastValuesCloseMariadb s 0 (idx + 1) last

/-! ### The clauses -/

/-- The characters of a table name. -/
def isNameChar (c : Char) : Bool := !(isSpace c || c == '(')

/-- The text between the first character and the one at `close`. -/
def between (s : List Char) (close : ℕ) : Except Failure (List Char) :=
  if close = 0 ∨ isCharBoundary 1 s = false then .error .panic else .ok ((s.take close).drop 1)

/-- The loop of `rewrite_insert_all` over the clauses: the targets from here on. It ends at the
first clause it does not expect. -/
def readClauses : ℕ → List Char → Option When → List (List Char) → Except Failure (List Target)
  | 0, _, _, _ => .ok []
  | fuel + 1, rest, pending, prior =>
    if rest = [] then .ok []
    else if startsWith "WHEN ".toList rest then
      let thenAt := (find " THEN".toList (upper rest)).getD rest.length
      if thenAt < 5 then .error .panic
      else
        let cond := trim ((rest.take thenAt).drop 5)
        readClauses fuel (trimStart (rest.drop (thenAt + 5))) (some (.cond cond)) (prior ++ [cond])
    else if startsWith "ELSE ".toList rest then
      readClauses fuel (trimStart (rest.drop 5)) (some (.noneOf prior)) prior
    else if startsWith "INTO ".toList rest then
      let rest := trimStart (rest.drop 5)
      let table := rest.takeWhile isNameChar
      let rest := trimStart (rest.dropWhile isNameChar)
      let closeCols := (matchingParen rest).getD 0
      let cols := if startsWith ['('] rest then rest.take (closeCols + 1) else []
      let rest := if startsWith ['('] rest then trimStart (rest.drop (closeCols + 1)) else rest
      if startsWith "VALUES".toList rest then do
        let rest := trimStart (rest.drop 6)
        let close := (matchingParen rest).getD 0
        let values ← between rest close
        let targets ← readClauses fuel (trimStart (rest.drop (close + 1))) pending prior
        return ⟨table, cols, values, pending⟩ :: targets
      else .ok []
    else .ok []

/-- The loop of `rewrite_insert_all_mariadb` over the clauses. It gives up at the first clause it
does not expect, and expects a column list. -/
def readClausesMariadb :
    ℕ → List Char → Option When → List (List Char) → Except Failure (List Target)
  | 0, _, _, _ => .ok []
  | fuel + 1, rest, current, prior =>
    if rest = [] then .ok []
    else if startsWith "WHEN ".toList rest then
      match find " THEN".toList (upper rest) with
      | none => .error .unchanged
      | some thenAt =>
        if thenAt < 5 then .error .panic
        else
          let cond := trim ((rest.take thenAt).drop 5)
          readClausesMariadb fuel (trimStart (rest.drop (thenAt + 5))) (some (.cond cond))
            (prior ++ [cond])
    else if startsWith "ELSE ".toList rest then
      readClausesMariadb fuel (trimStart (rest.drop 5)) (some (.noneOf prior)) prior
    else if startsWith "INTO ".toList rest then
      let rest := trimStart (rest.drop 5)
      let table := rest.takeWhile isNameChar
      let rest := trimStart (rest.dropWhile isNameChar)
      match if startsWith ['('] rest then matchingParen rest else none with
      | none => .error .unchanged
      | some closeCols =>
        let cols := rest.take (closeCols + 1)
        let rest := trimStart (rest.drop (closeCols + 1))
        if startsWith "VALUES".toList rest then
          let rest := trimStart (rest.drop 6)
          match matchingParen rest with
          | none => .error .unchanged
          | some close => do
            let values ← between rest close
            let targets ← readClausesMariadb fuel (trimStart (rest.drop (close + 1))) current prior
            return ⟨table, cols, values, current⟩ :: targets
        else .error .unchanged
    else .error .unchanged

/-! ### The passes -/

/-- The subquery after the clauses. -/
def subqueryAfter (body : List Char) (last : ℕ) : List Char :=
  trim ((trim (body.drop last)).rdropWhile fun c => c = ';')

/-- `rewrite_insert_all`: the targets and the subquery of the lowered statement. -/
def rewriteInsertAll (sql : List Char) : Except Failure (List Target × List Char) :=
  let trimmed := trimStart sql
  let conditional :=
    startsWith "INSERT FIRST ".toList trimmed || startsWith "INSERT FIRST\n".toList trimmed
  let unconditional :=
    startsWith "INSERT ALL ".toList trimmed || startsWith "INSERT ALL\n".toList trimmed
  if !conditional && !unconditional then .error .unchanged
  else
    let body := trimStart (trimmed.drop (if conditional then 12 else 10))
    match lastValuesClose body 0 0 0 none 0 with
    | none => .error .panic
    | some last =>
      if last = 0 ∨ subqueryAfter body last = [] then .error .unchanged
      else do
        let clauses := trim (body.take last)
        let targets ← readClauses (clauses.length + 1) clauses none []
        if targets = [] then .error .unchanged
        else return (targets, subqueryAfter body last)

/-- `rewrite_insert_all_mariadb`: the targets and the subquery of the lowered statements. -/
def rewriteInsertAllMariadb (sql : List Char) : Except Failure (List Target × List Char) :=
  let trimmed := trimStart sql
  let first := startsWith "INSERT FIRST ".toList trimmed
  if !first && !startsWith "INSERT ALL ".toList trimmed then .error .unchanged
  else
    let body := trimStart (trimmed.drop (if first then 12 else 10))
    let last := lastValuesCloseMariadb body 0 0 0
    if last = 0 ∨ subqueryAfter body last = [] then .error .unchanged
    else do
      let clauses := trim (body.take last)
      let targets ← readClausesMariadb (clauses.length + 1) clauses none []
      if targets = [] then .error .unchanged
      else return (targets, subqueryAfter body last)

/-! ### The texts -/

/-- The `WHERE` clause of a target. -/
def Target.whereText (t : Target) : List Char :=
  match t.when with
  | none => []
  | some w => " WHERE ".toList ++ w.text

/-- One data-modifying statement that inserts into every target. -/
def insertAllText (targets : List Target) (subquery : List Char) : List Char :=
  let name (n : ℕ) : List Char := "__i".toList ++ (toString n).toList
  let ctes := targets.zipIdx.map fun (t, n) =>
    name n ++ " AS (INSERT INTO ".toList ++ t.table ++ " ".toList ++ t.cols ++
      " SELECT ".toList ++ t.values ++ " FROM __src".toList ++ t.whereText ++
      " RETURNING 1)".toList
  let counts := targets.zipIdx.map fun (_, n) => "(SELECT count(*) FROM ".toList ++ name n ++ [')']
  "WITH ".toList ++
    List.intercalate ", ".toList (("__src AS (".toList ++ subquery ++ [')']) :: ctes) ++
    " SELECT ".toList ++ List.intercalate " + ".toList counts ++ " AS inserted".toList

/-- The separator between the statements of a batch. -/
def mariadbBatchSep : List Char := "\n/* dbsaci-batch */\n".toList

/-- One `INSERT` for each target. -/
def insertAllMariadbText (targets : List Target) (source : List Char) : List Char :=
  List.intercalate mariadbBatchSep (targets.map fun t =>
    "INSERT INTO ".toList ++ t.table ++ " ".toList ++ t.cols ++ " SELECT ".toList ++ t.values ++
      " FROM (".toList ++ source ++ ") AS __dbsaci_src".toList ++ t.whereText)

end DbSaci.Translate
