import DbSaci.Translate.RewriteExpr

set_option relaxedAutoImplicit false
set_option autoImplicit false

/-!
# Translating queries and statements

What `translate_query`, `translate_set_expr` and the dispatch of `oracle_to_postgres` do to the
tree of a statement: `(+)` conditions become joins, `DUAL` goes, `ROWNUM` bounds leave the `WHERE`
clause and become a limit, aliases are put into the terms of `ORDER BY`, and the expressions of
the clauses the traversal names are rewritten.

## Main definitions

* `translateLegacyOuterJoin`, `dropDual`, `stripRownumPredicate`, `orderTerms` — what happens to
  the clauses before their expressions are rewritten.
* `translateSelect`, `translateSetExpr`, `translateNode`, `translateQuery` — the traversal.
* `translateStatement` — the dispatch over the kinds of statements.
-/

namespace DbSaci.Translate.Syntax

open DbSaci.Sql (NumberLit UnaryOperator)
open DbSaci.Sql.Syntax

variable {κ : Type}

/-! ### Conditions with a `(+)` -/

mutual

/-- `visit_expr`: the expressions the walk comes to, an expression before those below it. -/
def subexprs : Expr κ → List (Expr κ)
  | .binaryOp l op r => .binaryOp l op r :: (subexprs l ++ subexprs r)
  | .unaryOp op e => .unaryOp op e :: subexprs e
  | .nested e => .nested e :: subexprs e
  | .test test e => .test test e :: subexprs e
  | .cast e dataType => .cast e dataType :: subexprs e
  | .collate e collation => .collate e collation :: subexprs e
  | .outerJoin e => .outerJoin e :: subexprs e
  | .between e negated low high =>
    .between e negated low high :: (subexprs e ++ subexprs low ++ subexprs high)
  | .inList e list negated => .inList e list negated :: (subexprs e ++ subexprsList list)
  | .function name (.list args) filter window withinGroup =>
    .function name (.list args) filter window withinGroup :: subexprsArgs args
  | e => [e]

/-- The same for the members of a list. -/
def subexprsList : List (Expr κ) → List (Expr κ)
  | [] => []
  | e :: es => subexprs e ++ subexprsList es

/-- And for the ordinary arguments of a call. -/
def subexprsArgs : List (FunctionArg (Expr κ)) → List (Expr κ)
  | [] => []
  | .unnamed e :: args => subexprs e ++ subexprsArgs args
  | _ :: args => subexprsArgs args

end

mutual

/-- `strip_outer_join`: the expression without the markers the walk comes to. -/
def stripOuterJoin : Expr κ → Expr κ
  | .binaryOp l op r => .binaryOp (stripOuterJoin l) op (stripOuterJoin r)
  | .unaryOp op e => .unaryOp op (stripOuterJoin e)
  | .nested e => .nested (stripOuterJoin e)
  | .test test e => .test test (stripOuterJoin e)
  | .cast e dataType => .cast (stripOuterJoin e) dataType
  | .collate e collation => .collate (stripOuterJoin e) collation
  | .outerJoin e => e
  | .between e negated low high =>
    .between (stripOuterJoin e) negated (stripOuterJoin low) (stripOuterJoin high)
  | .inList e list negated => .inList (stripOuterJoin e) (stripOuterJoinList list) negated
  | .function name (.list args) filter window withinGroup =>
    .function name (.list (stripOuterJoinArgs args)) filter window withinGroup
  | e => e

/-- The same for the members of a list. -/
def stripOuterJoinList : List (Expr κ) → List (Expr κ)
  | [] => []
  | e :: es => stripOuterJoin e :: stripOuterJoinList es

/-- And for the ordinary arguments of a call. -/
def stripOuterJoinArgs : List (FunctionArg (Expr κ)) → List (FunctionArg (Expr κ))
  | [] => []
  | .unnamed e :: args => .unnamed (stripOuterJoin e) :: stripOuterJoinArgs args
  | arg :: args => arg :: stripOuterJoinArgs args

end

/-- Whether the walk comes to a `(+)`. -/
def exprHasOuterJoin (e : Expr κ) : Bool :=
  (subexprs e).any fun
    | .outerJoin _ => true
    | _ => false

/-- The lower case of a name. -/
def lower (s : String) : String := String.ofList (s.toList.map Char.toLower)

/-- Add the table qualifiers of an expression to a list, each once. -/
def collectTableKeys (e : Expr κ) (out : List String) : List String :=
  (subexprs e).foldl (fun out x =>
    match x with
    | .compoundIdentifier (first :: _ :: _) =>
      if lower first ∈ out then out else out ++ [lower first]
    | _ => out) out

/-- Add the qualifiers under a `(+)` to a list. -/
def collectOuterMarkedKeys (e : Expr κ) (out : List String) : List String :=
  (subexprs e).foldl (fun out x =>
    match x with
    | .outerJoin inner => collectTableKeys inner out
    | _ => out) out

/-- The name a table goes by. -/
def tableFactorKey : TableFactor κ → String
  | .table name aliasName _ => lower ((aliasName.or name.getLast?).getD "")
  | .derived _ aliasName => (aliasName.map lower).getD ""
  | .tableFunction _ aliasName => (aliasName.map lower).getD ""
  | .other _ _ => ""

/-- Append the conjuncts of an expression to a list, looking through parentheses. -/
def flattenAnd : Expr κ → List (Expr κ) → List (Expr κ)
  | .binaryOp left .and right, out => flattenAnd right (flattenAnd left out)
  | .nested inner, out => flattenAnd inner out
  | other, out => out ++ [other]

/-- Join conjuncts from the left. -/
def rebuildAnd : List (Expr κ) → Option (Expr κ)
  | [] => none
  | acc :: conjuncts => some (conjuncts.foldl (fun acc next => .binaryOp acc .and next) acc)

/-- A condition with a `(+)`: the tables it names, those that are marked, and the condition
without its markers. -/
structure JoinPred (κ : Type) where
  tables : List String
  marked : List String
  expr : Expr κ

/-- The condition a conjunct with a `(+)` makes. -/
def joinPred (tableKeys : List String) (c : Expr κ) : JoinPred κ where
  tables := (collectTableKeys (stripOuterJoin c) []).filter (· ∈ tableKeys)
  marked := collectOuterMarkedKeys c []
  expr := stripOuterJoin c

/-- Whether a condition belongs to the join of the table `key`, given the tables placed before. -/
def JoinPred.connects (p : JoinPred κ) (key : String) (placed : List String) : Bool :=
  p.tables.contains key &&
    (p.tables.length = 1 || p.tables.any fun t => t != key && placed.contains t)

/-- The join of one more table with the conditions that belong to it. -/
def legacyJoin (outerTables : List String) (relation : TableFactor κ) (key : String)
    (onParts : List (Expr κ)) : Join κ :=
  match rebuildAnd onParts with
  | some e =>
    ⟨relation, if key ∈ outerTables then .leftOuter else .inner, .on e, none⟩
  | none =>
    ⟨relation, if key ∈ outerTables then .leftOuter else .crossJoin, .none, none⟩

/-- The joins of the tables in the order of the `FROM` clause, and the conditions left over. -/
def legacyJoins (outerTables : List String) :
    List (TableFactor κ) → List String → List (JoinPred κ) → List (Join κ) × List (JoinPred κ)
  | [], _, preds => ([], preds)
  | relation :: relations, placed, preds =>
    let key := tableFactorKey relation
    let on := (preds.filter fun p => p.connects key placed).map JoinPred.expr
    let rest := preds.filter fun p => !p.connects key placed
    let (joins, unplaced) := legacyJoins outerTables relations (placed ++ [key]) rest
    (legacyJoin outerTables relation key on :: joins, unplaced)

/-- `translate_legacy_outer_join`: the `(+)` conditions of a `WHERE` clause become joins, when
there are two tables or more and no joins yet. -/
def translateLegacyOuterJoin (select : Select κ) : Select κ :=
  match select.selection, select.fromClause with
  | some selection, base :: second :: others =>
    if exprHasOuterJoin selection ∧ (base :: second :: others).all (·.joins.isEmpty) then
      let relations := (base :: second :: others).map TableWithJoins.relation
      let tableKeys := relations.map tableFactorKey
      let conjuncts := flattenAnd selection []
      let filters := conjuncts.filter fun c => !exprHasOuterJoin c
      let preds := (conjuncts.filter exprHasOuterJoin).map (joinPred tableKeys)
      let outerTables := preds.flatMap JoinPred.marked
      let (joins, unplaced) := legacyJoins outerTables relations.tail
        [tableFactorKey base.relation] preds
      { select with
        fromClause := [⟨base.relation, joins⟩]
        selection := rebuildAnd (filters ++ unplaced.map JoinPred.expr) }
    else select
  | _, _ => select

/-! ### `DUAL` -/

/-- `<schema>.dual` becomes `dual`. -/
def stripDualSchema : TableFactor κ → TableFactor κ
  | .table name aliasName args =>
    if name.length > 1 ∧ name.lastIs "dual" then .table (name.drop (name.length - 1)) aliasName args
    else .table name aliasName args
  | t => t

/-- The single table of the `FROM` clause is `DUAL` without an alias. -/
def onlyDual : List (TableWithJoins κ) → Bool
  | [⟨.table name none _, []⟩] => name.lastIs "dual"
  | _ => false

/-- `FROM DUAL` goes, `DUAL` among other tables loses its schema. -/
def dropDual (select : Select κ) : Select κ :=
  if onlyDual select.fromClause then { select with fromClause := [] }
  else { select with
    fromClause := select.fromClause.map fun t =>
      ⟨stripDualSchema t.relation,
        t.joins.map fun j => { j with relation := stripDualSchema j.relation }⟩ }

/-! ### `ROWNUM` bounds -/

/-- The identifier `ROWNUM`. -/
def isRownum : Expr κ → Bool
  | .identifier value => sameWord value "rownum"
  | _ => false

/-- A number literal without a point. -/
def num (value : ℕ) : Expr κ := .value (.number ⟨value, none⟩)

/-- What a single comparison of `ROWNUM` means as a row limit. -/
inductive RownumEffect (κ : Type)
  | limit (expr : Expr κ)
  | empty
  | allRows

/-- The tighter of two limits, left to the server when one of them is not a constant. -/
def leastExpr (a b : Expr κ) : Expr κ :=
  match constU64 a, constU64 b with
  | some x, some y => if y < x then b else a
  | _, _ => call "LEAST" [a, b]

/-- A comparison operator with its sides exchanged. -/
def flipComparison : BinaryOperator → Option BinaryOperator
  | .lt => some .gt
  | .ltEq => some .gtEq
  | .gt => some .lt
  | .gtEq => some .ltEq
  | .eq => some .eq
  | .notEq => some .notEq
  | _ => none

/-- The bound of a comparison whose `ROWNUM` side is `side`, in `u64`. -/
def rownumBound (side bound : Expr κ) : Option (Expr κ) :=
  match side with
  | .binaryOp inner arith k =>
    if (arith = .plus ∨ arith = .minus) ∧ isRownum inner then
      match constU64 bound, constU64 k with
      | some m, some k => some (num (if arith = .plus then m - k else (m + k) % 2 ^ 64))
      | _, _ => none
    else none
  | side => if isRownum side then some bound else none

/-- The effect of `ROWNUM <op> n` for a constant `n`. -/
def constEffect (op : BinaryOperator) (n : ℕ) : Option (RownumEffect κ) :=
  match op with
  | .ltEq => some (if n < 1 then .empty else .limit (num n))
  | .lt => some (if n ≤ 1 then .empty else .limit (num (n - 1)))
  | .eq => some (if n = 1 then .limit (num 1) else .empty)
  | .notEq => some (if n = 1 then .empty else .allRows)
  | .gtEq => some (if n ≤ 1 then .allRows else .empty)
  | .gt => some (if n < 1 then .allRows else .empty)
  | _ => none

/-- The effect of `ROWNUM <op> bound`. -/
def comparisonEffect (op : BinaryOperator) (bound : Expr κ) : Option (RownumEffect κ) :=
  match constU64 bound, op with
  | none, .ltEq => some (.limit bound)
  | none, .lt => some (.limit (.binaryOp bound .minus (num 1)))
  | none, _ => none
  | some n, op => constEffect op n

/-- Interpret one `ROWNUM <op> n`, `n <op> ROWNUM` or `ROWNUM BETWEEN a AND b`. -/
def rownumEffect : Expr κ → Option (RownumEffect κ)
  | .between subject false low high =>
    if isRownum subject then do
      let lo ← constU64 low
      if lo > 1 then return .empty
      match constU64 high with
      | some h => if h < 1 then return .empty else return .limit high
      | none => return .limit high
    else none
  | .binaryOp left op right => do
    let (op, side, bound) ←
      if !isRownum left && isRownum right then
        (flipComparison op).map fun op => (op, right, left)
      else some (op, left, right)
    comparisonEffect op (← rownumBound side bound)
  | _ => none

/-- The state of the loop over the conjuncts. -/
structure StripState (κ : Type) where
  kept : List (Expr κ) := []
  limit : Option (Expr κ) := none
  forcedEmpty : Bool := false

/-- One turn of the loop: keep a conjunct, or let it tighten the limit. -/
def StripState.step (s : StripState κ) (conjunct : Expr κ) : StripState κ :=
  match rownumEffect conjunct with
  | some (.limit expr) =>
    { s with limit := some ((s.limit.map fun existing => leastExpr existing expr).getD expr) }
  | some .empty => { s with forcedEmpty := true }
  | some .allRows => s
  | none => { s with kept := s.kept ++ [conjunct] }

/-- Split a `WHERE` clause into the predicate that remains and the row limit. -/
def stripRownumPredicate (selection : Expr κ) : Option (Expr κ) × Option (Expr κ) :=
  let s := (flattenAnd selection []).foldl StripState.step {}
  (rebuildAnd s.kept, if s.forcedEmpty then some (num 0) else s.limit)

/-! ### Aliases in `ORDER BY` -/

/-- The aliases of a `SELECT` list with their expressions; the last of one name counts. -/
def selectAliases (projection : List (SelectItem κ)) : List (String × Expr κ) :=
  (projection.filterMap fun
    | .exprWithAlias expr aliasName => some (lower aliasName, expr)
    | _ => none).reverse

mutual

/-- `substitute_select_aliases`: the identifiers the walk comes to that are an alias become its
expression. -/
def substituteSelectAliases (aliases : List (String × Expr κ)) : Expr κ → Expr κ
  | .identifier value => ((aliases.lookup (lower value)).getD (.identifier value))
  | .nested e => .nested (substituteSelectAliases aliases e)
  | .unaryOp op e => .unaryOp op (substituteSelectAliases aliases e)
  | .cast e dataType => .cast (substituteSelectAliases aliases e) dataType
  | .collate e collation => .collate (substituteSelectAliases aliases e) collation
  | .test .isNull e => .test .isNull (substituteSelectAliases aliases e)
  | .test .isNotNull e => .test .isNotNull (substituteSelectAliases aliases e)
  | .test .isTrue e => .test .isTrue (substituteSelectAliases aliases e)
  | .test .isFalse e => .test .isFalse (substituteSelectAliases aliases e)
  | .binaryOp l op r =>
    .binaryOp (substituteSelectAliases aliases l) op (substituteSelectAliases aliases r)
  | .between e negated low high =>
    .between (substituteSelectAliases aliases e) negated (substituteSelectAliases aliases low)
      (substituteSelectAliases aliases high)
  | .case operand conditions elseResult =>
    .case (substituteOption aliases operand) (substituteWhens aliases conditions)
      (substituteOption aliases elseResult)
  | .function name (.list args) filter window withinGroup =>
    .function name (.list (substituteArgs aliases args)) filter window withinGroup
  | e => e

/-- The same for an expression that may be missing. -/
def substituteOption (aliases : List (String × Expr κ)) : Option (Expr κ) → Option (Expr κ)
  | none => none
  | some e => some (substituteSelectAliases aliases e)

/-- The same for the arms of a `CASE`. -/
def substituteWhens (aliases : List (String × Expr κ)) :
    List (Expr κ × Expr κ) → List (Expr κ × Expr κ)
  | [] => []
  | (condition, result) :: whens =>
    (substituteSelectAliases aliases condition, substituteSelectAliases aliases result) ::
      substituteWhens aliases whens

/-- And for the arguments of a call, the named ones among them. -/
def substituteArgs (aliases : List (String × Expr κ)) :
    List (FunctionArg (Expr κ)) → List (FunctionArg (Expr κ))
  | [] => []
  | .unnamed e :: args =>
    .unnamed (substituteSelectAliases aliases e) :: substituteArgs aliases args
  | .named name e :: args =>
    .named name (substituteSelectAliases aliases e) :: substituteArgs aliases args
  | .wildcard :: args => .wildcard :: substituteArgs aliases args

end

/-- The terms of `ORDER BY` before they are rewritten: aliases are replaced in terms that are more
than an identifier. -/
def orderTerms (node : QueryNode κ) : List (Expr κ) :=
  match node.body with
  | .select select => node.orderBy.map fun
    | .identifier value => .identifier value
    | e => substituteSelectAliases (selectAliases select.projection) e
  | _ => node.orderBy

/-! ### The traversal -/

section Traversal

variable (translate : κ → Except Error κ)

/-- The items of a `SELECT` list. -/
def rewriteItems : List (SelectItem κ) → Except Error (List (SelectItem κ))
  | [] => .ok []
  | .unnamedExpr e :: items => do
    return .unnamedExpr (← rewriteExpr translate e) :: (← rewriteItems items)
  | .exprWithAlias e aliasName :: items => do
    return .exprWithAlias (← rewriteExpr translate e) aliasName :: (← rewriteItems items)
  | .other exprs :: items => do return .other exprs :: (← rewriteItems items)

/-- `rewrite_table_factor`: a query in a `FROM` clause is translated, and named when it has no
alias; `seq` counts the names given. -/
def rewriteTableFactor (seq : ℕ) : TableFactor κ → Except Error (TableFactor κ × ℕ)
  | .derived query aliasName => do
    let query' ← translate query
    match aliasName with
    | some name => return (.derived query' (some name), seq)
    | none => return (.derived query' (some ("__dbsaci_sub" ++ toString seq)), seq + 1)
  | t => .ok (t, seq)

/-- Whether an operator takes a constraint. -/
def hasConstraint : JoinOperator → Bool
  | .crossApply | .outerApply | .arrayJoin | .leftArrayJoin | .innerArrayJoin => false
  | _ => true

/-- `rewrite_join_operator`: the condition of a join. -/
def rewriteConstraint (operator : JoinOperator) :
    JoinConstraint κ → Except Error (JoinConstraint κ)
  | .on e => if hasConstraint operator then do return .on (← rewriteExpr translate e)
    else .ok (.on e)
  | constraint => .ok constraint

/-- The joins of an entry of the `FROM` clause. -/
def rewriteJoins (seq : ℕ) : List (Join κ) → Except Error (List (Join κ) × ℕ)
  | [] => .ok ([], seq)
  | j :: js => do
    let (relation, seq) ← rewriteTableFactor translate seq j.relation
    let constraint ← rewriteConstraint translate j.operator j.constraint
    let (js', seq) ← rewriteJoins seq js
    return (⟨relation, j.operator, constraint, j.matchCondition⟩ :: js', seq)

/-- The entries of the `FROM` clause. -/
def rewriteTables (seq : ℕ) : List (TableWithJoins κ) → Except Error (List (TableWithJoins κ))
  | [] => .ok []
  | t :: ts => do
    let (relation, seq) ← rewriteTableFactor translate seq t.relation
    let (joins, seq) ← rewriteJoins translate seq t.joins
    return ⟨relation, joins⟩ :: (← rewriteTables seq ts)

/-- A `SELECT`, with the row limit that was lifted out of its `WHERE` clause. -/
def translateSelect (select : Select κ) : Except Error (Select κ × Option (Expr κ)) := do
  let select := dropDual (translateLegacyOuterJoin select)
  let projection ← rewriteItems translate select.projection
  let groupBy ← rewriteExprs translate select.groupBy
  let having ← rewriteOption translate select.having
  let fromClause ← rewriteTables translate 0 select.fromClause
  match select.selection with
  | none => return (⟨projection, fromClause, none, groupBy, having, select.rest⟩, none)
  | some selection =>
    let (remaining, rowLimit) := stripRownumPredicate selection
    let remaining ← rewriteOption translate remaining
    return (⟨projection, fromClause, remaining, groupBy, having, select.rest⟩, rowLimit)

/-- The rows of a `VALUES`. -/
def rewriteRows : List (List (Expr κ)) → Except Error (List (List (Expr κ)))
  | [] => .ok []
  | row :: rows => do return (← rewriteExprs translate row) :: (← rewriteRows rows)

/-- What a set operation with a `ROWNUM` bound is answered with. -/
def setOperationError : Error :=
  .sqlParse "ROWNUM in a set operation requires an explicit nested query"

/-- `translate_set_expr`. -/
def translateSetExpr : SetExpr κ → Except Error (SetExpr κ × Option (Expr κ))
  | .select select => do
    let (select, rowLimit) ← translateSelect translate select
    return (.select select, rowLimit)
  | .query query => do return (.query (← translate query), none)
  | .values rows => do return (.values (← rewriteRows translate rows), none)
  | .setOperation left op right => do
    let (left, boundLeft) ← translateSetExpr left
    if boundLeft.isSome then .error setOperationError else
      let (right, boundRight) ← translateSetExpr right
      if boundRight.isSome then .error setOperationError else
        return (.setOperation left op right, none)
  | .other exprs queries => .ok (.other exprs queries, none)

end Traversal

/-- The plain limit of a query. -/
def queryLimit (node : QueryNode κ) : Option (Expr κ) :=
  match node.limitClause with
  | some (.limitOffset limit _ _) => limit
  | _ => none

/-- The limit clause that `set_query_limit` puts in the place of the one there was. -/
def limitOnly (limit : Expr κ) : LimitClause κ := .limitOffset (some limit) none []

/-- The list of a body, taken out and put back as a wildcard. -/
def takeProjection : SetExpr κ → List (SelectItem κ) × SetExpr κ
  | .select select => (select.projection, .select { select with projection := [.other []] })
  | body => ([.other []], body)

/-- `SELECT <projection> FROM (<inner>) AS __rownum_sub ORDER BY <terms>`. -/
def wrapQueryWithOrderBy (inner : QueryNode Query) (orderBy : List (Expr Query))
    (projection : List (SelectItem Query)) : QueryNode Query where
  body := .select {
    projection := projection
    fromClause := [⟨.derived (.mk inner) (some "__rownum_sub"), []⟩] }
  orderBy := orderBy

/-- `translate_query` on one query, given the translation of those nested in it.  Whether a `WITH`
clause becomes recursive is left out: it is a keyword. -/
def translateNode (translate : Query → Except Error Query) (node : QueryNode Query) :
    Except Error (QueryNode Query) := do
  let terms := orderTerms node
  let (body, rowLimit) ← translateSetExpr translate node.body
  let orderBy ← rewriteExprs translate terms
  match rowLimit with
  | none => return { node with body := body, orderBy := orderBy }
  | some limit =>
    if (queryLimit node).isSome then
      .error (.sqlParse "ROWNUM together with an explicit LIMIT needs a nested query")
    else if orderBy.isEmpty then
      return { node with body := body, orderBy := orderBy, limitClause := some (limitOnly limit) }
    else
      let (projection, body) := takeProjection body
      return wrapQueryWithOrderBy
        { node with body := body, orderBy := [], limitClause := some (limitOnly limit) }
        orderBy projection

/-- `translate_query`, for queries nested less than `depth` deep. -/
def translateQuery : ℕ → Query → Except Error Query
  | 0, _ => .error .depth
  | depth + 1, .mk node => do return .mk (← translateNode (translateQuery depth) node)

/-- An optional query. -/
def translateOption (translate : Query → Except Error Query) :
    Option Query → Except Error (Option Query)
  | none => .ok none
  | some q => do return some (← translate q)

/-- The dispatch of `oracle_to_postgres` over the kinds of statements. -/
def translateStatement (depth : ℕ) : Statement Query → Except Error (Statement Query)
  | .query query => do return .query (← translateQuery depth query)
  | .insert source exprs queries => do
    return .insert (← translateOption (translateQuery depth) source) exprs queries
  | .update table assignments selection fromTables rest => do
    let assignments ← rewriteExprs (translateQuery depth) assignments
    let selection ← rewriteOption (translateQuery depth) selection
    return .update table assignments selection fromTables rest
  | .createView query => do return .createView (← translateQuery depth query)
  | .createTable query rest => do
    return .createTable (← translateOption (translateQuery depth) query) rest
  | statement => .ok statement

/-- `oracle_to_postgres` from the parsed text on: text the parser rejects is handed on as it is
(`none`), and there must be one statement. -/
def oracleToPostgres (depth : ℕ) :
    Option (List (Statement Query)) → Except Error (Option (Statement Query))
  | none => .ok none
  | some [statement] => do return some (← translateStatement depth statement)
  | some _ => .error (.sqlParse "exactly one SQL statement is required per execute call")

end DbSaci.Translate.Syntax
