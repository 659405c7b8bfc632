import DbSaci.Sql.Expr

set_option relaxedAutoImplicit false
set_option autoImplicit false

/-!
# The syntax tree of a statement

The tree the parser hands to the translation, with every place an expression can stand in.  A
constructor of the parser that no traversal of the translation names is an `other` node, which
keeps all the expressions and queries below it.  Expressions are generic in the type of the
queries nested in them, and `Query` ties the knot.

## Main definitions

* `Expr`, `Select`, `SetExpr`, `QueryNode`, `Query`, `Statement` — the tree.
* `Expr.children`, `Expr.queries` — what stands directly below an expression.

## Main results

* `Expr.childInduction` — induction over the expressions below an expression.
-/

namespace DbSaci.Sql.Syntax

/-- A possibly qualified name, its last part last. -/
abbrev ObjectName := List String

/-- Equality of words without regard to the case of ASCII letters. -/
def sameWord (a b : String) : Bool := a.toList.map Char.toLower = b.toList.map Char.toLower

/-- Whether the last part of a name is the given word. -/
def ObjectName.lastIs (name : ObjectName) (word : String) : Bool :=
  name.getLast?.any (sameWord word)

/-- The types the translation tells apart. -/
inductive DataType
  | date | datetime | timestamp
  | numeric | decimal | int | integer | bigInt | double | float
  | text
  | other (name : String)
  deriving DecidableEq, Repr

/-- Literals.  `writtenEmpty` is the literal `''` that the translation itself writes where Oracle
takes `NULL` for the empty text; it is printed as any other empty text. -/
inductive Value
  | null
  | number (n : NumberLit)
  | singleQuotedString (s : String)
  | doubleQuotedString (s : String)
  | writtenEmpty
  | placeholder (name : String)
  | other (text : String)
  deriving DecidableEq, Repr

/-- Binary operators. -/
inductive BinaryOperator
  | plus | minus | multiply | divide | modulo | stringConcat
  | eq | notEq | lt | ltEq | gt | gtEq
  | and | or
  | other (symbol : String)
  deriving DecidableEq, Repr

/-- The tests written behind an operand. -/
inductive Test
  | isNull | isNotNull | isTrue | isNotTrue | isFalse | isNotFalse
  deriving DecidableEq, Repr

/-- The constructors of expressions that no traversal of the translation names. -/
inductive Form
  | compoundFieldAccess | jsonAccess | isUnknown | isNotUnknown | isDistinctFrom
  | isNotDistinctFrom | isNormalized | inUnnest | like | iLike | similarTo | rLike | anyOp | allOp
  | convert | atTimeZone | extract | ceil | floor | position | substring | trim | overlay
  | prefixed | groupingSets | cube | rollup | tuple | struct | named | dictionary | map | array
  | interval | matchAgainst | wildcard | prior | lambda | memberOf
  deriving DecidableEq, Repr

/-- One argument of a function call. -/
inductive FunctionArg (ε : Type)
  | unnamed (expr : ε)
  | named (name : String) (expr : ε)
  | wildcard

/-- The arguments of a function call: none and no parentheses, a query, or a list. -/
inductive FunctionArguments (κ ε : Type)
  | none
  | subquery (query : κ)
  | list (args : List (FunctionArg ε))

/-- Expressions, the queries in them being of type `κ`. -/
inductive Expr (κ : Type)
  | identifier (value : String)
  | compoundIdentifier (parts : List String)
  | value (v : Value)
  | typedString (dataType : DataType) (text : String)
  | binaryOp (left : Expr κ) (op : BinaryOperator) (right : Expr κ)
  | unaryOp (op : UnaryOperator) (expr : Expr κ)
  | nested (expr : Expr κ)
  | test (test : Test) (expr : Expr κ)
  | cast (expr : Expr κ) (dataType : DataType)
  | collate (expr : Expr κ) (collation : ObjectName)
  | outerJoin (expr : Expr κ)
  | between (expr : Expr κ) (negated : Bool) (low high : Expr κ)
  | inList (expr : Expr κ) (list : List (Expr κ)) (negated : Bool)
  | inSubquery (expr : Expr κ) (query : κ) (negated : Bool)
  | existsQuery (query : κ) (negated : Bool)
  | subquery (query : κ)
  | case (operand : Option (Expr κ)) (conditions : List (Expr κ × Expr κ))
      (elseResult : Option (Expr κ))
  | function (name : ObjectName) (args : FunctionArguments κ (Expr κ)) (filter : Option (Expr κ))
      (window : Option (List (Expr κ))) (withinGroup : List (Expr κ))
  | other (form : Form) (exprs : List (Expr κ)) (queries : List κ)

/-! ### What stands below an expression -/

/-- The expression of an argument. -/
def FunctionArg.expr? {ε : Type} : FunctionArg ε → Option ε
  | unnamed e => some e
  | named _ e => some e
  | wildcard => none

/-- The expressions among the arguments of a call. -/
def FunctionArguments.exprs {κ ε : Type} : FunctionArguments κ ε → List ε
  | list args => args.filterMap FunctionArg.expr?
  | _ => []

/-- The queries among the arguments of a call. -/
def FunctionArguments.queries {κ ε : Type} : FunctionArguments κ ε → List κ
  | subquery q => [q]
  | _ => []

namespace Expr

variable {κ : Type}

/-- The expressions directly below an expression. -/
def children : Expr κ → List (Expr κ)
  | binaryOp l _ r => [l, r]
  | unaryOp _ e | nested e | test _ e | cast e _ | collate e _ | outerJoin e => [e]
  | between e _ low high => [e, low, high]
  | inList e list _ => e :: list
  | inSubquery e _ _ => [e]
  | case operand conditions elseResult =>
    operand.toList ++ conditions.flatMap (fun w => [w.1, w.2]) ++ elseResult.toList
  | function _ args filter window withinGroup =>
    args.exprs ++ filter.toList ++ window.getD [] ++ withinGroup
  | other _ exprs _ => exprs
  | _ => []

/-- The queries directly below an expression. -/
def queries : Expr κ → List κ
  | inSubquery _ q _ | existsQuery q _ | subquery q => [q]
  | function _ args _ _ _ => args.queries
  | other _ _ queries => queries
  | _ => []

/-- An argument is smaller than the list it stands in. -/
lemma sizeOf_lt_of_mem_exprs {args : FunctionArguments κ (Expr κ)} {c : Expr κ}
    (h : c ∈ args.exprs) : sizeOf c < sizeOf args := by
  cases args with
  | none => cases h
  | subquery q => cases h
  | list args =>
    obtain ⟨a, ha, hc⟩ := List.mem_filterMap.mp h
    have hsize := List.sizeOf_lt_of_mem ha
    cases a with
    | unnamed e =>
      cases hc
      simp only [FunctionArguments.list.sizeOf_spec, FunctionArg.unnamed.sizeOf_spec] at hsize ⊢
      omega
    | named name e =>
      cases hc
      simp only [FunctionArguments.list.sizeOf_spec, FunctionArg.named.sizeOf_spec] at hsize ⊢
      omega
    | wildcard => cases hc

/-- An optional expression is smaller than the option. -/
lemma sizeOf_lt_of_mem_toList {o : Option (Expr κ)} {c : Expr κ} (h : c ∈ o.toList) :
    sizeOf c < sizeOf o := by
  cases o with
  | none => cases h
  | some e =>
    obtain rfl := List.mem_singleton.mp h
    simp only [Option.some.sizeOf_spec]
    omega

/-- What stands below an expression is smaller. -/
lemma sizeOf_lt_of_mem_children {e c : Expr κ} (h : c ∈ e.children) : sizeOf c < sizeOf e := by
  cases e with
  | binaryOp l op r =>
    simp only [children, List.mem_cons, List.not_mem_nil, or_false] at h
    rcases h with rfl | rfl <;> simp only [binaryOp.sizeOf_spec] <;> omega
  | between e negated low high =>
    simp only [children, List.mem_cons, List.not_mem_nil, or_false] at h
    rcases h with rfl | rfl | rfl <;> simp only [between.sizeOf_spec] <;> omega
  | inList e list negated =>
    rcases List.mem_cons.mp h with rfl | h
    · simp only [inList.sizeOf_spec]
      omega
    · have hsize := List.sizeOf_lt_of_mem h
      simp only [inList.sizeOf_spec]
      omega
  | case operand conditions elseResult =>
    simp only [children, List.mem_append, List.mem_flatMap] at h
    rcases h with (h | ⟨w, hw, h⟩) | h
    · have hsize := sizeOf_lt_of_mem_toList h
      simp only [case.sizeOf_spec]
      omega
    · have hsize := List.sizeOf_lt_of_mem hw
      obtain ⟨a, b⟩ := w
      simp only [List.mem_cons, List.not_mem_nil, or_false] at h
      simp only [Prod.mk.sizeOf_spec] at hsize
      rcases h with rfl | rfl <;> simp only [case.sizeOf_spec] <;> omega
    · have hsize := sizeOf_lt_of_mem_toList h
      simp only [case.sizeOf_spec]
      omega
  | function name args filter window withinGroup =>
    simp only [children, List.mem_append] at h
    rcases h with ((h | h) | h) | h
    · have hsize := sizeOf_lt_of_mem_exprs h
      simp only [function.sizeOf_spec]
      omega
    · have hsize := sizeOf_lt_of_mem_toList h
      simp only [function.sizeOf_spec]
      omega
    · cases window with
      | none => cases h
      | some window =>
        have hsize := List.sizeOf_lt_of_mem (show c ∈ window from h)
        simp only [function.sizeOf_spec, Option.some.sizeOf_spec]
        omega
    · have hsize := List.sizeOf_lt_of_mem h
      simp only [function.sizeOf_spec]
      omega
  | other form exprs queries =>
    have hsize := List.sizeOf_lt_of_mem (show c ∈ exprs from h)
    simp only [other.sizeOf_spec]
    omega
  | identifier value => cases h
  | compoundIdentifier parts => cases h
  | value v => cases h
  | typedString dataType text => cases h
  | existsQuery query negated => cases h
  | subquery query => cases h
  | _ =>
    obtain rfl := List.mem_singleton.mp h
    simp only [unaryOp.sizeOf_spec, nested.sizeOf_spec, test.sizeOf_spec, cast.sizeOf_spec,
      collate.sizeOf_spec, outerJoin.sizeOf_spec, inSubquery.sizeOf_spec]
    omega

/-- **Induction over what stands below**: a property that passes from the expressions directly
below to the expression holds of all. -/
theorem childInduction {P : Expr κ → Prop} (step : ∀ e, (∀ c ∈ e.children, P c) → P e)
    (e : Expr κ) : P e := by
  apply step
  intro c hc
  have hlt := sizeOf_lt_of_mem_children hc
  exact childInduction step c
termination_by sizeOf e

end Expr

/-! ### Queries and statements -/

variable (κ : Type)

/-- One item of a `SELECT` list; `other` is a wildcard with the expressions of its options. -/
inductive SelectItem
  | unnamedExpr (expr : Expr κ)
  | exprWithAlias (expr : Expr κ) (aliasName : String)
  | other (exprs : List (Expr κ))

/-- What a `FROM` clause names: a table with the arguments it may be called with, a query in
parentheses, or any other form with everything below it. -/
inductive TableFactor
  | table (name : ObjectName) (aliasName : Option String) (args : List (Expr κ))
  | derived (query : κ) (aliasName : Option String)
  | tableFunction (expr : Expr κ) (aliasName : Option String)
  | other (exprs : List (Expr κ)) (queries : List κ)

/-- How a join keeps its partners. -/
inductive JoinOperator
  | join | inner | left | leftOuter | right | rightOuter | fullOuter | crossJoin
  | semi | leftSemi | rightSemi | anti | leftAnti | rightAnti | straightJoin | asOf
  | crossApply | outerApply | arrayJoin | leftArrayJoin | innerArrayJoin
  deriving DecidableEq, Repr

/-- What partners a join takes. -/
inductive JoinConstraint
  | on (expr : Expr κ)
  | using (columns : List ObjectName)
  | natural
  | none

/-- A join: its right side, its kind, its constraint, and the match condition of an `ASOF`
join. -/
structure Join where
  relation : TableFactor κ
  operator : JoinOperator
  constraint : JoinConstraint κ
  matchCondition : Option (Expr κ) := none

/-- One entry of a `FROM` clause. -/
structure TableWithJoins where
  relation : TableFactor κ
  joins : List (Join κ) := []

/-- The clauses of a `SELECT` that the translation never looks at. -/
inductive SelectClause
  | distinctOn | top | lateralView | prewhere | clusterBy | distributeBy | sortBy | namedWindow
  | qualify | connectBy | groupByModifier
  deriving DecidableEq, Repr

/-- A `SELECT`. -/
structure Select where
  projection : List (SelectItem κ)
  fromClause : List (TableWithJoins κ) := []
  selection : Option (Expr κ) := none
  groupBy : List (Expr κ) := []
  having : Option (Expr κ) := none
  rest : List (SelectClause × Expr κ) := []

/-- The set operators of the parser. -/
inductive SetOperator
  | union | except | intersect | minus
  deriving DecidableEq, Repr

/-- The body of a query. -/
inductive SetExpr
  | select (select : Select κ)
  | query (query : κ)
  | values (rows : List (List (Expr κ)))
  | setOperation (left : SetExpr) (op : SetOperator) (right : SetExpr)
  | other (exprs : List (Expr κ)) (queries : List κ)

/-- The `LIMIT` clause. -/
inductive LimitClause
  | limitOffset (limit offset : Option (Expr κ)) (limitBy : List (Expr κ))
  | offsetCommaLimit (offset limit : Expr κ)

/-- A query over nested queries: the queries of its `WITH` clause, its body, its ordering, its
limit, and the expressions of its other clauses (`FETCH` and the like). -/
structure QueryNode where
  ctes : List κ := []
  body : SetExpr κ
  orderBy : List (Expr κ) := []
  limitClause : Option (LimitClause κ) := none
  rest : List (Expr κ) := []

/-- A query. -/
inductive Query
  | mk (node : QueryNode Query)

/-- A statement.  An `INSERT` has a source and the expressions and queries of its other clauses;
an `UPDATE` its target, the assigned values and a condition; a `DELETE` and a `MERGE` are kept
with everything below them. -/
inductive Statement
  | query (query : κ)
  | insert (source : Option κ) (exprs : List (Expr κ)) (queries : List κ)
  | update (table : TableWithJoins κ) (assignments : List (Expr κ)) (selection : Option (Expr κ))
      (fromTables : List (TableWithJoins κ)) (rest : List (Expr κ))
  | delete (fromTables : List (TableWithJoins κ)) (selection : Option (Expr κ))
      (rest : List (Expr κ))
  | merge (table source : TableFactor κ) (on : Expr κ) (clauses : List (Expr κ))
  | createView (query : κ)
  | createTable (query : Option κ) (rest : List (Expr κ))
  | other (exprs : List (Expr κ)) (queries : List κ)

end DbSaci.Sql.Syntax
