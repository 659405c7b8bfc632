import DbSaci.Sql.Syntax

set_option relaxedAutoImplicit false
set_option autoImplicit false

/-!
# Rewriting expressions for PostgreSQL

`rewrite_expr` turns Oracle's `DECODE`, `NVL2`, `LNNVL`, `ROWNUM` and empty texts into what
PostgreSQL understands, and adjusts date arithmetic, division, concatenation and a few calls on
the way.  It descends into the constructors of expressions that it names; an expression of any
other constructor is left as it is, with all that stands below it.

## Main definitions

* `finishBinaryOp`, `finishFunction` — what happens to a node whose operands are rewritten.
* `rewriteExpr` — the traversal, given how nested queries are translated.

## Main results

* `rewriteExprs_forall₂`, `rewriteArgs_forall₂` — lists are rewritten member by member.
-/

namespace DbSaci.Translate.Syntax

open DbSaci.Sql (NumberLit UnaryOperator)
open DbSaci.Sql.Syntax

/-- Why a statement is not translated; `depth` is the bound on nested queries that the model puts
on the recursion. -/
inductive Error
  | sqlParse (message : String)
  | depth
  deriving DecidableEq, Repr

variable {κ : Type}

/-! ### Small pieces -/

/-- The literal of an expression. -/
def asValue : Expr κ → Option Value
  | .value v => some v
  | _ => none

/-- The empty text, which Oracle takes for `NULL`. -/
def isEmptyText : Value → Bool
  | .singleQuotedString s => s.toList.isEmpty
  | .doubleQuotedString s => s.toList.isEmpty
  | _ => false

/-- A call with ordinary arguments and nothing else. -/
def call (name : String) (args : List (Expr κ)) : Expr κ :=
  .function [name] (.list (args.map .unnamed)) none none []

/-- `COALESCE(CAST(e AS text), '')`, unless `e` is a text literal. -/
def wrapCoalesceEmpty (e : Expr κ) : Expr κ :=
  match asValue e with
  | some (.singleQuotedString _) => e
  | some .writtenEmpty => e
  | _ => call "COALESCE" [.cast e .text, .value .writtenEmpty]

/-- `(e) * INTERVAL '1 day'`. -/
def mulByOneDay (e : Expr κ) : Expr κ :=
  .binaryOp (.nested e) .multiply (.other .interval [.value (.singleQuotedString "1 day")] [])

/-- A bare `DATE '...'` literal. -/
def isPlainDate : Expr κ → Bool
  | .typedString dataType _ => dataType = .date
  | .nested inner => isPlainDate inner
  | _ => false

/-- A plainly numeric operand. -/
def isNumberish : Expr κ → Bool
  | .value (.number _) => true
  | .value (.placeholder _) => true
  | .unaryOp _ e => isNumberish e
  | .nested e => isNumberish e
  | .binaryOp left op right =>
    (op = .plus || op = .minus || op = .multiply || op = .divide || op = .modulo) &&
      isNumberish left && isNumberish right
  | .cast _ dataType =>
    dataType = .numeric || dataType = .decimal || dataType = .int || dataType = .integer ||
      dataType = .bigInt || dataType = .double || dataType = .float
  | _ => false

/-- The types of Oracle's dates and timestamps. -/
def isDateType (dataType : DataType) : Bool :=
  dataType = .date || dataType = .datetime || dataType = .timestamp

/-- The functions whose result is a date. -/
def dateFns : List String :=
  ["CURRENT_TIMESTAMP", "CURRENT_DATE", "LOCALTIMESTAMP", "LOCALTIME", "NOW", "SYSDATE",
    "SYSTIMESTAMP", "TO_DATE", "TO_TIMESTAMP", "ADD_MONTHS", "LAST_DAY", "NEXT_DAY"]

/-- Whether an expression is a date or a timestamp in Oracle. -/
def isDateExpr : Expr κ → Bool
  | .cast _ dataType => isDateType dataType
  | .typedString dataType _ => isDateType dataType
  | .nested inner => isDateExpr inner
  | .binaryOp left .plus right => isDateExpr left || isDateExpr right
  | .binaryOp left .minus right => isDateExpr left || isDateExpr right
  | .function name (.list (.unnamed first :: _)) _ _ _ =>
    dateFns.any name.lastIs ||
      ((name.lastIs "TRUNC" || name.lastIs "ROUND") && isDateExpr first)
  | .function name _ _ _ _ => dateFns.any name.lastIs
  | .identifier value => sameWord value "SYSDATE" || sameWord value "SYSTIMESTAMP"
  | _ => false

/-- A cast to a fractional type. -/
def containsCastToNumeric : Expr κ → Bool
  | .cast _ dataType =>
    dataType = .numeric || dataType = .decimal || dataType = .double || dataType = .float
  | _ => false

/-- The constant of a bound; every negated expression counts as `0`. -/
def constU64 : Expr κ → Option ℕ
  | .value (.number n) => n.parseU64
  | .unaryOp .minus _ => some 0
  | _ => none

/-! ### Nodes whose operands are rewritten -/

/-- A binary operation on rewritten operands: date arithmetic in days, `||` on texts that may be
`NULL`, division of real numbers. -/
def finishBinaryOp (left : Expr κ) (op : BinaryOperator) (right : Expr κ) : Expr κ :=
  match op with
  | .plus | .minus =>
    if op = .minus ∧ isDateExpr left ∧ isDateExpr right ∧
        ¬(isPlainDate left ∧ isPlainDate right) then
      .binaryOp (.other .extract [.nested (.binaryOp left op right)] []) .divide
        (.value (.number ⟨86400, none⟩))
    else if isDateExpr left ∧ isNumberish right then .binaryOp left op (mulByOneDay right)
    else if isDateExpr right ∧ isNumberish left then .binaryOp (mulByOneDay left) op right
    else .binaryOp left op right
  | .stringConcat => .binaryOp (wrapCoalesceEmpty left) op (wrapCoalesceEmpty right)
  | .divide =>
    if containsCastToNumeric left then .binaryOp left op right
    else .binaryOp (.cast left .numeric) op right
  | _ => .binaryOp left op right

/-- The arguments of a call, which must be ordinary ones. -/
def functionArgs : FunctionArguments κ (Expr κ) → Except Error (List (Expr κ))
  | .list args => args.mapM fun
    | .unnamed e => .ok e
    | _ => .error (.sqlParse "named or wildcard Oracle function arguments are unsupported")
  | _ => .error (.sqlParse "Oracle function requires ordinary arguments")

/-- The search values of a `DECODE` with their results, and its default. -/
def decodePairs : List (Expr κ) → List (Expr κ × Expr κ) × Option (Expr κ)
  | cond :: result :: rest =>
    let (pairs, default) := decodePairs rest
    ((cond, result) :: pairs, default)
  | [default] => ([], some default)
  | [] => ([], none)

/-- `DECODE` as a `CASE` that compares texts. -/
def rewriteDecode : List (Expr κ) → Except Error (Expr κ)
  | input :: a :: b :: rest =>
    let (pairs, default) := decodePairs (a :: b :: rest)
    .ok (.case none (pairs.map fun p =>
      (.other .isNotDistinctFrom [.cast input .text, .cast p.1 .text] [], p.2)) default)
  | _ => .error (.sqlParse "DECODE requires at least three arguments")

/-- `NVL2(a, b, c)` as a `CASE`. -/
def rewriteNvl2 : List (Expr κ) → Except Error (Expr κ)
  | [a, b, c] => .ok (.case none [(.test .isNotNull a, b)] (some c))
  | _ => .error (.sqlParse "NVL2 requires exactly three arguments")

/-- `LNNVL(a)` as `a IS NOT TRUE`. -/
def rewriteLnnvl : List (Expr κ) → Except Error (Expr κ)
  | [a] => .ok (.test .isNotTrue a)
  | _ => .error (.sqlParse "LNNVL requires exactly one argument")

/-- The third argument of `REPLACE`: `NULL` is what Oracle takes for the empty text. -/
def emptyThird : List (FunctionArg (Expr κ)) → List (FunctionArg (Expr κ))
  | a :: b :: .unnamed third :: rest =>
    a :: b :: .unnamed (if asValue third = some .null then .value .writtenEmpty else third) :: rest
  | args => args

/-- `REGEXP_REPLACE` with three arguments gets the flag that replaces every match. -/
def globalFlag (name : ObjectName) (args : List (FunctionArg (Expr κ))) :
    List (FunctionArg (Expr κ)) :=
  if name.lastIs "REGEXP_REPLACE" ∧ args.length = 3 then
    args ++ [.unnamed (.value (.singleQuotedString "g"))]
  else args

/-- The calls that are rewritten, by the last part of their name. -/
inductive CallKind
  | decode | nvl2 | lnnvl | toDate | replace | ratioToReport | regexpSubstr | plain
  deriving DecidableEq, Repr

/-- Which of them a name belongs to. -/
def callKind (name : ObjectName) : CallKind :=
  if name.lastIs "DECODE" then .decode
  else if name.lastIs "NVL2" then .nvl2
  else if name.lastIs "LNNVL" then .lnnvl
  else if name.lastIs "TO_DATE" then .toDate
  else if name.lastIs "REGEXP_REPLACE" || name.lastIs "REPLACE" then .replace
  else if name.lastIs "RATIO_TO_REPORT" then .ratioToReport
  else if name.lastIs "REGEXP_SUBSTR" then .regexpSubstr
  else .plain

/-- A call on rewritten arguments. -/
def finishFunction (name : ObjectName) (args : FunctionArguments κ (Expr κ))
    (filter : Option (Expr κ)) (window : Option (List (Expr κ))) (withinGroup : List (Expr κ)) :
    Except Error (Expr κ) :=
  let same : Expr κ := .function name args filter window withinGroup
  match callKind name with
  | .decode => do
    let list ← functionArgs args
    if list.length ≥ 3 then rewriteDecode list else return same
  | .nvl2 => do rewriteNvl2 (← functionArgs args)
  | .lnnvl => do rewriteLnnvl (← functionArgs args)
  | .toDate => do
    match ← functionArgs args with
    | [a, b] => return .cast (call "to_timestamp" [a, b]) .timestamp
    | _ => return same
  | .replace =>
    match args with
    | .list list =>
      .ok (.function name (.list (globalFlag name (emptyThird list))) filter window withinGroup)
    | _ => .ok same
  | .ratioToReport => do
    match ← functionArgs args, window with
    | [a], some window =>
      return .binaryOp (.cast (.nested a) .numeric) .divide
        (call "NULLIF" [.function ["SUM"] (.list [.unnamed a]) none (some window) [],
          .value (.number ⟨0, none⟩)])
    | _, _ => return same
  | .regexpSubstr => do
    match ← functionArgs args with
    | [text, pattern, start, occurrence, _, group] =>
      if constU64 start = some 1 ∧ constU64 occurrence = some 1 then
        return .other .compoundFieldAccess
          [.nested (call "regexp_match" [text, pattern]), group] []
      else return same
    | _ => return same
  | .plain => .ok same

/-! ### The traversal -/

/-- `CAST(x AS DATE)` keeps the time of day as a timestamp. -/
def castType : DataType → DataType
  | .date => .timestamp
  | dataType => dataType

/-- `ROW_NUMBER() OVER ()`. -/
def rowNumber : Expr κ := .function ["ROW_NUMBER"] (.list []) none (some []) []

/-- The tests `rewrite_expr` looks below. -/
def testVisited : Test → Bool
  | .isNull | .isNotNull | .isTrue | .isNotTrue => true
  | .isFalse | .isNotFalse => false

section Traversal

variable (translateQuery : κ → Except Error κ)

mutual

/-- `rewrite_expr`, given the translation of nested queries. -/
def rewriteExpr : Expr κ → Except Error (Expr κ)
  | .value v => .ok (.value (if isEmptyText v then .null else v))
  | .identifier value => .ok (if sameWord value "rownum" then rowNumber else .identifier value)
  | .binaryOp left op right => do
    return finishBinaryOp (← rewriteExpr left) op (← rewriteExpr right)
  | .unaryOp op e => do return .unaryOp op (← rewriteExpr e)
  | .nested e => do return .nested (← rewriteExpr e)
  | .test test e => if testVisited test then do return .test test (← rewriteExpr e)
    else .ok (.test test e)
  | .cast e dataType => do return .cast (← rewriteExpr e) (castType dataType)
  | .collate e collation => do return .collate (← rewriteExpr e) collation
  | .between e negated low high => do
    return .between (← rewriteExpr e) negated (← rewriteExpr low) (← rewriteExpr high)
  | .inList e list negated => do return .inList (← rewriteExpr e) (← rewriteExprs list) negated
  | .inSubquery e q negated => do return .inSubquery e (← translateQuery q) negated
  | .existsQuery q negated => do return .existsQuery (← translateQuery q) negated
  | .subquery q => do return .subquery (← translateQuery q)
  | .case operand conditions elseResult => do
    return .case (← rewriteOption operand) (← rewriteWhens conditions) (← rewriteOption elseResult)
  | .function name (.list args) filter window withinGroup => do
    finishFunction name (.list (← rewriteArgs args)) filter window withinGroup
  | .function name args filter window withinGroup =>
    finishFunction name args filter window withinGroup
  | e => .ok e

/-- Expressions one after the other. -/
def rewriteExprs : List (Expr κ) → Except Error (List (Expr κ))
  | [] => .ok []
  | e :: es => do return (← rewriteExpr e) :: (← rewriteExprs es)

/-- An expression that may be missing. -/
def rewriteOption : Option (Expr κ) → Except Error (Option (Expr κ))
  | none => .ok none
  | some e => do return some (← rewriteExpr e)

/-- The arms of a `CASE`. -/
def rewriteWhens : List (Expr κ × Expr κ) → Except Error (List (Expr κ × Expr κ))
  | [] => .ok []
  | (condition, result) :: whens => do
    return (← rewriteExpr condition, ← rewriteExpr result) :: (← rewriteWhens whens)

/-- The arguments of a call: only the ordinary ones are rewritten. -/
def rewriteArgs : List (FunctionArg (Expr κ)) → Except Error (List (FunctionArg (Expr κ)))
  | [] => .ok []
  | .unnamed e :: args => do return .unnamed (← rewriteExpr e) :: (← rewriteArgs args)
  | arg :: args => do return arg :: (← rewriteArgs args)

end

end Traversal

/-! ### Lists -/

/-- What a computation of two steps returns. -/
lemma bind_eq_ok {α β : Type} {x : Except Error α} {f : α → Except Error β} {b : β} :
    x >>= f = .ok b ↔ ∃ a, x = .ok a ∧ f a = .ok b := by
  cases x with
  | error e =>
    constructor
    · intro h
      cases h
    · rintro ⟨a, h, -⟩
      cases h
  | ok a =>
    constructor
    · intro h
      exact ⟨a, rfl, h⟩
    · rintro ⟨a', h, hf⟩
      cases h
      exact hf

section Lists

variable {translateQuery : κ → Except Error κ}

/-- A list is rewritten member by member. -/
lemma rewriteExprs_forall₂ {es es' : List (Expr κ)} (h : rewriteExprs translateQuery es = .ok es') :
    List.Forall₂ (fun e e' => rewriteExpr translateQuery e = .ok e') es es' := by
  induction es generalizing es' with
  | nil =>
    rw [rewriteExprs] at h
    cases h
    exact .nil
  | cons e es ih =>
    rw [rewriteExprs] at h
    obtain ⟨e', he, h⟩ := bind_eq_ok.mp h
    obtain ⟨es'', hes, h⟩ := bind_eq_ok.mp h
    cases h
    exact .cons he (ih hes)

/-- An optional expression is rewritten when it is there. -/
lemma rewriteOption_cases {o o' : Option (Expr κ)} (h : rewriteOption translateQuery o = .ok o') :
    (o = none ∧ o' = none) ∨
      ∃ e e', o = some e ∧ o' = some e' ∧ rewriteExpr translateQuery e = .ok e' := by
  cases o with
  | none =>
    rw [rewriteOption] at h
    cases h
    exact .inl ⟨rfl, rfl⟩
  | some e =>
    rw [rewriteOption] at h
    obtain ⟨e', he, h⟩ := bind_eq_ok.mp h
    cases h
    exact .inr ⟨e, e', rfl, rfl, he⟩

/-- The arms of a `CASE` are rewritten one by one. -/
lemma rewriteWhens_forall₂ {ws ws' : List (Expr κ × Expr κ)}
    (h : rewriteWhens translateQuery ws = .ok ws') :
    List.Forall₂ (fun w w' => rewriteExpr translateQuery w.1 = .ok w'.1 ∧
      rewriteExpr translateQuery w.2 = .ok w'.2) ws ws' := by
  induction ws generalizing ws' with
  | nil =>
    rw [rewriteWhens] at h
    cases h
    exact .nil
  | cons w ws ih =>
    obtain ⟨condition, result⟩ := w
    rw [rewriteWhens] at h
    obtain ⟨c', hc, h⟩ := bind_eq_ok.mp h
    obtain ⟨r', hr, h⟩ := bind_eq_ok.mp h
    obtain ⟨ws'', hws, h⟩ := bind_eq_ok.mp h
    cases h
    exact .cons ⟨hc, hr⟩ (ih hws)

/-- An argument and what became of it: an ordinary one is rewritten, any other stays. -/
inductive ArgRel (R : Expr κ → Expr κ → Prop) :
    FunctionArg (Expr κ) → FunctionArg (Expr κ) → Prop
  | unnamed {e e' : Expr κ} (h : R e e') : ArgRel R (.unnamed e) (.unnamed e')
  | named (name : String) (e : Expr κ) : ArgRel R (.named name e) (.named name e)
  | wildcard : ArgRel R .wildcard .wildcard

/-- The arguments of a call are rewritten one by one. -/
lemma rewriteArgs_forall₂ {args args' : List (FunctionArg (Expr κ))}
    (h : rewriteArgs translateQuery args = .ok args') :
    List.Forall₂ (ArgRel fun e e' => rewriteExpr translateQuery e = .ok e') args args' := by
  induction args generalizing args' with
  | nil =>
    rw [rewriteArgs] at h
    cases h
    exact .nil
  | cons arg args ih =>
    cases arg with
    | unnamed e =>
      rw [rewriteArgs] at h
      obtain ⟨e', he, h⟩ := bind_eq_ok.mp h
      obtain ⟨args'', hargs, h⟩ := bind_eq_ok.mp h
      cases h
      exact .cons (.unnamed he) (ih hargs)
    | named name e =>
      rw [rewriteArgs] at h
      · obtain ⟨args'', hargs, h⟩ := bind_eq_ok.mp h
        cases h
        exact .cons (.named name e) (ih hargs)
      · intro e' h'
        cases h'
    | wildcard =>
      rw [rewriteArgs] at h
      · obtain ⟨args'', hargs, h⟩ := bind_eq_ok.mp h
        cases h
        exact .cons .wildcard (ih hargs)
      · intro e' h'
        cases h'

/-- Ordinary arguments are those that were ordinary before. -/
lemma ArgRel.of_unnamed {R : Expr κ → Expr κ → Prop} {args : List (FunctionArg (Expr κ))}
    {es' : List (Expr κ)} (h : List.Forall₂ (ArgRel R) args (es'.map .unnamed)) :
    ∃ es, args = es.map .unnamed ∧ List.Forall₂ R es es' := by
  induction es' generalizing args with
  | nil =>
    cases h
    exact ⟨[], rfl, .nil⟩
  | cons e' es' ih =>
    obtain ⟨arg, rest, harg, hrest, rfl⟩ := List.forall₂_cons_right_iff.mp h
    obtain ⟨es, rfl, hes⟩ := ih hrest
    cases harg with
    | unnamed he => exact ⟨_ :: es, rfl, .cons he hes⟩

end Lists

/-- Ordinary arguments are what `functionArgs` returns. -/
lemma functionArgs_eq_ok {args : FunctionArguments κ (Expr κ)} {es : List (Expr κ)} :
    functionArgs args = .ok es ↔ args = .list (es.map .unnamed) := by
  cases args with
  | none =>
    constructor <;> intro h <;> cases h
  | subquery q =>
    constructor <;> intro h <;> cases h
  | list args =>
    rw [functionArgs]
    simp only [FunctionArguments.list.injEq]
    induction args generalizing es with
    | nil =>
      rw [List.mapM_nil]
      cases es with
      | nil => exact ⟨fun _ => rfl, fun _ => rfl⟩
      | cons e es => constructor <;> intro h <;> cases h
    | cons arg args ih =>
      rw [List.mapM_cons, bind_eq_ok]
      constructor
      · rintro ⟨e, he, h⟩
        obtain ⟨es', hes, h⟩ := bind_eq_ok.mp h
        cases h
        rw [ih.mp hes]
        cases arg with
        | unnamed e' =>
          cases he
          rfl
        | named name e' => cases he
        | wildcard => cases he
      · intro h
        cases es with
        | nil => cases h
        | cons e es =>
          obtain ⟨rfl, hrest⟩ := List.cons.inj h
          exact ⟨e, rfl, bind_eq_ok.mpr ⟨es, ih.mpr hrest, rfl⟩⟩

end DbSaci.Translate.Syntax
