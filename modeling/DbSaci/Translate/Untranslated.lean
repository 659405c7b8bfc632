import DbSaci.Translate.RewriteExpr

set_option relaxedAutoImplicit false
set_option autoImplicit false

/-!
# What the rewriting of expressions leaves behind

An expression holds something untranslated when a `DECODE` with three or more arguments, an
`NVL2`, an `LNNVL`, a `ROWNUM` or an empty text stands anywhere in it.  After `rewriteExpr` it
does exactly when one of these stood below a place the traversal does not descend into.

## Main definitions

* `isOracleOnly`, `Occurs` — what has to be translated, and where it stands.
* `visited`, `hidden` — the places the traversal descends into, and those it keeps without
  looking.
* `Missed` — something that has to be translated stands below a hidden place.

## Main results

* `rewriteExpr_occurs` — what is left is what was missed.
-/

namespace DbSaci.Translate.Syntax

open DbSaci.Sql (NumberLit UnaryOperator)
open DbSaci.Sql.Syntax

variable {κ : Type}

/-! ### What has to be translated -/

/-- How many arguments a call has. -/
def argCount : FunctionArguments κ (Expr κ) → ℕ
  | .list args => args.length
  | _ => 0

/-- The node is one that PostgreSQL does not understand as Oracle does. -/
def isOracleOnly : Expr κ → Bool
  | .value v => isEmptyText v
  | .identifier value => sameWord value "rownum"
  | .function name args _ _ _ =>
    match callKind name with
    | .decode => argCount args ≥ 3
    | .nvl2 | .lnnvl => true
    | _ => false
  | _ => false

/-- Such a node stands in an expression, or a query in the expression has the property `occ`. -/
inductive Occurs (occ : κ → Prop) : Expr κ → Prop
  | here {e : Expr κ} (h : isOracleOnly e = true) : Occurs occ e
  | child {e c : Expr κ} (hc : c ∈ e.children) (h : Occurs occ c) : Occurs occ e
  | query {e : Expr κ} {q : κ} (hq : q ∈ e.queries) (h : occ q) : Occurs occ e

/-! ### What the traversal sees -/

/-- The ordinary arguments of a call. -/
def ordinaryArgs : FunctionArguments κ (Expr κ) → List (Expr κ)
  | .list args => args.filterMap fun
    | .unnamed e => some e
    | _ => none
  | _ => []

/-- The named arguments of a call. -/
def namedArgs : FunctionArguments κ (Expr κ) → List (Expr κ)
  | .list args => args.filterMap fun
    | .named _ e => some e
    | _ => none
  | _ => []

/-- An argument with an expression is an ordinary or a named one. -/
lemma mem_exprs {args : FunctionArguments κ (Expr κ)} {c : Expr κ} :
    c ∈ args.exprs ↔ c ∈ ordinaryArgs args ∨ c ∈ namedArgs args := by
  cases args with
  | none => simp [FunctionArguments.exprs, ordinaryArgs, namedArgs]
  | subquery q => simp [FunctionArguments.exprs, ordinaryArgs, namedArgs]
  | list args =>
    simp only [FunctionArguments.exprs, ordinaryArgs, namedArgs, List.mem_filterMap]
    constructor
    · rintro ⟨a, ha, hc⟩
      cases a with
      | unnamed e => exact .inl ⟨_, ha, hc⟩
      | named n e => exact .inr ⟨_, ha, hc⟩
      | wildcard => cases hc
    · rintro (⟨a, ha, hc⟩ | ⟨a, ha, hc⟩) <;> cases a <;>
        first | exact ⟨_, ha, hc⟩ | cases hc

/-- The form of `REGEXP_SUBSTR` that selects a group: six ordinary arguments, the third and the
fourth of them `1`. -/
def groupForm (args : FunctionArguments κ (Expr κ)) : Bool :=
  match functionArgs args with
  | .ok [_, _, start, occurrence, _, _] => constU64 start = some 1 ∧ constU64 occurrence = some 1
  | _ => false

/-- The arguments of a call that are rewritten and kept: all ordinary ones, but for the form of
`REGEXP_SUBSTR` that selects a group, which keeps the text, the pattern and the group. -/
def visitedArgs (name : ObjectName) (args : FunctionArguments κ (Expr κ)) : List (Expr κ) :=
  match callKind name with
  | .regexpSubstr =>
    if groupForm args then (ordinaryArgs args).take 2 ++ (ordinaryArgs args).drop 5
    else ordinaryArgs args
  | _ => ordinaryArgs args

/-- The parts of a call that are kept as they are: those behind the arguments and the named
arguments, unless the call becomes another expression; the quotient that a `RATIO_TO_REPORT`
becomes keeps the window. -/
def hiddenParts (name : ObjectName) (args : FunctionArguments κ (Expr κ))
    (filter : Option (Expr κ)) (window : Option (List (Expr κ))) (withinGroup : List (Expr κ)) :
    List (Expr κ) :=
  let rest := namedArgs args ++ filter.toList ++ window.getD [] ++ withinGroup
  match callKind name with
  | .decode => if argCount args ≥ 3 then [] else rest
  | .nvl2 => []
  | .lnnvl => []
  | .toDate => if argCount args = 2 then [] else rest
  | .ratioToReport => if argCount args = 1 then window.getD rest else rest
  | .regexpSubstr => if groupForm args then [] else rest
  | _ => rest

/-- The expressions below a node that `rewriteExpr` descends into. -/
def visited : Expr κ → List (Expr κ)
  | .test test e => if testVisited test then [e] else []
  | .outerJoin _ => []
  | .inSubquery _ _ _ => []
  | .function name args _ _ _ => visitedArgs name args
  | .other _ _ _ => []
  | e => e.children

/-- The expressions below a node that `rewriteExpr` keeps without looking at them: the operands
of `IS [NOT] FALSE` and of a `(+)`, the left side of `IN (SELECT ...)`, the named arguments and
the `FILTER`, `OVER` and `WITHIN GROUP` clauses of a call, and all of every other form. -/
def hidden : Expr κ → List (Expr κ)
  | .test test e => if testVisited test then [] else [e]
  | .outerJoin e => [e]
  | .inSubquery e _ _ => [e]
  | .function name args filter window withinGroup => hiddenParts name args filter window withinGroup
  | .other _ exprs _ => exprs
  | _ => []

/-- The queries below a node that are translated. -/
def visitedQueries : Expr κ → List κ
  | .inSubquery _ q _ => [q]
  | .existsQuery q _ => [q]
  | .subquery q => [q]
  | _ => []

/-- The queries below a node that are kept as they are. -/
def hiddenQueries : Expr κ → List κ
  | .function _ args _ _ _ => args.queries
  | .other _ _ queries => queries
  | _ => []

/-- Something that has to be translated stands below a hidden place of an expression, `missed`
saying the same of the queries that are translated. -/
inductive Missed (occ missed : κ → Prop) : Expr κ → Prop
  | hidden {e c : Expr κ} (hc : c ∈ hidden e) (h : Occurs occ c) : Missed occ missed e
  | hiddenQuery {e : Expr κ} {q : κ} (hq : q ∈ hiddenQueries e) (h : occ q) : Missed occ missed e
  | visited {e c : Expr κ} (hc : c ∈ visited e) (h : Missed occ missed c) : Missed occ missed e
  | query {e : Expr κ} {q : κ} (hq : q ∈ visitedQueries e) (h : missed q) : Missed occ missed e

section Iff

variable {occ missed : κ → Prop}

/-- An occurrence is the node itself or stands below it. -/
lemma occurs_iff {e : Expr κ} : Occurs occ e ↔
    isOracleOnly e = true ∨ (∃ c ∈ e.children, Occurs occ c) ∨ ∃ q ∈ e.queries, occ q := by
  constructor
  · intro h
    cases h with
    | here h => exact .inl h
    | child hc h => exact .inr (.inl ⟨_, hc, h⟩)
    | query hq h => exact .inr (.inr ⟨_, hq, h⟩)
  · rintro (h | ⟨c, hc, h⟩ | ⟨q, hq, h⟩)
    · exact .here h
    · exact .child hc h
    · exact .query hq h

/-- What is missed is hidden here or missed below. -/
lemma missed_iff {e : Expr κ} : Missed occ missed e ↔
    (∃ c ∈ hidden e, Occurs occ c) ∨ (∃ q ∈ hiddenQueries e, occ q) ∨
      (∃ c ∈ visited e, Missed occ missed c) ∨ ∃ q ∈ visitedQueries e, missed q := by
  constructor
  · intro h
    cases h with
    | hidden hc h => exact .inl ⟨_, hc, h⟩
    | hiddenQuery hq h => exact .inr (.inl ⟨_, hq, h⟩)
    | visited hc h => exact .inr (.inr (.inl ⟨_, hc, h⟩))
    | query hq h => exact .inr (.inr (.inr ⟨_, hq, h⟩))
  · rintro (⟨c, hc, h⟩ | ⟨q, hq, h⟩ | ⟨c, hc, h⟩ | ⟨q, hq, h⟩)
    · exact .hidden hc h
    · exact .hiddenQuery hq h
    · exact .visited hc h
    · exact .query hq h

/-! ### Nodes -/

@[simp] lemma occurs_binaryOp {l r : Expr κ} {op : BinaryOperator} :
    Occurs occ (.binaryOp l op r) ↔ Occurs occ l ∨ Occurs occ r := by
  rw [occurs_iff]
  show false = true ∨ (∃ c ∈ [l, r], Occurs occ c) ∨ (∃ q ∈ [], occ q) ↔ _
  simp

@[simp] lemma occurs_nested {e : Expr κ} : Occurs occ (.nested e) ↔ Occurs occ e := by
  rw [occurs_iff]
  show false = true ∨ (∃ c ∈ [e], Occurs occ c) ∨ (∃ q ∈ [], occ q) ↔ _
  simp

@[simp] lemma occurs_cast {e : Expr κ} {dataType : DataType} :
    Occurs occ (.cast e dataType) ↔ Occurs occ e := by
  rw [occurs_iff]
  show false = true ∨ (∃ c ∈ [e], Occurs occ c) ∨ (∃ q ∈ [], occ q) ↔ _
  simp

@[simp] lemma occurs_test {e : Expr κ} {test : Test} :
    Occurs occ (.test test e) ↔ Occurs occ e := by
  rw [occurs_iff]
  show false = true ∨ (∃ c ∈ [e], Occurs occ c) ∨ (∃ q ∈ [], occ q) ↔ _
  simp

@[simp] lemma occurs_value {v : Value} :
    Occurs occ (.value v : Expr κ) ↔ isEmptyText v = true := by
  rw [occurs_iff]
  show isEmptyText v = true ∨ (∃ c ∈ [], Occurs occ c) ∨ (∃ q ∈ [], occ q) ↔ _
  simp

/-- Nothing stands below a literal. -/
@[simp] lemma not_missed_value {v : Value} : ¬Missed occ missed (.value v : Expr κ) := by
  rw [missed_iff]
  show ¬((∃ c ∈ [], Occurs occ c) ∨ (∃ q ∈ [], occ q) ∨ (∃ c ∈ [], Missed occ missed c) ∨
    ∃ q ∈ [], missed q)
  simp

/-- Nor below an identifier. -/
@[simp] lemma not_missed_identifier {s : String} :
    ¬Missed occ missed (.identifier s : Expr κ) := by
  rw [missed_iff]
  show ¬((∃ c ∈ [], Occurs occ c) ∨ (∃ q ∈ [], occ q) ∨ (∃ c ∈ [], Missed occ missed c) ∨
    ∃ q ∈ [], missed q)
  simp

@[simp] lemma occurs_other {form : Form} {exprs : List (Expr κ)} {queries : List κ} :
    Occurs occ (.other form exprs queries) ↔
      (∃ c ∈ exprs, Occurs occ c) ∨ ∃ q ∈ queries, occ q := by
  rw [occurs_iff]
  show false = true ∨ _ ↔ _
  simp only [Bool.false_eq_true, false_or]
  rfl

@[simp] lemma occurs_case {operand : Option (Expr κ)} {conditions : List (Expr κ × Expr κ)}
    {elseResult : Option (Expr κ)} :
    Occurs occ (.case operand conditions elseResult) ↔
      (∃ c ∈ operand, Occurs occ c) ∨ (∃ w ∈ conditions, Occurs occ w.1 ∨ Occurs occ w.2) ∨
        ∃ c ∈ elseResult, Occurs occ c := by
  rw [occurs_iff]
  show false = true ∨ (∃ c ∈ operand.toList ++ conditions.flatMap (fun w => [w.1, w.2]) ++
    elseResult.toList, Occurs occ c) ∨ (∃ q ∈ [], occ q) ↔ _
  simp only [List.mem_append, Option.mem_toList,
    List.mem_flatMap, List.mem_cons, List.not_mem_nil, or_false, false_and, exists_false, false_or,
    Bool.false_eq_true, Option.mem_def]
  constructor
  · rintro ⟨c, (h | ⟨w, hw, rfl | rfl⟩) | h, ho⟩
    · exact .inl ⟨c, h, ho⟩
    · exact .inr (.inl ⟨w, hw, .inl ho⟩)
    · exact .inr (.inl ⟨w, hw, .inr ho⟩)
    · exact .inr (.inr ⟨c, h, ho⟩)
  · rintro (⟨c, h, ho⟩ | ⟨w, hw, ho | ho⟩ | ⟨c, h, ho⟩)
    · exact ⟨c, .inl (.inl h), ho⟩
    · exact ⟨w.1, .inl (.inr ⟨w, hw, .inl rfl⟩), ho⟩
    · exact ⟨w.2, .inl (.inr ⟨w, hw, .inr rfl⟩), ho⟩
    · exact ⟨c, .inr h, ho⟩

/-- A call that is not itself Oracle's. -/
lemma occurs_function {name : ObjectName} {args : FunctionArguments κ (Expr κ)}
    {filter : Option (Expr κ)} {window : Option (List (Expr κ))} {withinGroup : List (Expr κ)}
    (h : isOracleOnly (.function name args filter window withinGroup) = false) :
    Occurs occ (.function name args filter window withinGroup) ↔
      (∃ c ∈ ordinaryArgs args, Occurs occ c) ∨
        (∃ c ∈ namedArgs args ++ filter.toList ++ window.getD [] ++ withinGroup, Occurs occ c) ∨
        ∃ q ∈ args.queries, occ q := by
  rw [occurs_iff, h]
  show false = true ∨ (∃ c ∈ args.exprs ++ filter.toList ++ window.getD [] ++ withinGroup,
    Occurs occ c) ∨ (∃ q ∈ args.queries, occ q) ↔ _
  simp only [List.mem_append, mem_exprs, Bool.false_eq_true, false_or]
  constructor
  · rintro (⟨c, (((hc | hc) | hc) | hc) | hc, ho⟩ | hq)
    · exact .inl ⟨c, hc, ho⟩
    · exact .inr (.inl ⟨c, .inl (.inl (.inl hc)), ho⟩)
    · exact .inr (.inl ⟨c, .inl (.inl (.inr hc)), ho⟩)
    · exact .inr (.inl ⟨c, .inl (.inr hc), ho⟩)
    · exact .inr (.inl ⟨c, .inr hc, ho⟩)
    · exact .inr (.inr hq)
  · rintro (⟨c, hc, ho⟩ | ⟨c, ((hc | hc) | hc) | hc, ho⟩ | hq)
    · exact .inl ⟨c, .inl (.inl (.inl (.inl hc))), ho⟩
    · exact .inl ⟨c, .inl (.inl (.inl (.inr hc))), ho⟩
    · exact .inl ⟨c, .inl (.inl (.inr hc)), ho⟩
    · exact .inl ⟨c, .inl (.inr hc), ho⟩
    · exact .inl ⟨c, .inr hc, ho⟩
    · exact .inr hq

/-- A call the translation writes holds what its arguments hold. -/
lemma occurs_call {name : String} (h : callKind [name] = .plain) {args : List (Expr κ)} :
    Occurs occ (call name args) ↔ ∃ c ∈ args, Occurs occ c := by
  rw [call, occurs_function (by simp [isOracleOnly, h])]
  simp [ordinaryArgs, namedArgs, FunctionArguments.queries, List.filterMap_map]

/-! ### Nodes whose operands are rewritten -/

lemma occurs_wrapCoalesceEmpty {e : Expr κ} :
    Occurs occ (wrapCoalesceEmpty e) ↔ Occurs occ e := by
  have hcall : Occurs occ (call "COALESCE" [.cast e .text, .value .writtenEmpty]) ↔
      Occurs occ e := by
    rw [occurs_call (by decide)]
    simp [isEmptyText]
  rw [wrapCoalesceEmpty]
  split
  · rfl
  · rfl
  · exact hcall

lemma occurs_mulByOneDay {e : Expr κ} : Occurs occ (mulByOneDay e) ↔ Occurs occ e := by
  have hday : isEmptyText (.singleQuotedString "1 day") = false := by decide
  simp [mulByOneDay, hday]

/-- A finished binary operation holds what its operands hold. -/
lemma occurs_finishBinaryOp {l r : Expr κ} {op : BinaryOperator} :
    Occurs occ (finishBinaryOp l op r) ↔ Occurs occ l ∨ Occurs occ r := by
  have hnumber : ∀ n, isEmptyText (.number n) = false := fun _ => rfl
  cases op with
  | plus | minus =>
    rw [finishBinaryOp]
    split
    · simp [hnumber]
    · split
      · rw [occurs_binaryOp, occurs_mulByOneDay]
      · split
        · rw [occurs_binaryOp, occurs_mulByOneDay]
        · exact occurs_binaryOp
  | stringConcat =>
    rw [finishBinaryOp, occurs_binaryOp, occurs_wrapCoalesceEmpty, occurs_wrapCoalesceEmpty]
  | divide =>
    rw [finishBinaryOp]
    split
    · exact occurs_binaryOp
    · rw [occurs_binaryOp, occurs_cast]
  | _ => exact occurs_binaryOp

/-- The search values, results and default of a `DECODE` are its arguments. -/
lemma decodePairs_occurs (occ : κ → Prop) (args : List (Expr κ)) :
    ((∃ p ∈ (decodePairs args).1, Occurs occ p.1 ∨ Occurs occ p.2) ∨
      ∃ c ∈ (decodePairs args).2, Occurs occ c) ↔ ∃ c ∈ args, Occurs occ c := by
  induction args using decodePairs.induct with
  | case1 cond result rest pairs default hrest ih =>
    rw [decodePairs, hrest]
    rw [hrest] at ih
    simp only [List.mem_cons, exists_eq_or_imp, or_assoc]
    rw [ih]
  | case2 default => simp [decodePairs]
  | case3 => simp [decodePairs]

/-- The arms of the `CASE` of a `DECODE`. -/
lemma decodeWhens_occurs {input : Expr κ} {pairs : List (Expr κ × Expr κ)} (hne : pairs ≠ []) :
    (∃ w ∈ pairs.map fun p =>
        ((.other .isNotDistinctFrom [.cast input .text, .cast p.1 .text] [], p.2) :
          Expr κ × Expr κ), Occurs occ w.1 ∨ Occurs occ w.2) ↔
      Occurs occ input ∨ ∃ p ∈ pairs, Occurs occ p.1 ∨ Occurs occ p.2 := by
  have harm : ∀ p : Expr κ × Expr κ,
      Occurs occ (.other .isNotDistinctFrom [.cast input .text, .cast p.1 .text] []) ↔
        Occurs occ input ∨ Occurs occ p.1 := fun p => by simp
  constructor
  · rintro ⟨w, hw, h⟩
    obtain ⟨p, hp, rfl⟩ := List.mem_map.mp hw
    rw [harm p] at h
    rcases h with (h | h) | h
    · exact .inl h
    · exact .inr ⟨p, hp, .inl h⟩
    · exact .inr ⟨p, hp, .inr h⟩
  · rintro (h | ⟨p, hp, h⟩)
    · obtain ⟨p, ps, rfl⟩ := List.exists_cons_of_ne_nil hne
      exact ⟨_, List.mem_map_of_mem List.mem_cons_self, .inl ((harm p).mpr (.inl h))⟩
    · refine ⟨_, List.mem_map_of_mem hp, ?_⟩
      rw [harm p]
      rcases h with h | h
      · exact .inl (.inr h)
      · exact .inr h

/-- The `CASE` of a `DECODE` holds what its arguments hold. -/
lemma rewriteDecode_occurs {args : List (Expr κ)} {e : Expr κ} (h : rewriteDecode args = .ok e) :
    Occurs occ e ↔ ∃ c ∈ args, Occurs occ c := by
  rcases args with _ | ⟨input, _ | ⟨a, _ | ⟨b, rest⟩⟩⟩
  · cases h
  · cases h
  · cases h
  · cases h
    have hne : (a, b) :: (decodePairs rest).1 ≠ [] := List.cons_ne_nil _ _
    have hpairs : ((∃ p ∈ (a, b) :: (decodePairs rest).1, Occurs occ p.1 ∨ Occurs occ p.2) ∨
        ∃ c ∈ (decodePairs rest).2, Occurs occ c) ↔ ∃ c ∈ a :: b :: rest, Occurs occ c :=
      decodePairs_occurs occ (a :: b :: rest)
    have hargs : (∃ c ∈ input :: a :: b :: rest, Occurs occ c) ↔
        Occurs occ input ∨ ∃ c ∈ a :: b :: rest, Occurs occ c := List.exists_mem_cons_iff _ _ _
    rw [occurs_case, decodeWhens_occurs hne, hargs, ← hpairs, or_assoc]
    simp only [Option.mem_def, reduceCtorEq, false_and, exists_false, false_or]

/-- So does that of an `NVL2`. -/
lemma rewriteNvl2_occurs {args : List (Expr κ)} {e : Expr κ} (h : rewriteNvl2 args = .ok e) :
    Occurs occ e ↔ ∃ c ∈ args, Occurs occ c := by
  rcases args with _ | ⟨a, _ | ⟨b, _ | ⟨c, _ | ⟨d, rest⟩⟩⟩⟩
  · cases h
  · cases h
  · cases h
  · cases h
    simp [or_assoc]
  · cases h

/-- And the test of an `LNNVL`. -/
lemma rewriteLnnvl_occurs {args : List (Expr κ)} {e : Expr κ} (h : rewriteLnnvl args = .ok e) :
    Occurs occ e ↔ ∃ c ∈ args, Occurs occ c := by
  rcases args with _ | ⟨a, _ | ⟨b, rest⟩⟩
  · cases h
  · cases h
    simp
  · cases h

/-! ### Calls whose arguments are rewritten -/

/-- Something holds of a member of one list when what corresponds to it holds of a member of the
other. -/
lemma exists_forall₂ {α β : Type} {R : α → β → Prop} {P : β → Prop} {Q : α → Prop} {as : List α}
    {bs : List β} (h : List.Forall₂ R as bs) (hPQ : ∀ a ∈ as, ∀ b, R a b → (P b ↔ Q a)) :
    (∃ b ∈ bs, P b) ↔ ∃ a ∈ as, Q a := by
  induction h with
  | nil => simp
  | @cons a b as bs hab _ ih =>
    rw [List.exists_mem_cons_iff, List.exists_mem_cons_iff, hPQ a List.mem_cons_self b hab,
      ih fun c hc => hPQ c (List.mem_cons_of_mem a hc)]

lemma ordinaryArgs_map (es : List (Expr κ)) : ordinaryArgs (.list (es.map .unnamed)) = es := by
  simp [ordinaryArgs, List.filterMap_map]

section Finish

variable {R : Expr κ → Expr κ → Prop} {M : Expr κ → Prop} {args args' : List (FunctionArg (Expr κ))}

/-- The ordinary arguments correspond. -/
lemma ordinaryArgs_forall₂ (h : List.Forall₂ (ArgRel R) args args') :
    List.Forall₂ R (ordinaryArgs (.list args)) (ordinaryArgs (.list args')) := by
  induction h with
  | nil => exact .nil
  | cons harg _ ih =>
    cases harg with
    | unnamed he => exact .cons he ih
    | named name e => exact ih
    | wildcard => exact ih

/-- The named arguments stay. -/
lemma namedArgs_eq (h : List.Forall₂ (ArgRel R) args args') :
    namedArgs (.list args' : FunctionArguments κ (Expr κ)) = namedArgs (.list args) := by
  induction h with
  | nil => rfl
  | cons harg _ ih =>
    cases harg with
    | unnamed he => exact ih
    | named name e => exact congrArg (e :: ·) ih
    | wildcard => exact ih

variable {name : ObjectName} {filter : Option (Expr κ)} {window : Option (List (Expr κ))}
  {withinGroup : List (Expr κ)}

/-- A call that stays one holds what was missed in its ordinary arguments and what the other
parts hold. -/
lemma occurs_same (h : List.Forall₂ (ArgRel R) args args')
    (hM : ∀ a ∈ ordinaryArgs (.list args), ∀ b, R a b → (Occurs occ b ↔ M a))
    (hno : isOracleOnly (.function name (.list args') filter window withinGroup) = false) :
    Occurs occ (.function name (.list args') filter window withinGroup) ↔
      (∃ c ∈ ordinaryArgs (.list args), M c) ∨
        ∃ c ∈ namedArgs (.list args) ++ filter.toList ++ window.getD [] ++ withinGroup,
          Occurs occ c := by
  rw [occurs_function hno, exists_forall₂ (ordinaryArgs_forall₂ h) hM, namedArgs_eq h]
  simp [FunctionArguments.queries]

/-- Putting the empty text for `NULL` changes nothing. -/
lemma occurs_emptyThird (occ : κ → Prop) (args : List (FunctionArg (Expr κ))) :
    ((∃ c ∈ ordinaryArgs (.list (emptyThird args)), Occurs occ c) ↔
      ∃ c ∈ ordinaryArgs (.list args), Occurs occ c) ∧
    namedArgs (.list (emptyThird args) : FunctionArguments κ (Expr κ)) = namedArgs (.list args) := by
  have hthird : ∀ third : Expr κ, Occurs occ
      (if asValue third = some .null then .value .writtenEmpty else third) ↔ Occurs occ third := by
    intro third
    split
    · rename_i hnull
      cases third with
      | value v =>
        cases hnull
        simp [isEmptyText]
      | _ => cases hnull
    · rfl
  rcases args with _ | ⟨a, _ | ⟨b, _ | ⟨c, rest⟩⟩⟩
  · exact ⟨Iff.rfl, rfl⟩
  · exact ⟨Iff.rfl, rfl⟩
  · exact ⟨Iff.rfl, rfl⟩
  · cases c with
    | unnamed third =>
      constructor
      · cases a <;> cases b <;>
          simp only [emptyThird, ordinaryArgs, List.filterMap_cons, List.exists_mem_cons_iff,
            hthird]
      · cases a <;> cases b <;> rfl
    | named n e => exact ⟨Iff.rfl, rfl⟩
    | wildcard => exact ⟨Iff.rfl, rfl⟩

/-- Neither does the flag of `REGEXP_REPLACE`. -/
lemma occurs_globalFlag (occ : κ → Prop) (name : ObjectName)
    (args : List (FunctionArg (Expr κ))) :
    ((∃ c ∈ ordinaryArgs (.list (globalFlag name args)), Occurs occ c) ↔
      ∃ c ∈ ordinaryArgs (.list args), Occurs occ c) ∧
    namedArgs (.list (globalFlag name args) : FunctionArguments κ (Expr κ)) =
      namedArgs (.list args) := by
  have hflag : isEmptyText (.singleQuotedString "g") = false := by decide
  rw [globalFlag]
  split
  · constructor
    · simp only [ordinaryArgs, List.filterMap_append, List.mem_append, or_and_right, exists_or]
      simp [hflag]
    · simp [namedArgs, List.filterMap_append]
  · exact ⟨Iff.rfl, rfl⟩

/-- Ordinary arguments, rewritten, and where they come from. -/
lemma functionArgs_forall₂ (h : List.Forall₂ (ArgRel R) args args') {es' : List (Expr κ)}
    (hes' : functionArgs (.list args') = .ok es') :
    ∃ es, args = es.map .unnamed ∧ List.Forall₂ R es es' := by
  have hlist := functionArgs_eq_ok.mp hes'
  simp only [FunctionArguments.list.injEq] at hlist
  rw [hlist] at h
  exact ArgRel.of_unnamed h

lemma functionArgs_map (es : List (Expr κ)) :
    functionArgs (.list (es.map .unnamed) : FunctionArguments κ (Expr κ)) = .ok es :=
  functionArgs_eq_ok.mpr rfl

lemma argCount_map (es : List (Expr κ)) :
    argCount (.list (es.map .unnamed) : FunctionArguments κ (Expr κ)) = es.length := by
  rw [argCount, List.length_map]

section Kinds

variable (h : List.Forall₂ (ArgRel R) args args')
  (hM : ∀ a ∈ ordinaryArgs (.list args), ∀ b, R a b → (Occurs occ b ↔ M a)) {e' : Expr κ}
  (hf : finishFunction name (.list args') filter window withinGroup = .ok e')

include h hM hf

/-- `DECODE` with three or more arguments is a `CASE` over them, any other stays. -/
lemma finishDecode_occurs (hk : callKind name = .decode) :
    Occurs occ e' ↔ (∃ c ∈ visitedArgs name (.list args), M c) ∨
      ∃ c ∈ hiddenParts name (.list args) filter window withinGroup, Occurs occ c := by
  rw [finishFunction, hk] at hf
  obtain ⟨es', hes', hf⟩ := bind_eq_ok.mp hf
  obtain ⟨es, rfl, hes⟩ := functionArgs_forall₂ h hes'
  simp only [visitedArgs, hiddenParts, hk, argCount_map]
  by_cases hlen : es.length ≥ 3
  · rw [if_pos (hes.length_eq ▸ hlen)] at hf
    rw [ordinaryArgs_map] at hM
    rw [rewriteDecode_occurs hf, exists_forall₂ hes hM, if_pos hlen, ordinaryArgs_map]
    simp
  · rw [if_neg (hes.length_eq ▸ hlen)] at hf
    cases hf
    have hno : isOracleOnly (.function name (.list args') filter window withinGroup) = false := by
      simp only [isOracleOnly, hk, functionArgs_eq_ok.mp hes', argCount_map, ← hes.length_eq,
        decide_eq_false_iff_not]
      exact hlen
    rw [occurs_same h hM hno, if_neg hlen]

/-- `TO_DATE` with two arguments is a cast of its arguments, any other stays. -/
lemma finishToDate_occurs (hk : callKind name = .toDate) :
    Occurs occ e' ↔ (∃ c ∈ visitedArgs name (.list args), M c) ∨
      ∃ c ∈ hiddenParts name (.list args) filter window withinGroup, Occurs occ c := by
  rw [finishFunction, hk] at hf
  obtain ⟨es', hes', hf⟩ := bind_eq_ok.mp hf
  obtain ⟨es, rfl, hes⟩ := functionArgs_forall₂ h hes'
  have hno : isOracleOnly (.function name (.list args') filter window withinGroup) = false := by
    simp only [isOracleOnly, hk]
  have hsame := occurs_same h hM hno
  simp only [visitedArgs, hiddenParts, hk, argCount_map]
  rw [hes.length_eq]
  rcases es' with _ | ⟨a, _ | ⟨b, _ | ⟨c, rest⟩⟩⟩
  · cases hf
    exact hsame
  · cases hf
    exact hsame
  · cases hf
    rw [ordinaryArgs_map] at hM
    rw [occurs_cast, occurs_call (by decide), exists_forall₂ hes hM, ordinaryArgs_map]
    simp
  · cases hf
    rw [if_neg (by simp)]
    exact hsame

/-- `RATIO_TO_REPORT` with one argument and a window is a quotient, any other call stays. -/
lemma finishRatioToReport_occurs (hk : callKind name = .ratioToReport) :
    Occurs occ e' ↔ (∃ c ∈ visitedArgs name (.list args), M c) ∨
      ∃ c ∈ hiddenParts name (.list args) filter window withinGroup, Occurs occ c := by
  rw [finishFunction, hk] at hf
  obtain ⟨es', hes', hf⟩ := bind_eq_ok.mp hf
  obtain ⟨es, rfl, hes⟩ := functionArgs_forall₂ h hes'
  have hno : isOracleOnly (.function name (.list args') filter window withinGroup) = false := by
    simp only [isOracleOnly, hk]
  have hsame := occurs_same h hM hno
  simp only [visitedArgs, hiddenParts, hk, argCount_map]
  rw [hes.length_eq]
  rcases es' with _ | ⟨a, _ | ⟨b, rest⟩⟩
  · cases hf
    exact hsame
  · cases window with
    | none =>
      cases hf
      exact hsame
    | some window =>
      cases hf
      have hsum : Occurs occ (.function ["SUM"] (.list [.unnamed a]) none (some window) []) ↔
          Occurs occ a ∨ ∃ c ∈ window, Occurs occ c := by
        rw [occurs_function rfl]
        simp [ordinaryArgs, namedArgs, FunctionArguments.queries]
      have hzero : isEmptyText (.number ⟨0, none⟩) = false := rfl
      rw [ordinaryArgs_map] at hM
      rw [occurs_binaryOp, occurs_cast, occurs_nested, occurs_call (by decide), ordinaryArgs_map,
        ← exists_forall₂ hes hM]
      simp [hsum, hzero]
  · cases hf
    rw [if_neg (by simp)]
    exact hsame

/-- The form of `REGEXP_SUBSTR` that selects a group keeps three arguments, any other call
stays. -/
lemma finishRegexpSubstr_occurs (hconst : ∀ a b, R a b → constU64 b = constU64 a)
    (hk : callKind name = .regexpSubstr) :
    Occurs occ e' ↔ (∃ c ∈ visitedArgs name (.list args), M c) ∨
      ∃ c ∈ hiddenParts name (.list args) filter window withinGroup, Occurs occ c := by
  rw [finishFunction, hk] at hf
  obtain ⟨es', hes', hf⟩ := bind_eq_ok.mp hf
  obtain ⟨es, rfl, hes⟩ := functionArgs_forall₂ h hes'
  have hno : isOracleOnly (.function name (.list args') filter window withinGroup) = false := by
    simp only [isOracleOnly, hk]
  have hsame := occurs_same h hM hno
  rw [ordinaryArgs_map] at hM hsame
  simp only [visitedArgs, hiddenParts, hk, groupForm, functionArgs_map, ordinaryArgs_map]
  rcases hes with _ | ⟨h1, _ | ⟨h2, _ | ⟨h3, _ | ⟨h4, _ | ⟨h5, _ | ⟨h6, _ | ⟨h7, hrest⟩⟩⟩⟩⟩⟩⟩
  case cons.cons.cons.cons.cons.cons.nil =>
    have hfour : ∀ {P : Expr κ → Prop} {a b c d e f : Expr κ},
        (∃ x ∈ List.take 2 [a, b, c, d, e, f] ++ List.drop 5 [a, b, c, d, e, f], P x) ↔
          P a ∨ P b ∨ P f := by simp
    simp only [hconst _ _ h3, hconst _ _ h4] at hf
    simp only [decide_eq_true_eq]
    split
    · rename_i hform
      rw [if_pos hform] at hf
      cases hf
      rw [occurs_other, hfour, ← hM _ (by simp) _ h1, ← hM _ (by simp) _ h2, ← hM _ (by simp) _ h6]
      simp [occurs_call (show callKind ["regexp_match"] = .plain by decide), or_assoc]
    · rename_i hform
      rw [if_neg hform] at hf
      cases hf
      exact hsame
  all_goals
    cases hf
    exact hsame

end Kinds

/-- **A finished call holds what was missed in the arguments it keeps and what its hidden parts
hold.** -/
theorem finishFunction_occurs (h : List.Forall₂ (ArgRel R) args args')
    (hM : ∀ a ∈ ordinaryArgs (.list args), ∀ b, R a b → (Occurs occ b ↔ M a))
    (hconst : ∀ a b, R a b → constU64 b = constU64 a) {e' : Expr κ}
    (hf : finishFunction name (.list args') filter window withinGroup = .ok e') :
    Occurs occ e' ↔ (∃ c ∈ visitedArgs name (.list args), M c) ∨
      ∃ c ∈ hiddenParts name (.list args) filter window withinGroup, Occurs occ c := by
  cases hk : callKind name with
  | decode => exact finishDecode_occurs h hM hf hk
  | toDate => exact finishToDate_occurs h hM hf hk
  | ratioToReport => exact finishRatioToReport_occurs h hM hf hk
  | regexpSubstr => exact finishRegexpSubstr_occurs h hM hf hconst hk
  | nvl2 =>
    rw [finishFunction, hk] at hf
    obtain ⟨es', hes', hf⟩ := bind_eq_ok.mp hf
    obtain ⟨es, rfl, hes⟩ := functionArgs_forall₂ h hes'
    rw [ordinaryArgs_map] at hM
    rw [rewriteNvl2_occurs hf, exists_forall₂ hes hM]
    simp [visitedArgs, hiddenParts, hk, ordinaryArgs_map]
  | lnnvl =>
    rw [finishFunction, hk] at hf
    obtain ⟨es', hes', hf⟩ := bind_eq_ok.mp hf
    obtain ⟨es, rfl, hes⟩ := functionArgs_forall₂ h hes'
    rw [ordinaryArgs_map] at hM
    rw [rewriteLnnvl_occurs hf, exists_forall₂ hes hM]
    simp [visitedArgs, hiddenParts, hk, ordinaryArgs_map]
  | replace =>
    rw [finishFunction, hk] at hf
    cases hf
    have hno : ∀ args, isOracleOnly (.function name (.list args) filter window withinGroup) = false :=
      fun args => by simp only [isOracleOnly, hk]
    obtain ⟨hthird, hthirdNamed⟩ := occurs_emptyThird occ args'
    obtain ⟨hflag, hflagNamed⟩ := occurs_globalFlag occ name (emptyThird args')
    rw [occurs_function (hno _), hflag, hthird, hflagNamed, hthirdNamed,
      exists_forall₂ (ordinaryArgs_forall₂ h) hM, namedArgs_eq h]
    simp [visitedArgs, hiddenParts, hk, FunctionArguments.queries]
  | plain =>
    rw [finishFunction, hk] at hf
    cases hf
    have hno : isOracleOnly (.function name (.list args') filter window withinGroup) = false := by
      simp only [isOracleOnly, hk]
    rw [occurs_same h hM hno]
    simp [visitedArgs, hiddenParts, hk]

end Finish

/-- A call without a list of arguments stays, or is an error. -/
lemma finishFunction_noList (occ : κ → Prop) {name : ObjectName} {args : FunctionArguments κ (Expr κ)}
    {filter : Option (Expr κ)} {window : Option (List (Expr κ))} {withinGroup : List (Expr κ)}
    (hargs : ∀ list, args ≠ .list list) {e' : Expr κ}
    (h : finishFunction name args filter window withinGroup = .ok e') :
    visitedArgs name args = [] ∧
      (Occurs occ e' ↔ (∃ c ∈ hiddenParts name args filter window withinGroup, Occurs occ c) ∨
        ∃ q ∈ args.queries, occ q) := by
  have herror : ∀ es, functionArgs args ≠ .ok es := fun es hes =>
    hargs _ (functionArgs_eq_ok.mp hes)
  have hordinary : ordinaryArgs args = [] := by
    cases args with
    | list list => exact absurd rfl (hargs list)
    | _ => rfl
  have hkind : e' = .function name args filter window withinGroup ∧
      (callKind name = .replace ∨ callKind name = .plain) := by
    unfold finishFunction at h
    cases hk : callKind name with
    | replace =>
      rw [hk] at h
      cases args with
      | list list => exact absurd rfl (hargs list)
      | _ =>
        cases h
        exact ⟨rfl, .inl rfl⟩
    | plain =>
      rw [hk] at h
      cases h
      exact ⟨rfl, .inr rfl⟩
    | _ =>
      rw [hk] at h
      obtain ⟨es, hes, -⟩ := bind_eq_ok.mp h
      exact absurd hes (herror es)
  obtain ⟨rfl, hk⟩ := hkind
  have hno : isOracleOnly (.function name args filter window withinGroup) = false := by
    rcases hk with hk | hk <;> simp only [isOracleOnly, hk]
  rw [occurs_function hno, hordinary]
  rcases hk with hk | hk <;> simp [visitedArgs, hiddenParts, hk, hordinary]

/-! ### The traversal -/

/-- An optional expression is missed in when it is there and is. -/
lemma exists_rewriteOption {translateQuery : κ → Except Error κ} {P Q : Expr κ → Prop}
    {o o' : Option (Expr κ)} (h : rewriteOption translateQuery o = .ok o')
    (hPQ : ∀ c ∈ o, ∀ c', rewriteExpr translateQuery c = .ok c' → (P c' ↔ Q c)) :
    (∃ c ∈ o', P c) ↔ ∃ c ∈ o, Q c := by
  rcases rewriteOption_cases h with ⟨rfl, rfl⟩ | ⟨e, e', rfl, rfl, he⟩
  · simp
  · simpa using hPQ e rfl e' he

lemma constU64_finishBinaryOp (l r : Expr κ) (op : BinaryOperator) :
    constU64 (finishBinaryOp l op r) = none := by
  cases op with
  | plus | minus =>
    rw [finishBinaryOp]
    split
    · rfl
    · split
      · rfl
      · split <;> rfl
  | divide =>
    rw [finishBinaryOp]
    split <;> rfl
  | _ => rfl

lemma constU64_finishFunction {name : ObjectName} {args : FunctionArguments κ (Expr κ)}
    {filter : Option (Expr κ)} {window : Option (List (Expr κ))} {withinGroup : List (Expr κ)}
    {e : Expr κ} (h : finishFunction name args filter window withinGroup = .ok e) :
    constU64 e = none := by
  unfold finishFunction at h
  cases hk : callKind name with
  | decode =>
    rw [hk] at h
    obtain ⟨es, -, h⟩ := bind_eq_ok.mp h
    split at h
    · rcases es with _ | ⟨a, _ | ⟨b, _ | ⟨c, rest⟩⟩⟩ <;> cases h
      rfl
    · cases h
      rfl
  | nvl2 =>
    rw [hk] at h
    obtain ⟨es, -, h⟩ := bind_eq_ok.mp h
    rcases es with _ | ⟨a, _ | ⟨b, _ | ⟨c, _ | ⟨d, rest⟩⟩⟩⟩ <;> cases h
    rfl
  | lnnvl =>
    rw [hk] at h
    obtain ⟨es, -, h⟩ := bind_eq_ok.mp h
    rcases es with _ | ⟨a, _ | ⟨b, rest⟩⟩ <;> cases h
    rfl
  | toDate =>
    rw [hk] at h
    obtain ⟨es, -, h⟩ := bind_eq_ok.mp h
    split at h <;> cases h <;> rfl
  | replace =>
    rw [hk] at h
    cases args <;> cases h <;> rfl
  | ratioToReport =>
    rw [hk] at h
    obtain ⟨es, -, h⟩ := bind_eq_ok.mp h
    split at h <;> cases h <;> rfl
  | regexpSubstr =>
    rw [hk] at h
    obtain ⟨es, -, h⟩ := bind_eq_ok.mp h
    split at h
    · split at h <;> cases h <;> rfl
    · cases h
      rfl
  | plain =>
    rw [hk] at h
    cases h
    rfl

/-- Rewriting neither makes a constant nor loses one. -/
lemma constU64_rewriteExpr {translateQuery : κ → Except Error κ} {e e' : Expr κ}
    (h : rewriteExpr translateQuery e = .ok e') : constU64 e' = constU64 e := by
  cases e with
  | value v =>
    rw [rewriteExpr] at h
    cases h
    split
    · rename_i hempty
      cases v <;> first | rfl | cases hempty
    · rfl
  | identifier s =>
    rw [rewriteExpr] at h
    cases h
    split <;> rfl
  | binaryOp l op r =>
    rw [rewriteExpr] at h
    obtain ⟨l', -, h⟩ := bind_eq_ok.mp h
    obtain ⟨r', -, h⟩ := bind_eq_ok.mp h
    cases h
    exact constU64_finishBinaryOp l' r' op
  | unaryOp op e =>
    rw [rewriteExpr] at h
    obtain ⟨e'', -, h⟩ := bind_eq_ok.mp h
    cases h
    cases op <;> rfl
  | function name args filter window withinGroup =>
    cases args with
    | list args =>
      rw [rewriteExpr] at h
      obtain ⟨args', -, h⟩ := bind_eq_ok.mp h
      exact constU64_finishFunction h
    | none => exact constU64_finishFunction h
    | subquery q => exact constU64_finishFunction h
  | test t e =>
    rw [rewriteExpr] at h
    split at h
    · obtain ⟨e'', -, h⟩ := bind_eq_ok.mp h
      cases h
      rfl
    · cases h
      rfl
  | between e negated low high =>
    rw [rewriteExpr] at h
    obtain ⟨e'', -, h⟩ := bind_eq_ok.mp h
    obtain ⟨low', -, h⟩ := bind_eq_ok.mp h
    obtain ⟨high', -, h⟩ := bind_eq_ok.mp h
    cases h
    rfl
  | inList e list negated =>
    rw [rewriteExpr] at h
    obtain ⟨e'', -, h⟩ := bind_eq_ok.mp h
    obtain ⟨list', -, h⟩ := bind_eq_ok.mp h
    cases h
    rfl
  | case operand conditions elseResult =>
    rw [rewriteExpr] at h
    obtain ⟨operand', -, h⟩ := bind_eq_ok.mp h
    obtain ⟨conditions', -, h⟩ := bind_eq_ok.mp h
    obtain ⟨elseResult', -, h⟩ := bind_eq_ok.mp h
    cases h
    rfl
  | nested _ | cast _ _ | collate _ _ | inSubquery _ _ _ | existsQuery _ _ | subquery _ =>
    rw [rewriteExpr] at h
    obtain ⟨r, -, h⟩ := bind_eq_ok.mp h
    cases h
    rfl
  | compoundIdentifier _ | typedString _ _ | outerJoin _ | other _ _ _ =>
    cases h
    rfl

/-- The expressions of the arms of a CASE. -/
lemma exists_arm {conditions : List (Expr κ × Expr κ)} {P : Expr κ → Prop} :
    (∃ w ∈ conditions, P w.1 ∨ P w.2) ↔ ∃ c, (∃ w ∈ conditions, c ∈ [w.1, w.2]) ∧ P c := by
  constructor
  · rintro ⟨w, hw, hm | hm⟩
    · exact ⟨w.1, ⟨w, hw, by simp⟩, hm⟩
    · exact ⟨w.2, ⟨w, hw, by simp⟩, hm⟩
  · rintro ⟨c, ⟨w, hw, hc⟩, hm⟩
    simp only [List.mem_cons, List.not_mem_nil, or_false] at hc
    rcases hc with rfl | rfl
    · exact ⟨w, hw, .inl hm⟩
    · exact ⟨w, hw, .inr hm⟩

/-- **What the traversal leaves is what it missed**: an occurrence stands in the rewritten
expression exactly when one stood below a hidden place of the given one. -/
theorem rewriteExpr_occurs {translateQuery : κ → Except Error κ}
    (hquery : ∀ q q', translateQuery q = .ok q' → (occ q' ↔ missed q)) {e e' : Expr κ}
    (h : rewriteExpr translateQuery e = .ok e') : Occurs occ e' ↔ Missed occ missed e := by
  induction e using Expr.childInduction generalizing e' with
  | step e ih =>
    rw [missed_iff]
    cases e with
    | value v =>
      rw [rewriteExpr] at h
      cases h
      rw [occurs_value]
      simp only [hidden, hiddenQueries, visited, visitedQueries, Expr.children]
      split <;> simp_all [isEmptyText]
    | identifier s =>
      rw [rewriteExpr] at h
      cases h
      split
      · have hrow : callKind ["ROW_NUMBER"] = .plain := by decide
        rw [occurs_iff]
        simp [rowNumber, isOracleOnly, hrow, Expr.children, Expr.queries, hidden, hiddenQueries,
          visited, visitedQueries, FunctionArguments.exprs, FunctionArguments.queries]
      · rename_i hs
        rw [occurs_iff]
        simp [isOracleOnly, hs, Expr.children, Expr.queries, hidden, hiddenQueries, visited,
          visitedQueries]
    | binaryOp l op r =>
      rw [rewriteExpr] at h
      obtain ⟨l', hl, h⟩ := bind_eq_ok.mp h
      obtain ⟨r', hr, h⟩ := bind_eq_ok.mp h
      cases h
      rw [occurs_finishBinaryOp, ih l (by simp [Expr.children]) hl,
        ih r (by simp [Expr.children]) hr]
      simp [hidden, hiddenQueries, visited, visitedQueries, Expr.children]
    | unaryOp op e =>
      rw [rewriteExpr] at h
      obtain ⟨e'', he, h⟩ := bind_eq_ok.mp h
      cases h
      rw [occurs_iff]
      simp [isOracleOnly, Expr.children, Expr.queries, hidden, hiddenQueries, visited,
        visitedQueries, ih e (by simp [Expr.children]) he]
    | nested e =>
      rw [rewriteExpr] at h
      obtain ⟨e'', he, h⟩ := bind_eq_ok.mp h
      cases h
      rw [occurs_nested, ih e (by simp [Expr.children]) he]
      simp [hidden, hiddenQueries, visited, visitedQueries, Expr.children]
    | test t e =>
      rw [rewriteExpr] at h
      by_cases ht : testVisited t = true
      · rw [if_pos ht] at h
        obtain ⟨e'', he, h⟩ := bind_eq_ok.mp h
        cases h
        rw [occurs_test, ih e (by simp [Expr.children]) he]
        simp [hidden, hiddenQueries, visited, visitedQueries, ht]
      · rw [if_neg ht] at h
        cases h
        rw [occurs_test]
        simp [hidden, hiddenQueries, visited, visitedQueries, ht]
    | cast e dataType =>
      rw [rewriteExpr] at h
      obtain ⟨e'', he, h⟩ := bind_eq_ok.mp h
      cases h
      rw [occurs_cast, ih e (by simp [Expr.children]) he]
      simp [hidden, hiddenQueries, visited, visitedQueries, Expr.children]
    | collate e collation =>
      rw [rewriteExpr] at h
      obtain ⟨e'', he, h⟩ := bind_eq_ok.mp h
      cases h
      rw [occurs_iff]
      simp [isOracleOnly, Expr.children, Expr.queries, hidden, hiddenQueries, visited,
        visitedQueries, ih e (by simp [Expr.children]) he]
    | between e negated low high =>
      rw [rewriteExpr] at h
      obtain ⟨e'', he, h⟩ := bind_eq_ok.mp h
      obtain ⟨low', hlow, h⟩ := bind_eq_ok.mp h
      obtain ⟨high', hhigh, h⟩ := bind_eq_ok.mp h
      cases h
      rw [occurs_iff]
      simp [isOracleOnly, Expr.children, Expr.queries, hidden, hiddenQueries, visited,
        visitedQueries, ih e (by simp [Expr.children]) he, ih low (by simp [Expr.children]) hlow,
        ih high (by simp [Expr.children]) hhigh]
    | inList e list negated =>
      rw [rewriteExpr] at h
      obtain ⟨e'', he, h⟩ := bind_eq_ok.mp h
      obtain ⟨list', hlist, h⟩ := bind_eq_ok.mp h
      cases h
      have hmem := exists_forall₂ (rewriteExprs_forall₂ hlist)
        fun a ha b hab => ih a (List.mem_cons_of_mem e ha) hab
      rw [occurs_iff]
      simp [isOracleOnly, Expr.children, Expr.queries, hidden, hiddenQueries, visited,
        visitedQueries, ih e (by simp [Expr.children]) he, hmem]
    | inSubquery e q negated =>
      rw [rewriteExpr] at h
      obtain ⟨q', hq, h⟩ := bind_eq_ok.mp h
      cases h
      rw [occurs_iff]
      simp [isOracleOnly, Expr.children, Expr.queries, hidden, hiddenQueries, visited,
        visitedQueries, hquery q q' hq]
    | existsQuery q negated =>
      rw [rewriteExpr] at h
      obtain ⟨q', hq, h⟩ := bind_eq_ok.mp h
      cases h
      rw [occurs_iff]
      simp [isOracleOnly, Expr.children, Expr.queries, hidden, hiddenQueries, visited,
        visitedQueries, hquery q q' hq]
    | subquery q =>
      rw [rewriteExpr] at h
      obtain ⟨q', hq, h⟩ := bind_eq_ok.mp h
      cases h
      rw [occurs_iff]
      simp [isOracleOnly, Expr.children, Expr.queries, hidden, hiddenQueries, visited,
        visitedQueries, hquery q q' hq]
    | case operand conditions elseResult =>
      rw [rewriteExpr] at h
      obtain ⟨operand', hoperand, h⟩ := bind_eq_ok.mp h
      obtain ⟨conditions', hconditions, h⟩ := bind_eq_ok.mp h
      obtain ⟨elseResult', helse, h⟩ := bind_eq_ok.mp h
      cases h
      have harm : ∀ w ∈ conditions, ∀ w' : Expr κ × Expr κ,
          rewriteExpr translateQuery w.1 = .ok w'.1 ∧ rewriteExpr translateQuery w.2 = .ok w'.2 →
            (Occurs occ w'.1 ∨ Occurs occ w'.2 ↔
              Missed occ missed w.1 ∨ Missed occ missed w.2) := by
        intro w hw w' hww
        have hmem : ∀ c, c = w.1 ∨ c = w.2 →
            c ∈ (Expr.case operand conditions elseResult).children := fun c hc =>
          List.mem_append_left _ (List.mem_append_right _
            (List.mem_flatMap.mpr ⟨w, hw, by simpa using hc⟩))
        rw [ih _ (hmem _ (.inl rfl)) hww.1, ih _ (hmem _ (.inr rfl)) hww.2]
      rw [occurs_case, exists_forall₂ (rewriteWhens_forall₂ hconditions) harm,
        exists_rewriteOption hoperand fun c hc c' h' => ih c (by simp_all [Expr.children]) h',
        exists_rewriteOption helse fun c hc c' h' => ih c (by simp_all [Expr.children]) h']
      simp only [hidden, hiddenQueries, visited, visitedQueries, Expr.children, List.mem_append,
        List.not_mem_nil, false_and, exists_false, false_or, or_false, Option.mem_toList,
        Option.mem_def, or_and_right, exists_or, List.mem_flatMap, or_assoc]
      exact or_congr Iff.rfl (or_congr exists_arm Iff.rfl)
    | function name args filter window withinGroup =>
      cases args with
      | list args =>
        rw [rewriteExpr] at h
        obtain ⟨args', hargs, h⟩ := bind_eq_ok.mp h
        have hchild : ∀ a ∈ ordinaryArgs (.list args),
            a ∈ (Expr.function name (.list args) filter window withinGroup).children := fun a ha =>
          List.mem_append_left _ (List.mem_append_left _ (List.mem_append_left _
            (mem_exprs.mpr (.inl ha))))
        rw [finishFunction_occurs (rewriteArgs_forall₂ hargs)
          (fun a ha b hab => ih a (hchild a ha) hab) (fun a b hab => constU64_rewriteExpr hab) h]
        simp [hidden, hiddenQueries, visited, visitedQueries, FunctionArguments.queries, or_comm]
      | none =>
        obtain ⟨hnone, hocc⟩ := finishFunction_noList occ (fun _ hl => by cases hl) h
        rw [hocc]
        simp only [hidden, hiddenQueries, visited, visitedQueries, hnone, List.not_mem_nil,
          false_and, exists_false, or_false]
      | subquery q =>
        obtain ⟨hnone, hocc⟩ := finishFunction_noList occ (fun _ hl => by cases hl) h
        rw [hocc]
        simp only [hidden, hiddenQueries, visited, visitedQueries, hnone, List.not_mem_nil,
          false_and, exists_false, or_false]
    | outerJoin e =>
      cases h
      rw [occurs_iff]
      simp [isOracleOnly, Expr.children, Expr.queries, hidden, hiddenQueries, visited,
        visitedQueries]
    | other form exprs queries =>
      cases h
      rw [occurs_other]
      simp [hidden, hiddenQueries, visited, visitedQueries]
    | compoundIdentifier parts =>
      cases h
      rw [occurs_iff]
      simp [isOracleOnly, Expr.children, Expr.queries, hidden, hiddenQueries, visited,
        visitedQueries]
    | typedString dataType text =>
      cases h
      rw [occurs_iff]
      simp [isOracleOnly, Expr.children, Expr.queries, hidden, hiddenQueries, visited,
        visitedQueries]

end Iff

end DbSaci.Translate.Syntax
