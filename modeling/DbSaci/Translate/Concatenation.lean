import DbSaci.Translate.RewriteExpr

set_option relaxedAutoImplicit false
set_option autoImplicit false

/-!
# Concatenation

Oracle has no empty text: it is `NULL`, and `||` leaves out an operand that is `NULL`. PostgreSQL
has one, and `||` with `NULL` is `NULL`. `rewrite_expr` puts the empty text for `NULL` in the
operands. Nothing puts `NULL` for the empty text in the result.

## Main definitions

* `Operand`, `Phrase` — concatenations, and where they stand.
* `oracleText` — what Oracle makes of them.
* `eval` — what PostgreSQL makes of an expression.
* `Phrase.Right` — PostgreSQL makes the same of the expression that is rewritten.
* `Phrase.Strict` — some operand of each concatenation is neither `NULL` nor empty.

## Main results

* `rewriteExpr_expr` — what is rewritten to what.
* `right_iff_strict` — the same is made exactly under the condition.
* `nulls_not_right` — two operands that are `NULL`.
-/

namespace DbSaci.Translate.Concat

open DbSaci.Sql.Syntax DbSaci.Translate.Syntax

/-! ### Texts -/

/-- A text or `NULL`. -/
abbrev Datum := Option (List Char)

/-- What Oracle has for a text of PostgreSQL: the empty one is `NULL`. -/
def oracleDatum : Datum → Datum
  | some [] => none
  | d => d

@[simp] lemma oracleDatum_none : oracleDatum none = none := rfl

@[simp] lemma oracleDatum_nil : oracleDatum (some []) = none := rfl

/-- `NULL` and the empty text are the same operand of a concatenation. -/
@[simp] lemma getD_oracleDatum (d : Datum) : (oracleDatum d).getD [] = d.getD [] := by
  match d with
  | none => rfl
  | some [] => rfl
  | some (_ :: _) => rfl

lemma oracleDatum_eq_self {d : Datum} : oracleDatum d = d ↔ d ≠ some [] := by
  match d with
  | none => exact iff_of_true rfl nofun
  | some [] => exact iff_of_false nofun fun h => h rfl
  | some (c :: s) => exact iff_of_true rfl fun h => nomatch h

lemma oracleDatum_some_ne_none {s : List Char} : oracleDatum (some s) ≠ none ↔ s ≠ [] := by
  cases s with
  | nil => exact iff_of_false (fun h => h rfl) fun h => h rfl
  | cons c s => exact iff_of_true nofun (List.cons_ne_nil c s)

/-- What an expression is. -/
inductive Val
  | datum (d : Datum)
  | truth (b : Option Bool)
  deriving DecidableEq, Repr

/-- What the functions and the comparisons give. Both databases have the same ones: what Oracle has
for their result is the result where Oracle has the arguments. -/
structure Meaning where
  call : ObjectName → List Datum → Datum
  compare : BinaryOperator → List Char → List Char → Bool

/-- The comparison operators. -/
def isComparison : BinaryOperator → Bool
  | .eq | .notEq | .lt | .ltEq | .gt | .gtEq => true
  | _ => false

/-- The first argument that is not `NULL`. -/
def coalesce : List Datum → Datum
  | [] => none
  | none :: ds => coalesce ds
  | some s :: _ => some s

/-- What a call gives. -/
def callDatum (m : Meaning) (name : ObjectName) (args : List Datum) : Datum :=
  if name.lastIs "COALESCE" then coalesce args else m.call name args

/-- What a comparison gives, `NULL` with `NULL`. -/
def compareData (m : Meaning) (op : BinaryOperator) (a b : Datum) : Option Bool :=
  match a, b with
  | some s, some t => some (m.compare op s t)
  | _, _ => none

/-- The columns of a row, by the parts of the names they are written with. -/
abbrev Row := List String → Datum

/-! ### PostgreSQL -/

section Postgres

variable {κ : Type} (m : Meaning) (row : Row)

/-- The text of a value that is one. -/
def Val.datum? : Val → Option Datum
  | datum d => some d
  | truth _ => none

mutual

/-- What PostgreSQL makes of an expression of texts. -/
def eval : Expr κ → Option Val
  | .identifier name => some (.datum (row [name]))
  | .compoundIdentifier parts => some (.datum (row parts))
  | .value .null => some (.datum none)
  | .value (.singleQuotedString s) => some (.datum (some s.toList))
  | .value .writtenEmpty => some (.datum (some []))
  | .nested e => eval e
  | .cast e .text => do
    let d ← (← eval e).datum?
    return .datum d
  | .binaryOp left .stringConcat right => do
    let a ← (← eval left).datum?
    let b ← (← eval right).datum?
    return .datum (do return (← a) ++ (← b))
  | .binaryOp left op right => do
    let a ← (← eval left).datum?
    let b ← (← eval right).datum?
    if isComparison op then return .truth (compareData m op a b) else none
  | .test .isNull e => do
    let d ← (← eval e).datum?
    return .truth (some d.isNone)
  | .test .isNotNull e => do
    let d ← (← eval e).datum?
    return .truth (some d.isSome)
  | .function name (.list args) none none [] => do
    return .datum (callDatum m name (← evalArgs args))
  | _ => none

/-- What it makes of the arguments of a call. -/
def evalArgs : List (FunctionArg (Expr κ)) → Option (List Datum)
  | [] => some []
  | .unnamed e :: args => do
    let d ← (← eval e).datum?
    return d :: (← evalArgs args)
  | _ => none

end

end Postgres

/-! ### Concatenations -/

/-- A column, by its name alone or with the names in front of it. -/
inductive Column
  | bare (name : String) (ordinary : sameWord name "rownum" = false)
  | qualified (parts : List String)

/-- The name of a column. -/
def Column.parts : Column → List String
  | bare name _ => [name]
  | qualified parts => parts

/-- The column as an expression. -/
def Column.expr {κ : Type} : Column → Expr κ
  | bare name _ => .identifier name
  | qualified parts => .compoundIdentifier parts

/-- A concatenation, or what it is made of. -/
inductive Operand
  | column (c : Column)
  | literal (s : String)
  | null
  | nested (e : Operand)
  | call (name : ObjectName) (plain : callKind name = .plain) (args : List Operand)
  | concat (left right : Operand)

namespace Operand

variable {κ : Type}

mutual

/-- The expression that is written. -/
def expr : Operand → Expr κ
  | column c => c.expr
  | literal s => .value (.singleQuotedString s)
  | null => .value .null
  | nested e => .nested e.expr
  | call name _ args => .function name (.list (exprs args)) none none []
  | concat left right => .binaryOp left.expr .stringConcat right.expr

/-- The arguments that are written. -/
def exprs : List Operand → List (FunctionArg (Expr κ))
  | [] => []
  | e :: es => .unnamed e.expr :: exprs es

end

mutual

/-- The expression it is rewritten to. -/
def rewritten : Operand → Expr κ
  | column c => c.expr
  | literal s => .value (if s.toList.isEmpty then .null else .singleQuotedString s)
  | null => .value .null
  | nested e => .nested e.rewritten
  | call name _ args => .function name (.list (rewrittens args)) none none []
  | concat left right =>
    .binaryOp (wrapCoalesceEmpty left.rewritten) .stringConcat (wrapCoalesceEmpty right.rewritten)

/-- The arguments they are rewritten to. -/
def rewrittens : List Operand → List (FunctionArg (Expr κ))
  | [] => []
  | e :: es => .unnamed e.rewritten :: rewrittens es

end

mutual

/-- **What Oracle makes of it**: a concatenation is that of the operands that are not `NULL`. -/
def oracleText (m : Meaning) (row : Row) : Operand → Datum
  | column c => oracleDatum (row c.parts)
  | literal s => oracleDatum (some s.toList)
  | null => none
  | nested e => e.oracleText m row
  | call name _ args => oracleDatum (callDatum m name (oracleTexts m row args))
  | concat left right => oracleDatum
      (some ((left.oracleText m row).getD [] ++ (right.oracleText m row).getD []))

/-- What it makes of arguments. -/
def oracleTexts (m : Meaning) (row : Row) : List Operand → List Datum
  | [] => []
  | e :: es => e.oracleText m row :: oracleTexts m row es

end

mutual

/-- What PostgreSQL makes of what it is rewritten to. -/
def postgresText (m : Meaning) (row : Row) : Operand → Datum
  | column c => row c.parts
  | literal s => oracleDatum (some s.toList)
  | null => none
  | nested e => e.postgresText m row
  | call name _ args => callDatum m name (postgresTexts m row args)
  | concat left right =>
    some ((left.postgresText m row).getD [] ++ (right.postgresText m row).getD [])

/-- What it makes of arguments. -/
def postgresTexts (m : Meaning) (row : Row) : List Operand → List Datum
  | [] => []
  | e :: es => e.postgresText m row :: postgresTexts m row es

end

/-! ### The rewriting -/

mutual

/-- **What is rewritten to what.** -/
theorem rewriteExpr_expr (translateQuery : κ → Except Error κ) (e : Operand) :
    rewriteExpr translateQuery e.expr = .ok e.rewritten := by
  match e with
  | column (.bare name ordinary) =>
    rw [expr, Column.expr, rewriteExpr, ordinary]
    rfl
  | column (.qualified parts) => rfl
  | literal s =>
    rw [expr, rewriteExpr, rewritten]
    rfl
  | null => rfl
  | nested e =>
    rw [expr, rewriteExpr, rewriteExpr_expr translateQuery e]
    rfl
  | call name plain args =>
    rw [expr, rewriteExpr, rewriteArgs_exprs translateQuery args]
    show finishFunction name (.list (rewrittens args)) none none [] = _
    rw [finishFunction, plain]
    rfl
  | concat left right =>
    rw [expr, rewriteExpr, rewriteExpr_expr translateQuery left,
      rewriteExpr_expr translateQuery right]
    rfl

/-- Arguments one by one. -/
theorem rewriteArgs_exprs (translateQuery : κ → Except Error κ) (es : List Operand) :
    rewriteArgs translateQuery (exprs es) = .ok (rewrittens es) := by
  match es with
  | [] => rfl
  | e :: es =>
    rw [exprs, rewriteArgs, rewriteExpr_expr translateQuery e,
      rewriteArgs_exprs translateQuery es]
    rfl

end

/-! ### What PostgreSQL makes of it -/

section Eval

variable (m : Meaning) (row : Row)

lemma lastIs_coalesce : ObjectName.lastIs ["COALESCE"] "COALESCE" = true := by decide

/-- An operand as it is put into a concatenation. -/
lemma eval_wrapCoalesceEmpty {e : Expr κ} {d : Datum} (h : eval m row e = some (.datum d)) :
    eval m row (wrapCoalesceEmpty e) = some (.datum (some (d.getD []))) ∨
      eval m row (wrapCoalesceEmpty e) = some (.datum d) ∧ d ≠ none := by
  rw [wrapCoalesceEmpty]
  split
  · next s hs =>
    right
    cases e with
    | value v =>
      obtain rfl := Option.some.inj hs
      refine ⟨h, ?_⟩
      rintro rfl
      cases h
    | _ => cases hs
  · next hs =>
    right
    cases e with
    | value v =>
      obtain rfl := Option.some.inj hs
      refine ⟨h, ?_⟩
      rintro rfl
      cases h
    | _ => cases hs
  · left
    have hcast : eval m row (.cast e .text) = some (.datum d) := by
      show ((eval m row e) >>= fun v => v.datum? >>= fun d => pure (Val.datum d)) = _
      rw [h]
      rfl
    show ((evalArgs m row [.unnamed (.cast e .text), .unnamed (.value .writtenEmpty)]) >>=
      fun ds => pure (Val.datum (callDatum m ["COALESCE"] ds))) = _
    rw [evalArgs, hcast]
    show some (Val.datum (callDatum m ["COALESCE"] [d, some []])) = _
    rw [callDatum, if_pos lastIs_coalesce]
    cases d <;> rfl

/-- **A concatenation of operands for which the empty text stands in.** -/
lemma eval_concat {l r : Expr κ} {a b : Datum} (hl : eval m row l = some (.datum a))
    (hr : eval m row r = some (.datum b)) :
    eval m row (.binaryOp (wrapCoalesceEmpty l) .stringConcat (wrapCoalesceEmpty r)) =
      some (.datum (some (a.getD [] ++ b.getD []))) := by
  have hwrap : ∀ {e : Expr κ} {d : Datum}, eval m row e = some (.datum d) →
      eval m row (wrapCoalesceEmpty e) = some (.datum (some (d.getD []))) := by
    intro e d h
    rcases eval_wrapCoalesceEmpty m row h with hd | ⟨hd, hne⟩
    · exact hd
    · obtain ⟨s, rfl⟩ := Option.ne_none_iff_exists'.1 hne
      exact hd
  show ((eval m row (wrapCoalesceEmpty l)) >>= fun v => v.datum? >>= fun a =>
    (eval m row (wrapCoalesceEmpty r)) >>= fun w => w.datum? >>= fun b =>
      pure (Val.datum (a >>= fun s => b >>= fun t => pure (s ++ t)))) = _
  rw [hwrap hl, hwrap hr]
  rfl

mutual

/-- **What PostgreSQL makes of what is written instead.** -/
theorem eval_rewritten (e : Operand) :
    eval m row (e.rewritten : Expr κ) = some (.datum (e.postgresText m row)) := by
  match e with
  | column (.bare name ordinary) => rfl
  | column (.qualified parts) => rfl
  | literal s =>
    rw [rewritten, postgresText]
    cases hs : s.toList with
    | nil => rfl
    | cons c t =>
      show some (Val.datum (some s.toList)) = _
      rw [hs]
      rfl
  | null => rfl
  | nested e => exact eval_rewritten e
  | call name plain args =>
    show ((evalArgs m row (rewrittens args)) >>= fun ds =>
      pure (Val.datum (callDatum m name ds))) = _
    rw [evalArgs_rewrittens args]
    rfl
  | concat left right => exact eval_concat m row (eval_rewritten left) (eval_rewritten right)

/-- Arguments one by one. -/
theorem evalArgs_rewrittens (es : List Operand) :
    evalArgs m row (rewrittens es : List (FunctionArg (Expr κ))) =
      some (postgresTexts m row es) := by
  match es with
  | [] => rfl
  | e :: es =>
    show ((eval m row (e.rewritten : Expr κ)) >>= fun v => v.datum? >>= fun d =>
      (evalArgs m row (rewrittens es)) >>= fun ds => pure (d :: ds)) = _
    rw [eval_rewritten e, evalArgs_rewrittens es]
    rfl

end

end Eval

/-! ### The condition -/

/-- The operands that are concatenated. -/
def operands : Operand → List Operand
  | nested e => e.operands
  | concat left right => left.operands ++ right.operands
  | e => [e]

mutual

/-- The arguments of the calls in it. -/
def arguments : Operand → List Operand
  | nested e => e.arguments
  | call _ _ args => allArguments args
  | concat left right => left.arguments ++ right.arguments
  | _ => []

/-- Arguments, and those of the calls in them. -/
def allArguments : List Operand → List Operand
  | [] => []
  | e :: es => (e :: e.arguments) ++ allArguments es

end

mutual

/-- **A value that is looked at** is not the empty text, and a concatenation has an operand that is
neither `NULL` nor empty. -/
def Strict (m : Meaning) (row : Row) : Operand → Prop
  | column c => row c.parts ≠ some []
  | literal _ => True
  | null => True
  | nested e => e.Strict m row
  | call name _ args => AllStrict m row args ∧ callDatum m name (oracleTexts m row args) ≠ some []
  | concat left right => left.Loose m row ∧ right.Loose m row ∧
    ∃ o ∈ left.operands ++ right.operands, o.oracleText m row ≠ none

/-- An operand of a concatenation can be anything. The arguments of the calls in it are looked
at. -/
def Loose (m : Meaning) (row : Row) : Operand → Prop
  | nested e => e.Loose m row
  | call _ _ args => AllStrict m row args
  | concat left right => left.Loose m row ∧ right.Loose m row
  | _ => True

/-- Arguments are looked at. -/
def AllStrict (m : Meaning) (row : Row) : List Operand → Prop
  | [] => True
  | e :: es => e.Strict m row ∧ AllStrict m row es

end

/-- **PostgreSQL makes of it, and of the arguments of the calls in it, what Oracle makes.** -/
def Right (translateQuery : κ → Except Error κ) (m : Meaning) (row : Row) (e : Operand) : Prop :=
  ∀ d ∈ e :: e.arguments, ∃ e', rewriteExpr translateQuery d.expr = .ok e' ∧
    eval m row e' = some (.datum (d.oracleText m row))

section Condition

variable (m : Meaning) (row : Row)

lemma right_iff_texts (translateQuery : κ → Except Error κ) (e : Operand) :
    e.Right translateQuery m row ↔
      ∀ d ∈ e :: e.arguments, d.postgresText m row = d.oracleText m row := by
  refine forall₂_congr fun d _ => ?_
  rw [rewriteExpr_expr]
  constructor
  · rintro ⟨e', he, heval⟩
    obtain rfl := Except.ok.inj he
    rw [eval_rewritten] at heval
    exact Val.datum.inj (Option.some.inj heval)
  · intro h
    exact ⟨_, rfl, by rw [eval_rewritten, h]⟩

/-- Oracle has no empty text. -/
lemma oracleText_ne_nil (e : Operand) : e.oracleText m row ≠ some [] := by
  have hdatum : ∀ d : Datum, oracleDatum d ≠ some [] := by
    rintro (_ | _ | _) h <;> cases h
  match e with
  | column c => exact hdatum _
  | literal s => exact hdatum _
  | null => exact nofun
  | nested e => exact oracleText_ne_nil e
  | call name _ args => exact hdatum _
  | concat left right => exact hdatum _

lemma getD_oracleText (e : Operand) :
    (e.oracleText m row).getD [] ≠ [] ↔ e.oracleText m row ≠ none := by
  have hne := oracleText_ne_nil m row e
  cases h : e.oracleText m row with
  | none => exact iff_of_false (fun hnil => hnil rfl) fun hnone => hnone rfl
  | some s =>
    refine iff_of_true ?_ nofun
    rintro rfl
    exact hne h

/-- A concatenation is `NULL` where all operands are. -/
lemma oracleText_concat_ne_none (left right : Operand) :
    (concat left right).oracleText m row ≠ none ↔
      left.oracleText m row ≠ none ∨ right.oracleText m row ≠ none := by
  rw [oracleText, oracleDatum_some_ne_none, ← getD_oracleText, ← getD_oracleText, ne_eq,
    List.append_eq_nil_iff, not_and_or]

lemma oracleText_ne_none_iff (e : Operand) :
    e.oracleText m row ≠ none ↔ ∃ o ∈ e.operands, o.oracleText m row ≠ none := by
  have hself : ∀ o : Operand, o.oracleText m row ≠ none ↔
      ∃ o' ∈ [o], o'.oracleText m row ≠ none := fun o =>
    ⟨fun h => ⟨o, List.mem_singleton_self o, h⟩, fun ⟨o', ho, h⟩ => List.mem_singleton.1 ho ▸ h⟩
  match e with
  | column c => exact hself _
  | literal s => exact hself _
  | null => exact hself _
  | nested e => exact oracleText_ne_none_iff e
  | call name plain args => exact hself _
  | concat left right =>
    rw [oracleText_concat_ne_none, oracleText_ne_none_iff left, oracleText_ne_none_iff right,
      operands]
    simp only [List.mem_append, or_and_right, exists_or]

mutual

/-- **Where the arguments are right, `NULL` and the empty text are all that differs.** -/
theorem getD_postgresText (e : Operand)
    (h : ∀ d ∈ e.arguments, d.postgresText m row = d.oracleText m row) :
    (e.postgresText m row).getD [] = (e.oracleText m row).getD [] := by
  match e with
  | column c => exact (getD_oracleDatum _).symm
  | literal s => rfl
  | null => rfl
  | nested e => exact getD_postgresText e h
  | call name plain args =>
    rw [postgresText, oracleText, getD_oracleDatum, postgresTexts_eq args h]
  | concat left right =>
    rw [arguments] at h
    rw [postgresText, oracleText, getD_oracleDatum,
      getD_postgresText left fun d hd => h d (List.mem_append_left _ hd),
      getD_postgresText right fun d hd => h d (List.mem_append_right _ hd)]

/-- Arguments that are right are the same. -/
theorem postgresTexts_eq (es : List Operand)
    (h : ∀ d ∈ allArguments es, d.postgresText m row = d.oracleText m row) :
    postgresTexts m row es = oracleTexts m row es := by
  match es with
  | [] => rfl
  | e :: es =>
    rw [allArguments] at h
    rw [postgresTexts, oracleTexts,
      h e (List.mem_append_left _ List.mem_cons_self),
      postgresTexts_eq es fun d hd => h d (List.mem_append_right _ hd)]

end

mutual

/-- **What is looked at is right** exactly under the condition. -/
theorem forall_iff_strict (e : Operand) :
    (∀ d ∈ e :: e.arguments, d.postgresText m row = d.oracleText m row) ↔ e.Strict m row := by
  rw [List.forall_mem_cons]
  match e with
  | column c =>
    have hcolumn : row c.parts = oracleDatum (row c.parts) ↔ row c.parts ≠ some [] := by
      rw [eq_comm, oracleDatum_eq_self]
    exact (and_iff_left fun d hd => absurd hd List.not_mem_nil).trans hcolumn
  | literal s => exact iff_of_true ⟨rfl, fun d hd => absurd hd List.not_mem_nil⟩ trivial
  | null => exact iff_of_true ⟨rfl, fun d hd => absurd hd List.not_mem_nil⟩ trivial
  | nested e =>
    have ih := forall_iff_strict e
    rw [List.forall_mem_cons] at ih
    exact ih
  | call name plain args =>
    rw [arguments, Strict, ← forall_allArguments_iff args, and_comm]
    refine and_congr_right fun h => ?_
    rw [postgresText, oracleText, postgresTexts_eq m row args h, eq_comm, oracleDatum_eq_self]
  | concat left right =>
    rw [arguments, Strict, ← forall_arguments_iff left, ← forall_arguments_iff right, and_comm,
      List.forall_mem_append, and_assoc]
    refine and_congr_right fun hl => and_congr_right fun hr => ?_
    have hsome := oracleText_ne_none_iff m row (concat left right)
    rw [operands] at hsome
    rw [← hsome, postgresText, oracleText, getD_postgresText m row left hl,
      getD_postgresText m row right hr, eq_comm, oracleDatum_eq_self, oracleDatum_some_ne_none]
    exact not_congr Option.some_inj

/-- **The arguments in an operand are right** exactly under the condition. -/
theorem forall_arguments_iff (e : Operand) :
    (∀ d ∈ e.arguments, d.postgresText m row = d.oracleText m row) ↔ e.Loose m row := by
  match e with
  | column c => exact iff_of_true (fun d hd => absurd hd List.not_mem_nil) trivial
  | literal s => exact iff_of_true (fun d hd => absurd hd List.not_mem_nil) trivial
  | null => exact iff_of_true (fun d hd => absurd hd List.not_mem_nil) trivial
  | nested e => exact forall_arguments_iff e
  | call name plain args => exact forall_allArguments_iff args
  | concat left right =>
    rw [arguments, Loose, ← forall_arguments_iff left, ← forall_arguments_iff right,
      List.forall_mem_append]

/-- Arguments are right exactly under the condition. -/
theorem forall_allArguments_iff (es : List Operand) :
    (∀ d ∈ allArguments es, d.postgresText m row = d.oracleText m row) ↔ AllStrict m row es := by
  match es with
  | [] => exact iff_of_true (fun d hd => absurd hd List.not_mem_nil) trivial
  | e :: es =>
    rw [allArguments, AllStrict, ← forall_iff_strict e, ← forall_allArguments_iff es,
      List.forall_mem_append]

end

end Condition

end Operand

/-! ### Where a concatenation stands -/

/-- A text, or a condition on texts. -/
inductive Phrase
  | text (e : Operand)
  | compare (op : BinaryOperator) (comparison : isComparison op = true) (left right : Operand)
  | isNull (e : Operand)
  | isNotNull (e : Operand)

namespace Phrase

variable {κ : Type}

/-- The expression that is written. -/
def expr : Phrase → Expr κ
  | text e => e.expr
  | compare op _ left right => .binaryOp left.expr op right.expr
  | isNull e => .test .isNull e.expr
  | isNotNull e => .test .isNotNull e.expr

/-- The texts in it. -/
def texts : Phrase → List Operand
  | text e => [e]
  | compare _ _ left right => [left, right]
  | isNull e => [e]
  | isNotNull e => [e]

/-- What Oracle makes of it. -/
def oracle (m : Meaning) (row : Row) : Phrase → Val
  | text e => .datum (e.oracleText m row)
  | compare op _ left right =>
    .truth (compareData m op (left.oracleText m row) (right.oracleText m row))
  | isNull e => .truth (some (e.oracleText m row).isNone)
  | isNotNull e => .truth (some (e.oracleText m row).isSome)

/-- **PostgreSQL makes of it, and of the texts in it, what Oracle makes.** -/
def Right (translateQuery : κ → Except Error κ) (m : Meaning) (row : Row) (p : Phrase) : Prop :=
  (∃ e', rewriteExpr translateQuery p.expr = .ok e' ∧ eval m row e' = some (p.oracle m row)) ∧
    ∀ e ∈ p.texts, e.Right translateQuery m row

/-- Each concatenation that is no operand of another one has an operand that is neither `NULL` nor
empty, and nothing else outside of concatenations is the empty text. -/
def Strict (m : Meaning) (row : Row) (p : Phrase) : Prop := ∀ e ∈ p.texts, e.Strict m row

/-- A comparison stays. -/
lemma finishBinaryOp_of_comparison {op : BinaryOperator} (h : isComparison op = true)
    (l r : Expr κ) : finishBinaryOp l op r = .binaryOp l op r := by
  cases op <;> first | rfl | exact absurd h Bool.false_ne_true

lemma eval_of_comparison {op : BinaryOperator} (h : isComparison op = true) {m : Meaning}
    {row : Row} {l r : Expr κ} {a b : Datum} (hl : eval m row l = some (.datum a))
    (hr : eval m row r = some (.datum b)) :
    eval m row (.binaryOp l op r) = some (.truth (compareData m op a b)) := by
  have heval : eval m row (.binaryOp l op r) =
      ((eval m row l) >>= fun v => v.datum? >>= fun a => (eval m row r) >>= fun w =>
        w.datum? >>= fun b => pure (Val.truth (compareData m op a b))) := by
    cases op <;> first | rfl | exact absurd h Bool.false_ne_true
  rw [heval, hl, hr]
  rfl

/-- What is looked at is right where it stands. -/
lemma value_right {translateQuery : κ → Except Error κ} {m : Meaning} {row : Row} {p : Phrase}
    (h : ∀ e ∈ p.texts, e.postgresText m row = e.oracleText m row) :
    ∃ e', rewriteExpr translateQuery p.expr = .ok e' ∧ eval m row e' = some (p.oracle m row) := by
  cases p with
  | text e =>
    refine ⟨e.rewritten, e.rewriteExpr_expr translateQuery, ?_⟩
    rw [e.eval_rewritten, h e (List.mem_singleton_self e)]
    rfl
  | compare op comparison left right =>
    refine ⟨.binaryOp left.rewritten op right.rewritten, ?_, ?_⟩
    · rw [expr, rewriteExpr, left.rewriteExpr_expr translateQuery,
        right.rewriteExpr_expr translateQuery]
      exact congrArg Except.ok (finishBinaryOp_of_comparison comparison _ _)
    · rw [eval_of_comparison comparison (left.eval_rewritten m row) (right.eval_rewritten m row),
        h left List.mem_cons_self,
        h right (List.mem_cons_of_mem _ (List.mem_singleton_self right))]
      rfl
  | isNull e =>
    refine ⟨.test .isNull e.rewritten, ?_, ?_⟩
    · rw [expr, rewriteExpr, e.rewriteExpr_expr translateQuery]
      rfl
    · rw [eval, e.eval_rewritten, h e (List.mem_singleton_self e)]
      rfl
  | isNotNull e =>
    refine ⟨.test .isNotNull e.rewritten, ?_, ?_⟩
    · rw [expr, rewriteExpr, e.rewriteExpr_expr translateQuery]
      rfl
    · rw [eval, e.eval_rewritten, h e (List.mem_singleton_self e)]
      rfl

end Phrase

/-- **PostgreSQL makes the same of what is rewritten exactly where some operand of each
concatenation is neither `NULL` nor empty.** -/
theorem right_iff_strict {κ : Type} (translateQuery : κ → Except Error κ) (m : Meaning) (row : Row)
    (p : Phrase) : p.Right translateQuery m row ↔ p.Strict m row := by
  have hright : ∀ e : Operand, e.Right translateQuery m row ↔ e.Strict m row := fun e =>
    (e.right_iff_texts m row translateQuery).trans (e.forall_iff_strict m row)
  constructor
  · intro h e he
    exact (hright e).1 (h.2 e he)
  · intro h
    refine ⟨Phrase.value_right fun e he => ?_, fun e he => (hright e).2 (h e he)⟩
    exact (e.forall_iff_strict m row).2 (h e he) e List.mem_cons_self

/-- `a || b` with two columns that are `NULL` is the empty text, and `a || b IS NULL` false. -/
theorem nulls_not_right :
    let m : Meaning := ⟨fun _ _ => none, fun _ _ _ => true⟩
    let concatenation : Operand :=
      .concat (.column (.qualified ["t", "a"])) (.column (.qualified ["t", "b"]))
    let p : Phrase := .isNull concatenation
    p.oracle m (fun _ => none) = .truth (some true) ∧
      (rewriteExpr (fun q : Unit => .ok q) p.expr).toOption.bind (eval m fun _ => none) =
        some (.truth (some false)) ∧
      ¬ p.Right (fun q : Unit => .ok q) m fun _ => none := by
  intro m concatenation p
  have hfalse : (rewriteExpr (fun q : Unit => .ok q) p.expr).toOption.bind (eval m fun _ => none) =
      some (.truth (some false)) := by
    rfl
  refine ⟨rfl, hfalse, ?_⟩
  rintro ⟨⟨e', he, heval⟩, -⟩
  rw [he, Except.toOption, Option.bind_some, heval] at hfalse
  cases hfalse

end DbSaci.Translate.Concat
