import DbSaci.Sql.DateValues
import DbSaci.Translate.RewriteExpr

set_option relaxedAutoImplicit false
set_option autoImplicit false

/-!
# Date arithmetic

In Oracle dates differ by a number of days, which is a number like any other. `rewrite_expr` looks
at the shape of an operand to tell a date from a number: what has a date in a sum counts as a date,
also the difference of two dates; and a difference that has become a quotient is neither.

## Main definitions

* `Source` — sums and differences of dates and numbers that are well typed in Oracle.
* `Source.value` — the date or the number of days that they are.
* `eval` — what PostgreSQL makes of an expression.
* `Source.shape` — what an expression is rewritten to, if that is well typed.
* `Source.Right` — PostgreSQL makes the same of it.

## Main results

* `Source.rewritten_spec` — an expression is rewritten to its shape.
* `right_iff` — PostgreSQL makes the same of it exactly where it has the right shape.
* `difference_plus_one_not_right` — a number behind a difference of two dates.
-/

namespace DbSaci.Translate.DateArithmetic

open DbSaci.Sql (NumberLit UnaryOperator)
open DbSaci.Sql.Syntax DbSaci.Sql.Dates DbSaci.Translate.Syntax

/-! ### Oracle -/

/-- A point in time, or a number of days. -/
inductive Ty
  | date | number
  deriving DecidableEq, Repr

/-- The type of a sum. -/
def Ty.plus : Ty → Ty → Option Ty
  | date, number | number, date => some date
  | number, number => some number
  | date, date => none

/-- The type of a difference. -/
def Ty.minus : Ty → Ty → Option Ty
  | date, number => some date
  | date, date | number, number => some number
  | number, date => none

/-- A text that is not empty. -/
abbrev Solid := {s : String // s.toList.isEmpty = false}

/-- An expression that is well typed. `currentTimestamp` is what is written for `SYSDATE` before
expressions are rewritten. -/
inductive Source : Ty → Type
  | date (text : String) : Source .date
  | timestamp (text : String) : Source .date
  | sysdate : Source .date
  | currentTimestamp : Source .date
  | toDate (text format : Solid) : Source .date
  | number (n : NumberLit) : Source .number
  | nested {ty : Ty} (e : Source ty) : Source ty
  | plus {a b c : Ty} (typed : a.plus b = some c) (l : Source a) (r : Source b) : Source c
  | minus {a b c : Ty} (typed : a.minus b = some c) (l : Source a) (r : Source b) : Source c

/-- What the literals, the clock and the functions give, in days since the epoch. -/
structure Env where
  date : String → ℤ
  timestamp : String → ℚ
  now : ℚ
  toTimestamp : String → String → ℚ

variable {κ : Type} (env : Env)

namespace Source

/-- **The days Oracle makes of it**: since the epoch for a date, and their number otherwise. -/
def value : {ty : Ty} → Source ty → ℚ
  | _, date text => env.date text
  | _, timestamp text => env.timestamp text
  | _, sysdate => env.now
  | _, currentTimestamp => env.now
  | _, toDate text format => env.toTimestamp text format
  | _, number n => n.value
  | _, nested e => e.value
  | _, plus _ l r => l.value + r.value
  | _, minus _ l r => l.value - r.value

/-- The expression that is written. -/
def expr : {ty : Ty} → Source ty → Expr κ
  | _, date text => .typedString .date text
  | _, timestamp text => .typedString .timestamp text
  | _, sysdate => .identifier "SYSDATE"
  | _, currentTimestamp => .function ["CURRENT_TIMESTAMP"] .none none none []
  | _, toDate text format => .function ["TO_DATE"]
      (.list [.unnamed (.value (.singleQuotedString text)),
        .unnamed (.value (.singleQuotedString format))]) none none []
  | _, number n => .value (.number n)
  | _, nested e => .nested e.expr
  | _, plus _ l r => .binaryOp l.expr .plus r.expr
  | _, minus _ l r => .binaryOp l.expr .minus r.expr

/-- The expression it is rewritten to. -/
def rewritten : {ty : Ty} → Source ty → Expr κ
  | _, date text => .typedString .date text
  | _, timestamp text => .typedString .timestamp text
  | _, sysdate => .identifier "SYSDATE"
  | _, currentTimestamp => .function ["CURRENT_TIMESTAMP"] .none none none []
  | _, toDate text format => .cast (call "to_timestamp" [.value (.singleQuotedString text),
      .value (.singleQuotedString format)]) .timestamp
  | _, number n => .value (.number n)
  | _, nested e => .nested e.rewritten
  | _, plus _ l r => finishBinaryOp l.rewritten .plus r.rewritten
  | _, minus _ l r => finishBinaryOp l.rewritten .minus r.rewritten

/-- **What is rewritten to what.** -/
theorem rewriteExpr_expr (translateQuery : κ → Except Error κ) {ty : Ty} (e : Source ty) :
    rewriteExpr translateQuery e.expr = .ok e.rewritten := by
  induction e with
  | date text => rfl
  | timestamp text => rfl
  | sysdate => rfl
  | currentTimestamp => rfl
  | toDate text format =>
    obtain ⟨t, ht⟩ := text
    obtain ⟨f, hf⟩ := format
    have harg : ∀ {s : String}, s.toList.isEmpty = false →
        rewriteExpr translateQuery (.value (.singleQuotedString s) : Expr κ) =
          .ok (.value (.singleQuotedString s)) := by
      intro s hs
      rw [rewriteExpr, isEmptyText, hs]
      rfl
    rw [expr, rewriteExpr, rewriteArgs, harg ht, rewriteArgs, harg hf]
    rfl
  | number n => rfl
  | nested e ih =>
    rw [expr, rewriteExpr, ih]
    rfl
  | plus typed l r ihl ihr =>
    rw [expr, rewriteExpr, ihl, ihr]
    rfl
  | minus typed l r ihl ihr =>
    rw [expr, rewriteExpr, ihl, ihr]
    rfl

end Source

/-! ### PostgreSQL -/

/-- What PostgreSQL makes of an expression of dates and numbers. -/
def eval : Expr κ → Option PgVal
  | .typedString .date text => some (.date (env.date text))
  | .typedString .timestamp text => some (.timestamp (env.timestamp text))
  | .identifier name => if sameWord name "SYSDATE" then some (.timestamp env.now) else none
  | .function name .none none none [] =>
    if name.lastIs "CURRENT_TIMESTAMP" then some (.timestamp env.now) else none
  | .cast (.function name (.list [.unnamed (.value (.singleQuotedString text)),
      .unnamed (.value (.singleQuotedString format))]) none none []) .timestamp =>
    if name.lastIs "to_timestamp" then some (.timestamp (env.toTimestamp text format)) else none
  | .value (.number n) => match n.point with
    | none => some (.integer n.mantissa)
    | some _ => some (.numeric n.value)
  | .nested e => eval e
  | .binaryOp l .plus r => do (← eval l).add (← eval r)
  | .binaryOp l .minus r => do (← eval l).sub (← eval r)
  | .binaryOp l .multiply r => do (← eval l).mul (← eval r)
  | .binaryOp l .divide r => do (← eval l).div (← eval r)
  | .other .extract [e] [] => do (← eval e).epoch
  | .other .interval [.value (.singleQuotedString text)] [] =>
    if text = "1 day" then some (.interval 1) else none
  | _ => none

/-! ### Shapes -/

/-- What an expression is rewritten to. -/
inductive Shape
  /-- A literal of a date, in parentheses or not. -/
  | literalDay
  /-- A date. -/
  | day
  /-- A timestamp. -/
  | moment
  /-- A date that has become a number of days since the epoch. -/
  | sinceEpoch
  /-- Such a number with a difference of literals added to it or subtracted from it. -/
  | sinceEpochAndDays
  /-- Literals of numbers. -/
  | count
  /-- A difference of literals of dates, or a sum of some. -/
  | days
  /-- A difference of which one side is a timestamp, with numbers or not. -/
  | fraction
  /-- Such a number with a difference of literals added to it or subtracted from it. -/
  | fractionAndDays
  deriving DecidableEq, Repr

namespace Shape

/-- The shape of a sum, if it is well typed in PostgreSQL. -/
def plus : Shape → Shape → Option Shape
  | count, count => some count
  | count, fraction | fraction, count | fraction, fraction => some fraction
  | days, days => some days
  | days, fraction | fraction, days | days, fractionAndDays | fractionAndDays, days =>
    some fractionAndDays
  | fraction, fractionAndDays | fractionAndDays, fraction | fractionAndDays, fractionAndDays =>
    some fractionAndDays
  | literalDay, count | day, count | moment, count => some moment
  | count, literalDay | count, day | count, moment => some moment
  | literalDay, days | day, days | days, literalDay | days, day => some day
  | sinceEpoch, count | sinceEpoch, fraction | count, sinceEpoch | fraction, sinceEpoch =>
    some sinceEpoch
  | sinceEpoch, days | sinceEpoch, fractionAndDays | days, sinceEpoch
  | fractionAndDays, sinceEpoch => some sinceEpochAndDays
  | sinceEpochAndDays, fraction | sinceEpochAndDays, days | sinceEpochAndDays, fractionAndDays =>
    some sinceEpochAndDays
  | fraction, sinceEpochAndDays | days, sinceEpochAndDays | fractionAndDays, sinceEpochAndDays =>
    some sinceEpochAndDays
  | _, _ => none

/-- The shape of a difference, if it is well typed in PostgreSQL. -/
def minus : Shape → Shape → Option Shape
  | count, count => some count
  | count, fraction | fraction, count | fraction, fraction => some fraction
  | days, fraction | fraction, days | fractionAndDays, fraction | fraction, fractionAndDays =>
    some fractionAndDays
  | literalDay, count | day, count | moment, count => some moment
  | literalDay, days | day, days => some sinceEpoch
  | sinceEpoch, count | sinceEpoch, fraction => some sinceEpoch
  | sinceEpoch, days | sinceEpoch, fractionAndDays => some sinceEpochAndDays
  | sinceEpochAndDays, fraction => some sinceEpochAndDays
  | literalDay, literalDay => some days
  | moment, literalDay | moment, day | moment, moment | literalDay, moment | day, moment =>
    some fraction
  | sinceEpoch, sinceEpoch => some fraction
  | sinceEpoch, sinceEpochAndDays | sinceEpochAndDays, sinceEpoch => some fractionAndDays
  | _, _ => none

/-- The type in PostgreSQL. -/
def kind : Shape → Kind
  | literalDay | day => .date
  | moment => .timestamp
  | count => .literal
  | days => .integer
  | sinceEpoch | sinceEpochAndDays | fraction | fractionAndDays => .numeric

/-- The type in Oracle. -/
def ty : Shape → Ty
  | literalDay | day | moment | sinceEpoch | sinceEpochAndDays => .date
  | count | days | fraction | fractionAndDays => .number

/-- Whether it counts as a date. -/
def dated : Shape → Bool
  | count | fraction | sinceEpoch => false
  | _ => true

/-- A date is one in PostgreSQL as well. -/
def Proper (s : Shape) : Prop := s ≠ sinceEpoch ∧ s ≠ sinceEpochAndDays

instance (s : Shape) : Decidable s.Proper := inferInstanceAs (Decidable (_ ∧ _))

end Shape

/-- An expression has a shape, and is so many days. -/
structure HasShape (s : Shape) (e : Expr κ) (days : ℚ) : Prop where
  dated : isDateExpr e = s.dated
  plain : isPlainDate e = decide (s = .literalDay)
  numberish : isNumberish e = decide (s = .count)
  value : ∃ v, eval env e = some v ∧ s.kind.Has v ∧ v.days = days

/-- The shape of an expression that is well typed in Oracle, if it is rewritten to one that is well
typed in PostgreSQL. -/
def Source.shape : {ty : Ty} → Source ty → Option Shape
  | _, date _ => some .literalDay
  | _, timestamp _ => some .moment
  | _, sysdate => some .moment
  | _, currentTimestamp => some .moment
  | _, toDate _ _ => some .moment
  | _, number _ => some .count
  | _, nested e => e.shape
  | _, plus _ l r => do (← l.shape).plus (← r.shape)
  | _, minus _ l r => do (← l.shape).minus (← r.shape)

/-! ### Operators -/

variable {env : Env}

/-- An expression is of a type, and so many days. -/
def Reads (env : Env) (e : Expr κ) (k : Kind) (days : ℚ) : Prop :=
  ∃ v, eval env e = some v ∧ k.Has v ∧ v.days = days

lemma eval_plus (l r : Expr κ) : eval env (.binaryOp l .plus r) =
    (eval env l).bind fun x => (eval env r).bind fun y => x.add y := rfl

lemma eval_minus (l r : Expr κ) : eval env (.binaryOp l .minus r) =
    (eval env l).bind fun x => (eval env r).bind fun y => x.sub y := rfl

lemma eval_mulByOneDay (e : Expr κ) :
    eval env (mulByOneDay e) = (eval env e).bind fun x => x.mul (.interval 1) := rfl

/-- The seconds of a difference, in days. -/
lemma eval_extract (e : Expr κ) : eval env (.binaryOp (.other .extract [.nested e] []) .divide
      (.value (.number ⟨86400, none⟩))) =
    (eval env e).bind fun x => x.epoch.bind fun seconds => seconds.div (.integer 86400) := by
  show ((eval env e).bind PgVal.epoch).bind (fun seconds => seconds.div (.integer 86400)) = _
  exact Option.bind_assoc _ _ _

lemma reads_mulByOneDay {e : Expr κ} {days : ℚ} (h : Reads env e .literal days) :
    Reads env (mulByOneDay e) .interval days := by
  obtain ⟨x, hx, hkind, rfl⟩ := h
  rw [Reads, eval_mulByOneDay, hx]
  exact Kind.mul_has hkind

section Operators

variable {l r : Expr κ} {k m : Kind} {x y : ℚ}

lemma gives_plus (hmix : Kind.Mixes k m) (hl : Reads env l k x) (hr : Reads env r m y) :
    Kind.Gives (k.add m) (eval env (.binaryOp l .plus r)) (x + y) := by
  obtain ⟨a, ha, hka, rfl⟩ := hl
  obtain ⟨b, hb, hkb, rfl⟩ := hr
  rw [eval_plus, ha, hb]
  exact Kind.add_has hmix hka hkb

lemma gives_minus (hmix : Kind.Mixes k m) (hl : Reads env l k x) (hr : Reads env r m y) :
    Kind.Gives (k.sub m) (eval env (.binaryOp l .minus r)) (x - y) := by
  obtain ⟨a, ha, hka, rfl⟩ := hl
  obtain ⟨b, hb, hkb, rfl⟩ := hr
  rw [eval_minus, ha, hb]
  exact Kind.sub_has hmix hka hkb

/-- The type of the seconds of a value, in days. -/
def epochKind (k : Kind) : Option Kind := if k.hasEpoch then some .numeric else none

lemma gives_extract (hmix : Kind.Mixes k m) (hl : Reads env l k x) (hr : Reads env r m y) :
    Kind.Gives ((k.sub m).bind epochKind)
      (eval env (.binaryOp (.other .extract [.nested (.binaryOp l .minus r)] []) .divide
        (.value (.number ⟨86400, none⟩)))) (x - y) := by
  have hminus := gives_minus hmix hl hr
  rw [eval_extract]
  cases hkind : k.sub m with
  | none =>
    rw [hkind] at hminus
    rw [show eval env (.binaryOp l .minus r) = none from hminus]
    rfl
  | some d =>
    rw [hkind] at hminus
    obtain ⟨z, hz, hkz, hdays⟩ := hminus
    rw [hz, ← hdays]
    exact Kind.epoch_has hkz

end Operators

/-! ### The type of what is rewritten -/

namespace Shape

/-- The type of a sum that is rewritten. -/
def sumKind (s t : Shape) : Option Kind :=
  if s.dated ∧ t = count then s.kind.add .interval
  else if t.dated ∧ s = count then Kind.interval.add t.kind
  else s.kind.add t.kind

/-- The type of a difference that is rewritten. -/
def differenceKind (s t : Shape) : Option Kind :=
  if s.dated ∧ t.dated ∧ ¬(s = literalDay ∧ t = literalDay) then
    (s.kind.sub t.kind).bind epochKind
  else if s.dated ∧ t = count then s.kind.sub .interval
  else if t.dated ∧ s = count then Kind.interval.sub t.kind
  else s.kind.sub t.kind

/-- Whether a difference counts as a date. -/
def differenceDated (s t : Shape) : Bool :=
  if s.dated ∧ t.dated ∧ ¬(s = literalDay ∧ t = literalDay) then false else s.dated || t.dated

/-- A shape that an operator gives, among its types. -/
structure Fits (u : Shape) (kind : Option Kind) (c : Ty) (dated number : Bool) : Prop where
  kind : kind = some u.kind
  ty : u.ty = c
  dated : u.dated = dated
  notLiteral : u ≠ literalDay
  count : decide (u = count) = number

/-- **The shape of a sum says what its type is.** -/
lemma plus_fits {s t : Shape} {c : Ty} (typed : s.ty.plus t.ty = some c) :
    match s.plus t with
    | some u => u.Fits (sumKind s t) c (s.dated || t.dated) (decide (s = count) && decide (t = count))
    | none => sumKind s t = none := by
  cases s <;> cases t <;> cases typed <;> first
    | rfl
    | exact ⟨rfl, rfl, rfl, nofun, rfl⟩

/-- **The shape of a difference says what its type is.** -/
lemma minus_fits {s t : Shape} {c : Ty} (typed : s.ty.minus t.ty = some c) :
    match s.minus t with
    | some u => u.Fits (differenceKind s t) c (differenceDated s t)
        (decide (s = count) && decide (t = count))
    | none => differenceKind s t = none := by
  cases s <;> cases t <;> cases typed <;> first
    | rfl
    | exact ⟨rfl, rfl, rfl, nofun, rfl⟩

end Shape

/-! ### One operator -/

section Step

variable {l r : Expr κ} {s t : Shape} {x y : ℚ} {c : Ty}

lemma Shape.not_count_of_dated {s : Shape} (h : s.dated = true) : s ≠ .count := by
  rintro rfl
  cases h

/-- Where no literal of a number is scaled, none meets a date. -/
lemma mixes_of_not_scaled (h : ¬(s.dated = true ∧ t = .count)) (h' : ¬(t.dated = true ∧ s = .count)) :
    Kind.Mixes s.kind t.kind := by
  rintro (⟨hs, ht⟩ | ⟨hs, ht⟩)
  · cases s <;> cases hs
    cases t <;> cases ht <;> exact h' ⟨rfl, rfl⟩
  · cases t <;> cases ht
    cases s <;> cases hs <;> exact h ⟨rfl, rfl⟩

lemma mixes_interval (k : Kind) : Kind.Mixes k .interval ∧ Kind.Mixes .interval k := by
  refine ⟨?_, ?_⟩
  · rintro (⟨-, h⟩ | ⟨-, h⟩) <;> cases h
  · rintro (⟨h, -⟩ | ⟨h, -⟩) <;> cases h

/-- A literal of a number that is scaled is an interval of so many days. -/
lemma HasShape.scaled (hr : HasShape env t r y) (ht : t = .count) :
    Reads env (mulByOneDay r) .interval y := by
  subst ht
  exact reads_mulByOneDay hr.value

/-- A sum as it is rewritten, with operands of some shape. -/
lemma finish_plus (hl : HasShape env s l x) (hr : HasShape env t r y) :
    finishBinaryOp l .plus r =
      if s.dated ∧ t = .count then .binaryOp l .plus (mulByOneDay r)
      else if t.dated ∧ s = .count then .binaryOp (mulByOneDay l) .plus r
      else .binaryOp l .plus r := by
  have hfinish : finishBinaryOp l .plus r =
      if isDateExpr l ∧ isNumberish r then .binaryOp l .plus (mulByOneDay r)
      else if isDateExpr r ∧ isNumberish l then .binaryOp (mulByOneDay l) .plus r
      else .binaryOp l .plus r := by
    simp only [finishBinaryOp, reduceCtorEq, false_and, if_false]
  simp only [hfinish, hl.dated, hr.dated, hl.numberish, hr.numberish, decide_eq_true_eq]

/-- A difference as it is rewritten, with operands of some shape. -/
lemma finish_minus (hl : HasShape env s l x) (hr : HasShape env t r y) :
    finishBinaryOp l .minus r =
      if s.dated ∧ t.dated ∧ ¬(s = .literalDay ∧ t = .literalDay) then
        .binaryOp (.other .extract [.nested (.binaryOp l .minus r)] []) .divide
          (.value (.number ⟨86400, none⟩))
      else if s.dated ∧ t = .count then .binaryOp l .minus (mulByOneDay r)
      else if t.dated ∧ s = .count then .binaryOp (mulByOneDay l) .minus r
      else .binaryOp l .minus r := by
  have hfinish : finishBinaryOp l .minus r =
      if isDateExpr l ∧ isDateExpr r ∧ ¬(isPlainDate l ∧ isPlainDate r) then
        .binaryOp (.other .extract [.nested (.binaryOp l .minus r)] []) .divide
          (.value (.number ⟨86400, none⟩))
      else if isDateExpr l ∧ isNumberish r then .binaryOp l .minus (mulByOneDay r)
      else if isDateExpr r ∧ isNumberish l then .binaryOp (mulByOneDay l) .minus r
      else .binaryOp l .minus r := by
    simp only [finishBinaryOp, true_and]
  simp only [hfinish, hl.dated, hr.dated, hl.plain, hr.plain, hl.numberish, hr.numberish,
    decide_eq_true_eq]

/-- What is put together from types and flags has the shape. -/
lemma hasShape_of_fits {e : Expr κ} {u : Shape} {kind : Option Kind} {dated number : Bool} {days : ℚ}
    (hfits : u.Fits kind c dated number) (hgives : Kind.Gives kind (eval env e) days)
    (hdated : isDateExpr e = dated) (hplain : isPlainDate e = false)
    (hnumberish : isNumberish e = number) : HasShape env u e days ∧ u.ty = c := by
  refine ⟨⟨hdated.trans hfits.dated.symm, ?_, hnumberish.trans hfits.count.symm, ?_⟩, hfits.ty⟩
  · rw [hplain]
    exact (decide_eq_false hfits.notLiteral).symm
  · rw [hfits.kind] at hgives
    exact hgives

/-- What a node of two operands of some shape has become. -/
def Becomes (env : Env) (e : Expr κ) (shape : Option Shape) (c : Ty) (days : ℚ) : Prop :=
  match shape with
  | some u => HasShape env u e days ∧ u.ty = c
  | none => eval env e = none

/-- **A sum** has become what the shapes say. -/
theorem becomes_plus (typed : s.ty.plus t.ty = some c) (hl : HasShape env s l x)
    (hr : HasShape env t r y) :
    Becomes env (finishBinaryOp l .plus r) (s.plus t) c (x + y) := by
  have hgives : Kind.Gives (s.sumKind t) (eval env (finishBinaryOp l .plus r)) (x + y) := by
    rw [finish_plus hl hr, Shape.sumKind]
    split_ifs with hright hleft
    · exact gives_plus (mixes_interval _).1 hl.value (hr.scaled hright.2)
    · exact gives_plus (mixes_interval _).2 (hl.scaled hleft.2) hr.value
    · exact gives_plus (mixes_of_not_scaled hright hleft) hl.value hr.value
  have hflags : isDateExpr (finishBinaryOp l .plus r) = (s.dated || t.dated) ∧
      isPlainDate (finishBinaryOp l .plus r) = false ∧
      isNumberish (finishBinaryOp l .plus r) = (decide (s = .count) && decide (t = .count)) := by
    rw [finish_plus hl hr]
    split_ifs with hright hleft
    · refine ⟨?_, rfl, ?_⟩
      · show (isDateExpr l || false) = _
        rw [hl.dated, hright.1]
        rfl
      · show (isNumberish l && (isNumberish (.nested r : Expr κ) && false)) = _
        rw [decide_eq_false (Shape.not_count_of_dated hright.1), Bool.and_false, Bool.and_false]
        rfl
    · refine ⟨?_, rfl, ?_⟩
      · show (false || isDateExpr r) = _
        rw [hr.dated, hleft.1, Bool.or_true, Bool.or_true]
      · show ((isNumberish (.nested l : Expr κ) && false) && isNumberish r) = _
        rw [decide_eq_false (Shape.not_count_of_dated hleft.1), Bool.and_false, Bool.and_false]
        rfl
    · refine ⟨?_, rfl, ?_⟩
      · show (isDateExpr l || isDateExpr r) = _
        rw [hl.dated, hr.dated]
      · show (isNumberish l && isNumberish r) = _
        rw [hl.numberish, hr.numberish]
  have hfits := Shape.plus_fits typed
  cases hshape : s.plus t with
  | none =>
    rw [hshape] at hfits
    rw [hfits] at hgives
    exact hgives
  | some u =>
    rw [hshape] at hfits
    exact hasShape_of_fits hfits hgives hflags.1 hflags.2.1 hflags.2.2

/-- **A difference** has become what the shapes say. -/
theorem becomes_minus (typed : s.ty.minus t.ty = some c) (hl : HasShape env s l x)
    (hr : HasShape env t r y) :
    Becomes env (finishBinaryOp l .minus r) (s.minus t) c (x - y) := by
  have hgives : Kind.Gives (s.differenceKind t) (eval env (finishBinaryOp l .minus r)) (x - y) := by
    rw [finish_minus hl hr, Shape.differenceKind]
    split_ifs with hdates hright hleft
    · have hmix : Kind.Mixes s.kind t.kind := mixes_of_not_scaled
        (fun h => Shape.not_count_of_dated hdates.2.1 h.2)
        fun h => Shape.not_count_of_dated hdates.1 h.2
      exact gives_extract hmix hl.value hr.value
    · exact gives_minus (mixes_interval _).1 hl.value (hr.scaled hright.2)
    · exact gives_minus (mixes_interval _).2 (hl.scaled hleft.2) hr.value
    · exact gives_minus (mixes_of_not_scaled hright hleft) hl.value hr.value
  have hflags : isDateExpr (finishBinaryOp l .minus r) = s.differenceDated t ∧
      isPlainDate (finishBinaryOp l .minus r) = false ∧
      isNumberish (finishBinaryOp l .minus r) = (decide (s = .count) && decide (t = .count)) := by
    rw [finish_minus hl hr, Shape.differenceDated]
    split_ifs with hdates hright hleft
    · refine ⟨rfl, rfl, ?_⟩
      rw [decide_eq_false (Shape.not_count_of_dated hdates.1)]
      rfl
    · refine ⟨?_, rfl, ?_⟩
      · show (isDateExpr l || false) = _
        rw [hl.dated, hright.1]
        rfl
      · show (isNumberish l && (isNumberish (.nested r : Expr κ) && false)) = _
        rw [decide_eq_false (Shape.not_count_of_dated hright.1), Bool.and_false, Bool.and_false]
        rfl
    · refine ⟨?_, rfl, ?_⟩
      · show (false || isDateExpr r) = _
        rw [hr.dated, hleft.1, Bool.or_true, Bool.or_true]
      · show ((isNumberish (.nested l : Expr κ) && false) && isNumberish r) = _
        rw [decide_eq_false (Shape.not_count_of_dated hleft.1), Bool.and_false, Bool.and_false]
        rfl
    · refine ⟨?_, rfl, ?_⟩
      · show (isDateExpr l || isDateExpr r) = _
        rw [hl.dated, hr.dated]
      · show (isNumberish l && isNumberish r) = _
        rw [hl.numberish, hr.numberish]
  have hfits := Shape.minus_fits typed
  cases hshape : s.minus t with
  | none =>
    rw [hshape] at hfits
    rw [hfits] at hgives
    exact hgives
  | some u =>
    rw [hshape] at hfits
    exact hasShape_of_fits hfits hgives hflags.1 hflags.2.1 hflags.2.2

/-- An operand that is not well typed makes the node so. -/
lemma eval_finish_eq_none (op : BinaryOperator) (hop : op = .plus ∨ op = .minus)
    (h : eval env l = none ∨ eval env r = none) : eval env (finishBinaryOp l op r) = none := by
  have hscaled : ∀ {e : Expr κ}, eval env e = none → eval env (mulByOneDay e) = none := by
    intro e he
    rw [eval_mulByOneDay, he]
    rfl
  have hplus : ∀ {l r : Expr κ}, eval env l = none ∨ eval env r = none →
      eval env (.binaryOp l .plus r) = none := by
    intro l r h
    rw [eval_plus]
    rcases h with h | h
    · rw [h]
      rfl
    · rw [h]
      cases eval env l <;> rfl
  have hminus : ∀ {l r : Expr κ}, eval env l = none ∨ eval env r = none →
      eval env (.binaryOp l .minus r) = none := by
    intro l r h
    rw [eval_minus]
    rcases h with h | h
    · rw [h]
      rfl
    · rw [h]
      cases eval env l <;> rfl
  rcases hop with rfl | rfl
  · simp only [finishBinaryOp, reduceCtorEq, false_and, if_false]
    split_ifs
    · exact hplus (h.imp_right hscaled)
    · exact hplus (h.imp_left hscaled)
    · exact hplus h
  · simp only [finishBinaryOp, true_and]
    split_ifs
    · rw [eval_extract, hminus h]
      rfl
    · exact hminus (h.imp_right hscaled)
    · exact hminus (h.imp_left hscaled)
    · exact hminus h

end Step

namespace Source

/-- **An expression is rewritten to its shape**, and to nothing well typed without one. -/
theorem rewritten_spec {ty : Ty} (e : Source ty) :
    Becomes env (e.rewritten : Expr κ) e.shape ty (e.value env) := by
  induction e with
  | date text => exact ⟨⟨rfl, rfl, rfl, _, rfl, ⟨_, rfl⟩, rfl⟩, rfl⟩
  | timestamp text => exact ⟨⟨rfl, rfl, rfl, _, rfl, ⟨_, rfl⟩, rfl⟩, rfl⟩
  | sysdate => exact ⟨⟨rfl, rfl, rfl, _, rfl, ⟨_, rfl⟩, rfl⟩, rfl⟩
  | currentTimestamp => exact ⟨⟨rfl, rfl, rfl, _, rfl, ⟨_, rfl⟩, rfl⟩, rfl⟩
  | toDate text format => exact ⟨⟨rfl, rfl, rfl, _, rfl, ⟨_, rfl⟩, rfl⟩, rfl⟩
  | number n =>
    obtain ⟨mantissa, _ | point⟩ := n
    · refine ⟨⟨rfl, rfl, rfl, _, rfl, Or.inl ⟨_, rfl⟩, ?_⟩, rfl⟩
      show ((mantissa : ℤ) : ℚ) = (⟨mantissa, none⟩ : NumberLit).value
      rw [NumberLit.value, Option.getD_none, pow_zero, div_one, Int.cast_natCast]
    · exact ⟨⟨rfl, rfl, rfl, _, rfl, Or.inr ⟨_, rfl⟩, rfl⟩, rfl⟩
  | nested e ih =>
    rw [shape]
    cases hshape : e.shape with
    | none =>
      rw [hshape] at ih
      exact ih
    | some u =>
      rw [hshape] at ih
      exact ⟨⟨ih.1.dated, ih.1.plain, ih.1.numberish, ih.1.value⟩, ih.2⟩
  | plus typed l r ihl ihr =>
    rw [shape]
    cases hl : l.shape with
    | none =>
      rw [hl] at ihl
      exact eval_finish_eq_none .plus (Or.inl rfl) (Or.inl ihl)
    | some s =>
      cases hr : r.shape with
      | none =>
        rw [hr] at ihr
        exact eval_finish_eq_none .plus (Or.inl rfl) (Or.inr ihr)
      | some t =>
        rw [hl] at ihl
        rw [hr] at ihr
        obtain ⟨hl, rfl⟩ := ihl
        obtain ⟨hr, rfl⟩ := ihr
        exact becomes_plus typed hl hr
  | minus typed l r ihl ihr =>
    rw [shape]
    cases hl : l.shape with
    | none =>
      rw [hl] at ihl
      exact eval_finish_eq_none .minus (Or.inr rfl) (Or.inl ihl)
    | some s =>
      cases hr : r.shape with
      | none =>
        rw [hr] at ihr
        exact eval_finish_eq_none .minus (Or.inr rfl) (Or.inr ihr)
      | some t =>
        rw [hl] at ihl
        rw [hr] at ihr
        obtain ⟨hl, rfl⟩ := ihl
        obtain ⟨hr, rfl⟩ := ihr
        exact becomes_minus typed hl hr

end Source

/-! ### What PostgreSQL makes of it -/

/-- A date is a date or a timestamp in PostgreSQL, and a number an integer or not. -/
def Ty.Has : Ty → PgVal → Prop
  | date, v => Kind.date.Has v ∨ Kind.timestamp.Has v
  | number, v => Kind.integer.Has v ∨ Kind.numeric.Has v

/-- **PostgreSQL makes the same date or number of days of what is rewritten.** -/
def Source.Right (translateQuery : κ → Except Error κ) (env : Env) {ty : Ty} (e : Source ty) :
    Prop :=
  ∃ e' v, rewriteExpr translateQuery e.expr = .ok e' ∧ eval env e' = some v ∧ ty.Has v ∧
    v.days = e.value env

/-- A value of a shape is of the type in Oracle, unless it is a date that has become a number. -/
lemma Shape.has_iff {s : Shape} {v : PgVal} (h : s.kind.Has v) : s.ty.Has v ↔ s.Proper := by
  have hproper : s.Proper ∧ s.ty.Has v ∨ ¬ s.Proper ∧ ¬ s.ty.Has v := by
    cases s with
    | literalDay | day => exact Or.inl ⟨by decide, Or.inl h⟩
    | moment => exact Or.inl ⟨by decide, Or.inr h⟩
    | days => exact Or.inl ⟨by decide, Or.inl h⟩
    | count => exact Or.inl ⟨by decide, h⟩
    | fraction | fractionAndDays => exact Or.inl ⟨by decide, Or.inr h⟩
    | sinceEpoch | sinceEpochAndDays =>
      obtain ⟨q, rfl⟩ := h
      refine Or.inr ⟨by decide, ?_⟩
      rintro (⟨d, hd⟩ | ⟨t, ht⟩)
      · cases hd
      · cases ht
  tauto

/-- **PostgreSQL makes the same of an expression exactly where it has a shape, and has not become a
number of days since the epoch.** -/
theorem right_iff (translateQuery : κ → Except Error κ) (env : Env) {ty : Ty} (e : Source ty) :
    e.Right translateQuery env ↔ ∃ s, e.shape = some s ∧ s.Proper := by
  have hspec : Becomes env (e.rewritten : Expr κ) e.shape ty (e.value env) := e.rewritten_spec
  constructor
  · rintro ⟨e', v, he, hv, hty, -⟩
    obtain rfl := Except.ok.inj ((e.rewriteExpr_expr translateQuery).symm.trans he)
    cases hshape : e.shape with
    | none =>
      rw [hshape] at hspec
      exact absurd (hspec.symm.trans hv) nofun
    | some s =>
      rw [hshape] at hspec
      obtain ⟨hs, rfl⟩ := hspec
      obtain ⟨w, hw, hkind, -⟩ := hs.value
      obtain rfl := Option.some.inj (hv.symm.trans hw)
      exact ⟨s, rfl, (Shape.has_iff hkind).1 hty⟩
  · rintro ⟨s, hshape, hproper⟩
    rw [hshape] at hspec
    obtain ⟨hs, rfl⟩ := hspec
    obtain ⟨v, hv, hkind, hdays⟩ := hs.value
    exact ⟨e.rewritten, v, e.rewriteExpr_expr translateQuery, hv, (Shape.has_iff hkind).2 hproper,
      hdays⟩

/-- `DATE '2024-01-10' - DATE '2024-01-03' + 1`: the difference counts as a date, so that the number
becomes an interval, which PostgreSQL does not add to an integer. -/
theorem difference_plus_one_not_right :
    let e : Source .number := .plus rfl (.minus rfl (.date "2024-01-10") (.date "2024-01-03"))
      (.number ⟨1, none⟩)
    ∀ env : Env, (rewriteExpr (fun q : Unit => .ok q) e.expr).toOption.bind (eval env) = none ∧
      ¬ e.Right (fun q : Unit => .ok q) env := by
  intro e env
  have hnone : (rewriteExpr (fun q : Unit => .ok q) e.expr).toOption.bind (eval env) = none := rfl
  refine ⟨hnone, ?_⟩
  rintro ⟨e', v, he, hv, -⟩
  rw [he, Except.toOption, Option.bind_some, hv] at hnone
  cases hnone

end DbSaci.Translate.DateArithmetic
