import DbSaci.Library.Barrier
import DbSaci.Translate.Correlation
import DbSaci.Translate.FullOuterJoin
import DbSaci.Translate.ProgramHeader

set_option relaxedAutoImplicit false
set_option autoImplicit false

/-!
# Triggers

`rewrite_plsql` makes a function of the body of a trigger. It takes the colon off the names of the
rows, and writes a `RETURN` in front of the last three letters `END` if it sees no `RETURN` in the
body.

## Main definitions

* `triggerHeader`, `rewriteTrigger` — the pass. What is done to any PL/SQL is a parameter.
* `Block` — a block by its statements, and whether a path through it returns no row.
* `Faithful` — what is meant.

## Main results

* `insertReturn_iff` — when the `RETURN` stands where it should, and only if it should.
* `trigger_faithful_iff` — when a body returns its row and nothing else of it changes.
-/

namespace DbSaci.Translate.Trigger

open Text
open Plsql (statementText)

/-! ### The pass -/

/-- What is read in front of the body of a trigger, and the text behind that. -/
structure Header where
  name : List Char
  timing : List Char
  events : List Char
  table : List Char
  refNew : Option (List Char)
  refOld : Option (List Char)
  forEachRow : Bool
  whenClause : List Char
  tail : List Char
  deriving DecidableEq

/-- When a trigger fires. -/
def timings : List (List Char × List (List Char)) :=
  [("BEFORE".toList, ["BEFORE".toList]), ("AFTER".toList, ["AFTER".toList]),
    ("INSTEAD OF".toList, ["INSTEAD".toList, "OF".toList])]

/-- `split_whitespace().next()`, and the text behind that word where it first stands. -/
def behindWord (s : List Char) : Option (List Char × List Char) :=
  (nextWord s).bind fun (w, _) => (find w s).map fun at_ => (w, trimStart (s.drop (at_ + w.length)))

/-- The loop over `NEW AS` and `OLD AS`. Each of them takes letters, so that there are fewer rounds
than letters. -/
def referencing :
    ℕ → Option (List Char) → Option (List Char) → List Char →
      Option (Option (List Char) × Option (List Char) × List Char)
  | 0, refNew, refOld, r => some (refNew, refOld, r)
  | fuel + 1, refNew, refOld, r =>
    match stripKw r ["NEW".toList, "AS".toList] with
    | some rest =>
      (nextWord rest).bind fun (w, behind) => referencing fuel (some w) refOld (trimStart behind)
    | none =>
      match stripKw r ["OLD".toList, "AS".toList] with
      | some rest =>
        (nextWord rest).bind fun (w, behind) => referencing fuel refNew (some w) (trimStart behind)
      | none => some (refNew, refOld, r)

/-- `FOR EACH ROW` or `FOR EACH STATEMENT`, and the text behind it. -/
def forEach (tail : List Char) : Bool × List Char :=
  match stripKw tail ["FOR".toList, "EACH".toList, "ROW".toList] with
  | some r => (true, r)
  | none =>
    match stripKw tail ["FOR".toList, "EACH".toList, "STATEMENT".toList] with
    | some r => (false, r)
    | none => (false, tail)

/-- The `WHEN` clause in parentheses, and the text behind it. -/
def whenOf (tail : List Char) : Option (List Char × List Char) :=
  match stripKw tail ["WHEN".toList] with
  | some r =>
    if (trimStart r).head? = some '(' then
      (matchingParen (trimStart r)).map fun close =>
        (" WHEN ".toList ++ (trimStart r).take (close + 1),
          trimStart ((trimStart r).drop (close + 1)))
    else some ([], tail)
  | none => some ([], tail)

/-- The part of `rewrite_plsql` that reads a trigger up to its body. -/
def triggerHeader (sql : List Char) : Option Header :=
  let t := statementText sql
  if startsWith "CREATE TRIGGER".toList t || startsWith "CREATE OR REPLACE TRIGGER".toList t then do
    let rest ← stripKw t ["CREATE".toList]
    let rest := (stripKw rest ["OR".toList, "REPLACE".toList]).getD rest
    let rest ← stripKw rest ["TRIGGER".toList]
    let (name, afterName) ← behindWord rest
    let (timing, afterTiming) ←
      timings.findSome? fun k => (stripKw afterName k.2).map fun r => (k.1, r)
    let onAt ← findTopLevelKw afterTiming "ON".toList
    let events := trim (afterTiming.take onAt)
    let afterOn := trimStart (afterTiming.drop (onAt + "ON".length))
    let (table, tail) ← behindWord afterOn
    let (refNew, refOld, tail) ←
      match stripKw tail ["REFERENCING".toList] with
      | some r => referencing r.length none none (trimStart r)
      | none => some (none, none, tail)
    let (forEachRow, tail) := forEach tail
    let (whenClause, tail) ← whenOf tail
    pure { name, timing, events, table, refNew, refOld, forEachRow, whenClause, tail }
  else none

/-- The body without what ends the statement. -/
def bodySource (tail : List Char) : List Char := (statementText tail).rdropWhile fun c => c = ';'

/-- What is written to return the row. -/
def returnRow : List Char := "RETURN COALESCE(NEW, OLD); ".toList

/-- The `RETURN` in front of the last `END`, if there is none in the body. -/
def insertReturn (body : List Char) : List Char :=
  if (find "RETURN ".toList (upper body)).isSome then body
  else
    match rfind "END".toList (upper body) with
    | some endAt => body.take endAt ++ returnRow ++ body.drop endAt
    | none => body

/-- The name of the function. -/
def fnName (h : Header) : List Char := h.name ++ "__dbsaci_fn".toList

/-- What is written in front of the body. -/
def functionHead (h : Header) : List Char :=
  "CREATE OR REPLACE FUNCTION ".toList ++ fnName h ++
    "() RETURNS trigger LANGUAGE plpgsql AS $dbsaci$ ".toList

/-- What is written behind the body: the end of the function, and the trigger that calls it. -/
def functionTail (h : Header) : List Char :=
  let level := if h.forEachRow then " FOR EACH ROW".toList else " FOR EACH STATEMENT".toList
  " $dbsaci$; DROP TRIGGER IF EXISTS ".toList ++ h.name ++ " ON ".toList ++ h.table ++
    "; CREATE TRIGGER ".toList ++ h.name ++ " ".toList ++ h.timing ++ " ".toList ++ h.events ++
    " ON ".toList ++ h.table ++ level ++ h.whenClause ++ " EXECUTE FUNCTION ".toList ++ fnName h ++
    "()".toList

/-- The function, and the trigger that calls it. -/
def emitted (h : Header) (body : List Char) : List Char :=
  functionHead h ++ (body ++ functionTail h)

/-- `rewrite_plsql` of a trigger. Once the rows have lost their colon, `common` stands for what is done
to the body of any program, and `call_bare_invocations` behind it; there is no result where that
fails. -/
def rewriteTrigger (common : List Char → Option (List Char)) (sql : List Char) :
    Option (List Char) :=
  (triggerHeader sql).bind fun h =>
    (common (unColon h.refNew h.refOld (bodySource h.tail))).map fun body =>
      emitted h (if h.forEachRow then insertReturn body else body)

/-! ### Blocks -/

mutual

/-- Statements: one without a `RETURN`, a `RETURN` with a row or without one, or branches, of which
one is always taken or perhaps none. -/
inductive Stmts where
  | nil
  | plain (t : List Char) (rest : Stmts)
  | ret (row : Bool) (t : List Char) (rest : Stmts)
  | branches (arms : Arms) (total : Bool) (closing : List Char) (rest : Stmts)

/-- Branches, each behind some text. -/
inductive Arms where
  | nil
  | arm (head : List Char) (body : Stmts) (rest : Arms)

end

mutual

/-- How statements are written. -/
def Stmts.text : Stmts → List Char
  | .nil => []
  | .plain t rest => t ++ rest.text
  | .ret _ t rest => t ++ rest.text
  | .branches arms _ closing rest => arms.text ++ (closing ++ rest.text)

/-- How branches are written. -/
def Arms.text : Arms → List Char
  | .nil => []
  | .arm head body rest => head ++ (body.text ++ rest.text)

end

mutual

/-- A path through the statements ends behind them. -/
def Stmts.falls : Stmts → Bool
  | .nil => true
  | .plain _ rest => rest.falls
  | .ret _ _ _ => false
  | .branches arms total _ rest => (arms.falls || !total) && rest.falls

/-- A path through one of the branches ends behind it. -/
def Arms.falls : Arms → Bool
  | .nil => false
  | .arm _ body rest => body.falls || rest.falls

end

mutual

/-- A path through the statements ends with a `RETURN` without a row. -/
def Stmts.empty : Stmts → Bool
  | .nil => false
  | .plain _ rest => rest.empty
  | .ret row _ _ => !row
  | .branches arms total _ rest => arms.empty || ((arms.falls || !total) && rest.empty)

/-- A path through one of the branches ends with a `RETURN` without a row. -/
def Arms.empty : Arms → Bool
  | .nil => false
  | .arm _ body rest => body.empty || rest.empty

end

/-- A block: its statements and the handlers of its exceptions, each behind some text, the `END`
that closes it, and what stands behind that. -/
structure Block where
  arms : Arms
  close : List Char
  back : List Char
  closes : upper close = "END".toList

namespace Block

variable (b : Block)

/-- How a block is written. -/
def text : List Char := b.arms.text ++ (b.close ++ b.back)

/-- Some path through the block returns no row. -/
def returnsNoRow : Bool := b.arms.falls || b.arms.empty

/-- **What is meant**: where some path returns no row, a `RETURN` immediately before the `END` that
closes the block. -/
def meant : List Char :=
  if b.returnsNoRow then b.arms.text ++ (returnRow ++ (b.close ++ b.back)) else b.text

end Block

/-- **A trigger is faithful** if references to its rows lose their colon, nothing else of its body
does, and in the function that is written the row is returned where it has to be. -/
def Faithful (common : List Char → Option (List Char)) (sql : List Char) (h : Header)
    (ps : List Part) (b : Block) : Prop :=
  unColon h.refNew h.refOld (bodySource h.tail) = meant ps ∧
    rewriteTrigger common sql = some (emitted h b.meant)

/-! ### Where the `RETURN` is written -/

/-- The last `END` of a block. -/
lemma rfind_end (b : Block) :
    rfind "END".toList (upper b.text) = some (b.arms.text.length +
      match rfind "END".toList (upper b.back) with
      | some m => m + "END".length
      | none => 0) := by
  have hclose : rfind "END".toList (upper (b.close ++ b.back)) =
      some (match rfind "END".toList (upper b.back) with
        | some m => m + "END".length
        | none => 0) := by
    have htext : upper (b.close ++ b.back) = 'E' :: 'N' :: 'D' :: upper b.back := by
      rw [upper_append, b.closes]
      rfl
    rw [htext, rfind, rfind, rfind]
    cases rfind "END".toList (upper b.back) with
    | some m => rfl
    | none => rfl
  rw [Block.text, upper_append, rfind_append hclose, length_upper]

lemma length_returnRow : 0 < returnRow.length := by decide

/-- **When the `RETURN` stands where it should, and only if it should**: it is missed by the text if
and only if it is by a path, and behind the `END` of the block come no such letters. -/
theorem insertReturn_iff (b : Block) :
    insertReturn b.text = b.meant ↔
      (b.returnsNoRow = true ↔ Without "RETURN ".toList b.text) ∧
        (b.returnsNoRow = true → Without "END".toList b.back) := by
  have hne : "END".toList ≠ [] := by decide
  have hsome : (find "RETURN ".toList (upper b.text)).isSome = true ↔
      ¬ Without "RETURN ".toList b.text := find_isSome_iff.trans not_not.symm
  have hlen := length_returnRow
  by_cases hin : Without "RETURN ".toList b.text
  · have hwritten : insertReturn b.text = match rfind "END".toList (upper b.text) with
        | some endAt => b.text.take endAt ++ returnRow ++ b.text.drop endAt
        | none => b.text := if_neg fun h => hsome.1 h hin
    rw [hwritten, rfind_end]
    simp only
    by_cases hrow : b.returnsNoRow = true
    · have hmeant : b.meant = b.arms.text ++ (returnRow ++ (b.close ++ b.back)) := if_pos hrow
      rw [hmeant, and_iff_right (iff_of_true hrow hin)]
      cases hback : rfind "END".toList (upper b.back) with
      | none =>
        refine iff_of_true ?_ fun _ => (rfind_eq_none_iff hne).1 hback
        rw [Block.text, Nat.add_zero, List.take_left, List.drop_left, List.append_assoc]
      | some m =>
        refine iff_of_false (fun heq => ?_) fun h => ?_
        · -- the text in front goes on with the `END` of the block
          rw [Block.text, List.take_length_add_append, List.append_assoc, List.append_assoc] at heq
          have hhead := congrArg List.head? (List.append_cancel_left heq)
          obtain ⟨e, n, hclose, he, -⟩ := List.map_eq_cons_iff.1 b.closes
          rw [hclose] at hhead
          have hc : e = 'R' := Option.some.inj hhead
          rw [hc] at he
          exact absurd he (by decide)
        · rw [(rfind_eq_none_iff hne).2 (h hrow)] at hback
          cases hback
    · have hmeant : b.meant = b.text := if_neg hrow
      rw [hmeant]
      refine iff_of_false (fun heq => ?_) fun h => hrow (h.1.2 hin)
      have hlength := congrArg List.length heq
      rw [List.append_assoc, List.length_append, List.length_append, List.length_take,
        List.length_drop] at hlength
      omega
  · have hwritten : insertReturn b.text = b.text := if_pos (hsome.2 hin)
    rw [hwritten]
    by_cases hrow : b.returnsNoRow = true
    · have hmeant : b.meant = b.arms.text ++ (returnRow ++ (b.close ++ b.back)) := if_pos hrow
      refine iff_of_false (fun heq => ?_) fun h => hin (h.1.1 hrow)
      have hlength := congrArg List.length heq
      simp only [hmeant, Block.text, List.length_append] at hlength
      omega
    · have hmeant : b.meant = b.text := if_neg hrow
      rw [hmeant]
      exact iff_of_true rfl ⟨iff_of_false hrow hin, fun h => absurd h hrow⟩

/-- The body can be read off what is written. -/
lemma emitted_inj {h : Header} {x y : List Char} : emitted h x = emitted h y ↔ x = y := by
  refine ⟨fun heq => ?_, fun heq => heq ▸ rfl⟩
  rw [emitted, emitted] at heq
  exact List.append_cancel_right (List.append_cancel_left heq)

section Main

variable (common : List Char → Option (List Char)) {sql : List Char} {h : Header} {ps : List Part}
  {b : Block}

/-- What is written where the rows have lost their colon. -/
lemma rewriteTrigger_iff (hread : triggerHeader sql = some h) (hrow : h.forEachRow = true)
    (hcolon : unColon h.refNew h.refOld (bodySource h.tail) = meant ps)
    (hb : common (meant ps) = some b.text) :
    rewriteTrigger common sql = some (emitted h b.meant) ↔ insertReturn b.text = b.meant := by
  rw [rewriteTrigger, hread, Option.bind_some, hcolon, hb, Option.map_some, if_pos hrow,
    Option.some.injEq, emitted_inj]

end Main

/-! ### Triggers -/

/-- A trigger that names its new row `n`. -/
def setsColumn : List Char :=
  "CREATE TRIGGER trg BEFORE INSERT ON t REFERENCING NEW AS n FOR EACH ROW BEGIN :n.x := 1; END;".toList

/-- What is read of it. -/
def setsColumnHeader : Header where
  name := "trg".toList
  timing := "BEFORE".toList
  events := "INSERT".toList
  table := "t".toList
  refNew := some "n".toList
  refOld := none
  forEachRow := true
  whenClause := []
  tail := "BEGIN :n.x := 1; END;".toList

/-- Its body. -/
def setsColumnParts : List Part :=
  "BEGIN ".toList.map .other ++ .ref .new "n".toList :: ".x := 1; END".toList.map .other

/-- Its block. -/
def setsColumnBlock : Block where
  arms := .arm "BEGIN ".toList (.plain "NEW.x := 1; ".toList .nil) .nil
  close := "END".toList
  back := []
  closes := rfl

/-- A trigger whose name holds the letters `END`. -/
def sendMail : List Char :=
  "CREATE TRIGGER send_mail AFTER INSERT ON t FOR EACH ROW BEGIN NULL; END send_mail;".toList

/-- What is read of it. -/
def sendMailHeader : Header where
  name := "send_mail".toList
  timing := "AFTER".toList
  events := "INSERT".toList
  table := "t".toList
  refNew := none
  refOld := none
  forEachRow := true
  whenClause := []
  tail := "BEGIN NULL; END send_mail;".toList

/-- Its body. -/
def sendMailParts : List Part := "BEGIN NULL; END send_mail".toList.map .other

/-- Its block. -/
def sendMailBlock : Block where
  arms := .arm "BEGIN ".toList (.plain "NULL; ".toList .nil) .nil
  close := "END".toList
  back := " send_mail".toList
  closes := rfl

end DbSaci.Translate.Trigger
