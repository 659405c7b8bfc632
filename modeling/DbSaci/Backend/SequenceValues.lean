import DbSaci.Backend.SequenceWords
import Mathlib.Data.Finset.Lattice.Basic

set_option relaxedAutoImplicit false
set_option autoImplicit false

/-!
# The sequences that have a current value

A session should know the sequences whose `NEXTVAL` has been evaluated by a statement that the
server accepted, and refuse a `CURRVAL` of all others. Queries and statements without `RETURNING`
are checked, and what they draw is recorded before they run. Statements with `RETURNING` into
parameters are not looked at.

## Main definitions

* `Statement` — a statement with the answer of the server.
* `Book` — the set of the session, and the sequences that have been drawn.
* `Faithful` — the set is right behind a statement, and it is refused if it has to be.
* `Tracked` — a condition on the statement and the set in front of it.

## Main results

* `each_faithful_iff` — the set is right in a run exactly if each statement meets the condition.
* `refusedQuery_not_faithful` — a query that the server refuses.
-/

namespace DbSaci.Backend.Sequences

open Text

/-! ### Statements -/

/-- The functions of the backend that run queries and statements. -/
inductive Route
  | openCursor
  | executeSimple
  | executeReturning
  deriving DecidableEq, Repr

/-- A statement with the answer of the server: the sequences whose `NEXTVAL` it evaluates, or `none`
if the server does not accept it. -/
structure Statement where
  route : Route
  sql : List Char
  reply : Option (Finset (List Char))
  evaluates : ∀ drawn ∈ reply, ∀ q ∈ drawn, (.nextval, q) ∈ references sql

namespace Statement

variable (s : Statement)

/-- Run a statement: whether the server accepts it, or the error of the check. -/
def run : Fallible (Finset (List Char)) (List Char) Bool :=
  match s.route with
  | .openCursor | .executeSimple => checkAndRecord s.sql >>= fun _ => .ret s.reply.isSome
  | .executeReturning => .ret s.reply.isSome

/-- The server accepts the statement and evaluates the `NEXTVAL` of a sequence. -/
def Evaluated (q : List Char) : Prop := ∃ drawn ∈ s.reply, q ∈ drawn

/-- The statement asks for a current value that there is not: the sequence has not been drawn, and
the statement does not draw it. -/
def Undefined (drawn : Finset (List Char)) : Prop :=
  ∃ q, (.currval, q) ∈ references s.sql ∧ q ∉ drawn ∧ (.nextval, q) ∉ references s.sql

end Statement

/-! ### Runs -/

/-- The set of the session, and the sequences whose `NEXTVAL` has been evaluated by a statement that
the server accepted. -/
structure Book where
  seen : Finset (List Char) := ∅
  drawn : Finset (List Char) := ∅

/-- Run a statement and note what it draws. -/
def Book.next (b : Book) (s : Statement) : Book where
  seen := (s.run b.seen).2
  drawn :=
    match (s.run b.seen).1 with
    | .ok _ => b.drawn ∪ s.reply.getD ∅
    | .error _ => b.drawn

/-- **The set is right** behind a statement, and the statement is refused by the check exactly if it
asks for a current value that there is not. -/
structure Faithful (b : Book) (s : Statement) : Prop where
  set : (b.next s).seen = (b.next s).drawn
  refused : (∃ e, (s.run b.seen).1 = .error e) ↔ s.Undefined b.drawn

/-- A property of each step of a run. -/
def EachStep (P : Book → Statement → Prop) : Book → List Statement → Prop
  | _, [] => True
  | b, s :: ss => P b s ∧ EachStep P (b.next s) ss

/-- The words of a statement that is checked ask for a refusal exactly if the names the server reads
do, and a sequence that is not in the set is in a `NEXTVAL` among them, in front of which nothing is
premature, exactly if the server evaluates it. A statement that is not checked asks for no current
value that there is not, and draws nothing that is not in the set. -/
def Tracked (seen : Finset (List Char)) (s : Statement) : Prop :=
  match s.route with
  | .openCursor | .executeSimple =>
    (Premature seen (pseudowords s.sql) ↔ s.Undefined seen) ∧
      ∀ q ∉ seen, Noted seen (pseudowords s.sql) q ↔ ¬ s.Undefined seen ∧ s.Evaluated q
  | .executeReturning => ¬ s.Undefined seen ∧ ∀ q, s.Evaluated q → q ∈ seen

/-! ### One statement -/

section Step

variable {s : Statement} {b : Book}

lemma mem_getD_iff {q : List Char} : q ∈ s.reply.getD ∅ ↔ s.Evaluated q := by
  rw [Statement.Evaluated]
  cases s.reply with
  | none => simp
  | some drawn => simp

/-- What the check makes of a statement. -/
lemma run_of_checked (h : s.route ≠ .executeReturning) (seen : Finset (List Char)) :
    ((∃ e, (s.run seen).1 = .error e) ↔ Premature seen (pseudowords s.sql)) ∧
      ∀ q, q ∈ (s.run seen).2 ↔ q ∈ seen ∨ Noted seen (pseudowords s.sql) q := by
  have hrun : s.run = checkAndRecord s.sql >>= fun _ => .ret s.reply.isSome := by
    rw [Statement.run]
    cases hroute : s.route with
    | openCursor => rfl
    | executeSimple => rfl
    | executeReturning => exact absurd hroute h
  have herror := checkAndRecord_error_iff s.sql seen
  have hmem := mem_checkAndRecord_iff s.sql seen
  rw [hrun]
  rcases hcheck : checkAndRecord s.sql seen with ⟨e | ⟨⟩, t⟩
  · rw [hcheck] at herror hmem
    rw [Fallible.bind_of_error hcheck]
    exact ⟨(iff_of_true ⟨e, rfl⟩ ⟨e, rfl⟩).trans herror, hmem⟩
  · rw [hcheck] at herror hmem
    rw [Fallible.bind_of_ok hcheck]
    refine ⟨(iff_of_false ?_ ?_).trans herror, hmem⟩
    · rintro ⟨e, he⟩
      cases he
    · rintro ⟨e, he⟩
      cases he

/-- What is recorded by the check. -/
lemma mem_next_seen (h : s.route ≠ .executeReturning) {q : List Char} :
    q ∈ (b.next s).seen ↔ q ∈ b.seen ∨ Noted b.seen (pseudowords s.sql) q :=
  (run_of_checked h b.seen).2 q

/-- What is drawn by a statement, if it is not refused. -/
lemma mem_next_drawn {q : List Char} : q ∈ (b.next s).drawn ↔
    q ∈ b.drawn ∨ (¬ ∃ e, (s.run b.seen).1 = .error e) ∧ s.Evaluated q := by
  rw [Book.next]
  cases hrun : (s.run b.seen).1 with
  | error e => simp
  | ok a =>
    dsimp only
    rw [Finset.mem_union, mem_getD_iff]
    simp

/-- **A statement leaves the set right** exactly under the condition, if it was right. -/
lemma faithful_iff_tracked (h : b.seen = b.drawn) : Faithful b s ↔ Tracked b.seen s := by
  have hfaithful : Faithful b s ↔
      (∀ q, q ∈ (s.run b.seen).2 ↔ q ∈ (b.next s).drawn) ∧
        ((∃ e, (s.run b.seen).1 = .error e) ↔ s.Undefined b.seen) := by
    rw [h]
    refine ⟨fun hf => ⟨fun q => ?_, ?_⟩, fun hf => ⟨Finset.ext fun q => ?_, ?_⟩⟩
    · rw [← hf.set, Book.next, h]
    · exact h ▸ hf.refused
    · rw [← hf.1, Book.next, h]
    · exact h ▸ hf.2
  rw [hfaithful]
  by_cases hroute : s.route = .executeReturning
  · have hrun : s.run = .ret s.reply.isSome := by rw [Statement.run, hroute]
    have hok : ¬ ∃ e, (s.run b.seen).1 = .error e := by
      rw [hrun]
      rintro ⟨e, he⟩
      cases he
    have hseen : (s.run b.seen).2 = b.seen := by
      rw [hrun]
      rfl
    have htracked : Tracked b.seen s ↔
        ¬ s.Undefined b.seen ∧ ∀ q, s.Evaluated q → q ∈ b.seen := by
      rw [Tracked, hroute]
    rw [htracked, hseen, iff_false_left hok, and_comm]
    refine and_congr_right fun _ => forall_congr' fun q => ?_
    rw [mem_next_drawn, ← h, and_iff_right hok]
    constructor
    · intro hset hq
      exact hset.2 (.inr hq)
    · intro hset
      exact ⟨.inl, fun hq => hq.elim id hset⟩
  · obtain ⟨hrefused, hmem⟩ := run_of_checked hroute b.seen
    have htracked : Tracked b.seen s ↔
        (Premature b.seen (pseudowords s.sql) ↔ s.Undefined b.seen) ∧ ∀ q ∉ b.seen,
          Noted b.seen (pseudowords s.sql) q ↔ ¬ s.Undefined b.seen ∧ s.Evaluated q := by
      rw [Tracked]
      cases hr : s.route with
      | openCursor => rfl
      | executeSimple => rfl
      | executeReturning => exact absurd hr hroute
    rw [htracked, hrefused, and_comm]
    refine and_congr_right fun hiff => forall_congr' fun q => ?_
    rw [hmem, mem_next_drawn, ← h, hrefused, hiff]
    constructor
    · intro hset hq
      rwa [or_iff_right hq, or_iff_right hq] at hset
    · exact or_congr_right'

/-- What is noted of a statement that the server does not accept has not been drawn. -/
lemma not_faithful_of_noted (hroute : s.route ≠ .executeReturning) (hreply : s.reply = none)
    {q : List Char} (hnoted : Noted b.seen (pseudowords s.sql) q) (hq : q ∉ b.drawn) :
    ¬ Faithful b s := by
  intro h
  have hseen : q ∈ (b.next s).seen := (mem_next_seen hroute).2 (.inr hnoted)
  rw [h.set, mem_next_drawn] at hseen
  obtain hseen | ⟨-, drawn, hdrawn, -⟩ := hseen
  · exact hq hseen
  · rw [hreply] at hdrawn
    exact Option.not_mem_none drawn hdrawn

end Step

/-! ### Runs -/

/-- **The set is right in each state of a run**, and the check refuses what it has to refuse,
exactly if each statement meets the condition. -/
theorem each_faithful_iff (ss : List Statement) :
    EachStep Faithful {} ss ↔ EachStep (fun b s => Tracked b.seen s) {} ss := by
  suffices hrun : ∀ b : Book, b.seen = b.drawn →
      (EachStep Faithful b ss ↔ EachStep (fun b s => Tracked b.seen s) b ss) from hrun {} rfl
  induction ss with
  | nil => exact fun b _ => Iff.rfl
  | cons s ss ih =>
    intro b hb
    rw [EachStep, EachStep, ← faithful_iff_tracked hb]
    exact and_congr_right fun hfaithful => ih (b.next s) hfaithful.set

/-- `SELECT s.nextval FROM t`, where there is no such table. -/
def refusedQuery : Statement where
  route := .openCursor
  sql := "SELECT s.nextval FROM t".toList
  reply := none
  evaluates := by simp

/-- What it would have drawn is in the set. -/
theorem refusedQuery_not_faithful : ¬ EachStep Faithful {} [refusedQuery] := by
  rintro ⟨h, -⟩
  have hwords : pseudowords refusedQuery.sql = [(.nextval, ['S'])] := by
    have hsplit : words refusedQuery.sql =
        ["SELECT".toList, "s.nextval".toList, "FROM".toList, ['t']] := by
      decide +kernel
    rw [pseudowords, hsplit]
    repeat rw [String.toList_ofList]
    decide +kernel
  have hnoted : Noted ∅ (pseudowords refusedQuery.sql) ['S'] := by
    rw [hwords]
    exact ⟨[], [], rfl, not_premature_nil⟩
  exact not_faithful_of_noted (by decide) rfl hnoted (Finset.notMem_empty _) h

end DbSaci.Backend.Sequences
