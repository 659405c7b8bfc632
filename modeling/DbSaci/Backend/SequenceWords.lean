import DbSaci.Backend.MariaDbPrepare
import DbSaci.Library.Fallible
import Mathlib.Data.Finset.Basic

set_option relaxedAutoImplicit false
set_option autoImplicit false

/-!
# `CURRVAL` and `NEXTVAL` in a statement

The backend keeps the sequences of which a session has a current value. It looks for them in the
words of a statement, which are the runs of letters, digits, underscores and points of its text. The
server looks for them in names, outside of literals and comments.

## Main definitions

* `checkAndRecord` — the check of the backend, with what it records.
* `pseudowords` — the words it looks at.
* `references` — the names that the server reads.
* `Premature`, `Noted` — what the check refuses and records, said of the words.

## Main results

* `checkAndRecord_error_iff` — a statement is refused if a word is premature.
* `mem_checkAndRecord_iff` — what is recorded.
-/

namespace DbSaci.Backend.Sequences

open Text Wire

/-! ### The check of the backend -/

/-- Characters of the words that are looked at. -/
def isWordChar (c : Char) : Bool := c.isAlphanum || c == '_' || c == '.'

/-- The words of a text. -/
def words (sql : List Char) : List (List Char) := sql.splitOnP fun c => !isWordChar c

/-- `strip_suffix`: a text in front of what it ends with. -/
def stripSuffix (suffix s : List Char) : Option (List Char) :=
  if suffix <:+ s then some (s.take (s.length - suffix.length)) else none

/-- The error for a sequence that has no current value. -/
def currvalError (sequence : List Char) : List Char :=
  "currval of sequence ".toList ++ sequence ++ " is not yet defined in this session".toList

/-- One round of the loop over the words. -/
def checkWord (word : List Char) : Fallible (Finset (List Char)) (List Char) Unit := fun seen =>
  let upper := upper word
  match (stripSuffix ".CURRVAL".toList upper).filter fun sequence => !decide (sequence ∈ seen) with
  | some sequence => (.error (currvalError sequence), seen)
  | none =>
    match stripSuffix ".NEXTVAL".toList upper with
    | some sequence => (.ok (), insert sequence seen)
    | none => (.ok (), seen)

/-- The loop over the words. -/
def checkWords : List (List Char) → Fallible (Finset (List Char)) (List Char) Unit
  | [] => .ret ()
  | word :: rest => checkWord word >>= fun _ => checkWords rest

/-- `check_and_record_sequence_pseudocolumns`. -/
def checkAndRecord (sql : List Char) : Fallible (Finset (List Char)) (List Char) Unit :=
  checkWords (words sql)

/-! ### The words -/

/-- The two pseudocolumns of a sequence. -/
inductive Pseudocolumn
  | currval
  | nextval
  deriving DecidableEq, Repr

/-- The pseudocolumn that a word is taken for, with the sequence. -/
def pseudoword (word : List Char) : Option (Pseudocolumn × List Char) :=
  match stripSuffix ".CURRVAL".toList (upper word) with
  | some sequence => some (.currval, sequence)
  | none => (stripSuffix ".NEXTVAL".toList (upper word)).map (.nextval, ·)

/-- The pseudocolumns that the words of a text are taken for. -/
def pseudowords (sql : List Char) : List (Pseudocolumn × List Char) :=
  (words sql).filterMap pseudoword

/-- A `CURRVAL` is of a sequence that is neither in the set nor in a `NEXTVAL` in front of it. -/
def Premature (seen : Finset (List Char)) (ps : List (Pseudocolumn × List Char)) : Prop :=
  ∃ before sequence after, ps = before ++ (.currval, sequence) :: after ∧
    sequence ∉ seen ∧ (.nextval, sequence) ∉ before

/-- A sequence is in a `NEXTVAL` in front of which nothing is premature. -/
def Noted (seen : Finset (List Char)) (ps : List (Pseudocolumn × List Char))
    (sequence : List Char) : Prop :=
  ∃ before after, ps = before ++ (.nextval, sequence) :: after ∧ ¬ Premature seen before

section Recursion

variable {seen : Finset (List Char)} {ps : List (Pseudocolumn × List Char)} {q r : List Char}

lemma not_premature_nil : ¬ Premature seen [] := by
  rintro ⟨before, sequence, after, hps, -⟩
  exact List.append_ne_nil_of_right_ne_nil _ (List.cons_ne_nil _ _) hps.symm

lemma premature_currval :
    Premature seen ((.currval, q) :: ps) ↔ q ∉ seen ∨ Premature seen ps := by
  constructor
  · rintro ⟨before, sequence, after, hps, hseen, hbefore⟩
    rcases List.cons_eq_append_iff.1 hps with ⟨rfl, hrest⟩ | ⟨before, rfl, hrest⟩
    · obtain ⟨hpair, -⟩ := List.cons.inj hrest
      rw [(Prod.mk.inj hpair).2] at hseen
      exact .inl hseen
    · exact .inr ⟨before, sequence, after, hrest, hseen,
        fun h => hbefore (List.mem_cons_of_mem _ h)⟩
  · rintro (hseen | ⟨before, sequence, after, rfl, hseen, hbefore⟩)
    · exact ⟨[], q, ps, rfl, hseen, List.not_mem_nil⟩
    · refine ⟨(.currval, q) :: before, sequence, after, rfl, hseen, fun h => ?_⟩
      rcases List.mem_cons.1 h with h | h
      · cases h
      · exact hbefore h

lemma premature_nextval :
    Premature seen ((.nextval, q) :: ps) ↔ Premature (insert q seen) ps := by
  constructor
  · rintro ⟨before, sequence, after, hps, hseen, hbefore⟩
    rcases List.cons_eq_append_iff.1 hps with ⟨-, hrest⟩ | ⟨before, rfl, hrest⟩
    · cases (List.cons.inj hrest).1
    · refine ⟨before, sequence, after, hrest, fun h => ?_,
        fun h => hbefore (List.mem_cons_of_mem _ h)⟩
      rcases Finset.mem_insert.1 h with rfl | h
      · exact hbefore List.mem_cons_self
      · exact hseen h
  · rintro ⟨before, sequence, after, rfl, hseen, hbefore⟩
    refine ⟨(.nextval, q) :: before, sequence, after, rfl,
      fun h => hseen (Finset.mem_insert_of_mem h), fun h => ?_⟩
    rcases List.mem_cons.1 h with h | h
    · obtain rfl := (Prod.mk.inj h).2
      exact hseen (Finset.mem_insert_self _ _)
    · exact hbefore h

lemma not_noted_nil : ¬ Noted seen [] r := by
  rintro ⟨before, after, hps, -⟩
  exact List.append_ne_nil_of_right_ne_nil _ (List.cons_ne_nil _ _) hps.symm

lemma noted_currval : Noted seen ((.currval, q) :: ps) r ↔ q ∈ seen ∧ Noted seen ps r := by
  constructor
  · rintro ⟨before, after, hps, hbefore⟩
    rcases List.cons_eq_append_iff.1 hps with ⟨-, hrest⟩ | ⟨before, rfl, hrest⟩
    · cases (List.cons.inj hrest).1
    · rw [premature_currval, not_or, not_not] at hbefore
      exact ⟨hbefore.1, before, after, hrest, hbefore.2⟩
  · rintro ⟨hq, before, after, rfl, hbefore⟩
    refine ⟨(.currval, q) :: before, after, rfl, ?_⟩
    rw [premature_currval, not_or, not_not]
    exact ⟨hq, hbefore⟩

lemma noted_nextval :
    Noted seen ((.nextval, q) :: ps) r ↔ r = q ∨ Noted (insert q seen) ps r := by
  constructor
  · rintro ⟨before, after, hps, hbefore⟩
    rcases List.cons_eq_append_iff.1 hps with ⟨rfl, hrest⟩ | ⟨before, rfl, hrest⟩
    · exact .inl (Prod.mk.inj (List.cons.inj hrest).1).2
    · exact .inr ⟨before, after, hrest, fun h => hbefore (premature_nextval.2 h)⟩
  · rintro (rfl | ⟨before, after, rfl, hbefore⟩)
    · exact ⟨[], ps, rfl, not_premature_nil⟩
    · exact ⟨(.nextval, q) :: before, after, rfl, fun h => hbefore (premature_nextval.1 h)⟩

end Recursion

/-! ### What the check does -/

lemma stripSuffix_of_ne {x y s : List Char} (hlen : x.length = y.length) (hne : x ≠ y)
    (h : stripSuffix x s ≠ none) : stripSuffix y s = none := by
  rw [stripSuffix] at h ⊢
  split_ifs at h with hx
  · refine if_neg fun hy => hne ?_
    exact (List.suffix_of_suffix_length_le hx hy hlen.le).eq_of_length hlen
  · exact absurd rfl h

/-- One round, by the pseudocolumn that the word is taken for. -/
lemma checkWord_eq (word : List Char) (seen : Finset (List Char)) : checkWord word seen =
    match pseudoword word with
    | some (.currval, q) => if q ∈ seen then (.ok (), seen) else (.error (currvalError q), seen)
    | some (.nextval, q) => (.ok (), insert q seen)
    | none => (.ok (), seen) := by
  rw [checkWord, pseudoword]
  cases hc : stripSuffix ".CURRVAL".toList (upper word) with
  | none => cases stripSuffix ".NEXTVAL".toList (upper word) <;> rfl
  | some q =>
    have hn : stripSuffix ".NEXTVAL".toList (upper word) = none := by
      refine stripSuffix_of_ne (x := ".CURRVAL".toList) (by decide) (by decide) ?_
      rw [hc]
      exact Option.some_ne_none q
    rw [hn, Option.filter_some]
    by_cases hq : q ∈ seen
    · rw [decide_eq_true hq]
      exact (if_pos hq).symm
    · rw [decide_eq_false hq]
      exact (if_neg hq).symm

/-- What the loop refuses and what it records. -/
lemma checkWords_spec (ws : List (List Char)) (seen : Finset (List Char)) :
    ((∃ e, (checkWords ws seen).1 = .error e) ↔ Premature seen (ws.filterMap pseudoword)) ∧
      ∀ r, r ∈ (checkWords ws seen).2 ↔ r ∈ seen ∨ Noted seen (ws.filterMap pseudoword) r := by
  induction ws generalizing seen with
  | nil =>
    refine ⟨iff_of_false (fun h => ?_) not_premature_nil, fun r => ?_⟩
    · obtain ⟨e, he⟩ := h
      cases he
    · exact (or_iff_left not_noted_nil).symm
  | cons w ws ih =>
    rw [checkWords]
    have hw := checkWord_eq w seen
    rcases hp : pseudoword w with _ | ⟨p, q⟩
    · rw [hp] at hw
      rw [Fallible.bind_of_ok hw, List.filterMap_cons_none hp]
      exact ih seen
    · rw [hp] at hw
      rw [List.filterMap_cons_some hp]
      cases p with
      | nextval =>
        rw [Fallible.bind_of_ok hw, premature_nextval]
        refine ⟨(ih _).1, fun r => ?_⟩
        rw [(ih _).2, noted_nextval, Finset.mem_insert, or_left_comm, or_assoc]
      | currval =>
        dsimp only at hw
        by_cases hq : q ∈ seen
        · rw [if_pos hq] at hw
          rw [Fallible.bind_of_ok hw, premature_currval, or_iff_right (not_not.2 hq)]
          refine ⟨(ih _).1, fun r => ?_⟩
          rw [(ih _).2, noted_currval, and_iff_right hq]
        · rw [if_neg hq] at hw
          rw [Fallible.bind_of_error hw]
          refine ⟨iff_of_true ⟨_, rfl⟩ (premature_currval.2 (.inl hq)), fun r => ?_⟩
          rw [noted_currval]
          exact (or_iff_left fun h => hq h.1).symm

/-- **A statement is refused** if a `CURRVAL` among its words is premature. -/
theorem checkAndRecord_error_iff (sql : List Char) (seen : Finset (List Char)) :
    (∃ e, (checkAndRecord sql seen).1 = .error e) ↔ Premature seen (pseudowords sql) :=
  (checkWords_spec (words sql) seen).1

/-- **What is recorded** is in a `NEXTVAL` among the words in front of which nothing is premature,
also of a statement that is refused. -/
theorem mem_checkAndRecord_iff (sql : List Char) (seen : Finset (List Char)) (r : List Char) :
    r ∈ (checkAndRecord sql seen).2 ↔ r ∈ seen ∨ Noted seen (pseudowords sql) r :=
  (checkWords_spec (words sql) seen).2 r

/-! ### The names that the server reads -/

/-- What the server reads of a statement. White space and comments are left out. -/
inductive Lexeme
  | word (name : List Char)
  | quoted (name : List Char)
  | dot
  | symbol
  deriving DecidableEq, Repr

/-- Characters of a name without quotes. -/
def isIdentChar (c : Char) : Bool :=
  c.isAlphanum || c == '_' || c == '$' || decide (128 ≤ c.toNat)

/-- What starts with a character, and how much of what is behind it is part of it. -/
def nextLexeme (c : Char) (s : List Char) : Option Lexeme × ℕ :=
  if c = '\'' then (some .symbol, quotedEnd c s)
  else if c = '"' ∨ c = '\x60' then (some (.quoted (s.take (quotedEnd c s - 1))), quotedEnd c s)
  else if c = '#' ∨ (c = '-' ∧ startsLineComment s = true) then (none, lineEnd s)
  else if c = '/' ∧ s.head? = some '*' then (none, commentEnd s)
  else if isIdentChar c then
    (some (.word (c :: s.takeWhile isIdentChar)), (s.takeWhile isIdentChar).length)
  else if isSpace c then (none, 0)
  else if c = '.' then (some .dot, 0)
  else (some .symbol, 0)

/-- The pseudocolumn that a word is. -/
def pseudocolumn? (word : List Char) : Option Pseudocolumn :=
  if upper word = "CURRVAL".toList then some .currval
  else if upper word = "NEXTVAL".toList then some .nextval
  else none

/-- The pseudocolumns in what is read. In front of it stands a name, or a name and a point, or
neither. A name is the text of its parts in upper case. -/
def referencesFrom : Option (List Char × Bool) → List Lexeme → List (Pseudocolumn × List Char)
  | _, [] => []
  | some (name, false), .dot :: rest => referencesFrom (some (name, true)) rest
  | some (name, true), .word w :: rest =>
    let whole := referencesFrom (some (name ++ '.' :: upper w, false)) rest
    match pseudocolumn? w with
    | some p => if rest.head? = some .dot then whole else (p, name) :: whole
    | none => whole
  | some (name, true), .quoted w :: rest =>
    referencesFrom (some (name ++ '.' :: upper w, false)) rest
  | _, .word w :: rest => referencesFrom (some (upper w, false)) rest
  | _, .quoted w :: rest => referencesFrom (some (upper w, false)) rest
  | _, _ :: rest => referencesFrom none rest

/-- The pseudocolumns of a statement, with their sequences. -/
def references (sql : List Char) : List (Pseudocolumn × List Char) :=
  referencesFrom none ((scan nextLexeme sql).filterMap id)

end DbSaci.Backend.Sequences
