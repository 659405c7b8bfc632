import DbSaci.Library.Windows
import DbSaci.Translate.FirstCall

set_option relaxedAutoImplicit false
set_option autoImplicit false

/-!
# `LAG` with a default

MariaDB's `LAG` takes no default. The pass puts the default around the first call of the statement
with `COALESCE`.

## Main definitions

* `rewriteLagDefault` — the pass.
* `LagStatement` — a statement with calls of `LAG`.
* `Faithful` — each call gives in MariaDB what it gave.

## Main results

* `rewriteLagDefault_text` — the statement that is put.
* `faithful_iff` — when the calls of it are faithful.
-/

namespace DbSaci.Translate.Lag

open Text Windows

/-! ### The pass -/

/-- `rewrite_lag_default`. -/
def rewriteLagDefault (sql : List Char) : List Char :=
  match findCall "LAG".toList sql with
  | none => sql
  | some (start, closeRel) =>
    let opened := start + 3
    match splitTopLevelCommas ((sql.take (opened + closeRel)).drop (opened + 1)) with
    | [x, n, d] =>
      match behindWord "OVER".toList "over".toList
          (trimStart (sql.drop (opened + closeRel + 1))) with
      | none => sql
      | some rest =>
        let rest := trimStart rest
        match matchingParen rest with
        | none => sql
        | some winClose =>
          sql.take start ++ ("COALESCE(LAG(".toList ++ (trim x ++ (", ".toList ++ (trim n ++
            (") OVER ".toList ++ (rest.take (winClose + 1) ++ (", ".toList ++ (trim d ++
              (')' :: rest.drop (winClose + 1))))))))))
    | _ => sql

/-! ### Statements -/

/-- A call of `LAG` with its window. -/
structure LagCall where
  spelled : List Char
  args : List (List Char)
  gap : List Char
  overWord : List Char
  gap' : List Char
  window : List Char
  isSpelled : upper spelled = "LAG".toList
  hasArgs : args ≠ []
  isPart : ∀ a ∈ args, Part a
  isGap : Gap gap
  isOver : upper overWord = "OVER".toList
  isGap' : Gap gap'
  isWindow : Closed window

namespace LagCall

variable (c : LagCall)

/-- What stands behind the closing parenthesis of the arguments. -/
def windowText : List Char := c.gap ++ (c.overWord ++ (c.gap' ++ '(' :: (c.window ++ [')'])))

/-- The text of the call. -/
def text : List Char :=
  c.spelled ++ '(' :: ([','].intercalate c.args ++ ')' :: c.windowText)

/-- The value, the offset and the default of a call that has them all. -/
def defaulted : Option (List Char × List Char × List Char) :=
  match c.args with
  | [x, n, d] => some (trim x, trim n, trim d)
  | _ => none

/-- `OVER` is written in capital letters, or in small ones. -/
def OneCase : Prop := c.overWord = "OVER".toList ∨ c.overWord = "over".toList

instance : Decidable c.OneCase := by
  unfold OneCase
  infer_instance

end LagCall

/-- What stands in the place of a call: the call, or `COALESCE` around one without its default. -/
inductive Target where
  | call (c : LagCall)
  | coalesce (x n d window : List Char)

/-- The text of it. -/
def Target.text : Target → List Char
  | .call c => c.text
  | .coalesce x n d window =>
    "COALESCE(LAG(".toList ++ (x ++ (", ".toList ++ (n ++ (") OVER ".toList ++
      ('(' :: (window ++ [')']) ++ (", ".toList ++ (d ++ [')'])))))))

@[simp]
lemma Target.text_call (c : LagCall) : (Target.call c).text = c.text := rfl

@[simp]
lemma Target.text_coalesce (x n d window : List Char) : (Target.coalesce x n d window).text =
    "COALESCE(LAG(".toList ++ (x ++ (", ".toList ++ (n ++ (") OVER ".toList ++
      ('(' :: (window ++ [')']) ++ (", ".toList ++ (d ++ [')']))))))) := rfl

/-- Texts with another text behind each of them. -/
def joined {α : Type} (text : α → List Char) (parts : List (α × List Char)) : List Char :=
  parts.flatMap fun p => text p.1 ++ p.2

/-- A statement: a text in front of the first call of `LAG`, and the calls with the text behind each
of them. -/
structure LagStatement where
  lead : List Char
  calls : List (LagCall × List Char)
  isLead : Without "LAG(".toList lead

namespace LagStatement

variable (s : LagStatement)

/-- The text of the statement. -/
def text : List Char := s.lead ++ joined LagCall.text s.calls

/-- What is put for the first call. -/
def lowerCall (c : LagCall) : Target :=
  match c.defaulted with
  | some (x, n, d) => if c.OneCase then .coalesce x n d c.window else .call c
  | none => .call c

/-- What is put for the calls. -/
def targets : List (Target × List Char) :=
  match s.calls with
  | [] => []
  | (c, behind) :: rest => (lowerCall c, behind) :: rest.map fun p => (.call p.1, p.2)

end LagStatement

/-! ### The text that is put -/

lemma joined_cons {α : Type} (text : α → List Char) (a : α) (behind : List Char)
    (parts : List (α × List Char)) :
    joined text ((a, behind) :: parts) = text a ++ (behind ++ joined text parts) := by
  rw [joined, List.flatMap_cons, List.append_assoc]
  rfl

lemma joined_call (parts : List (LagCall × List Char)) :
    joined Target.text (parts.map fun p => (.call p.1, p.2)) = joined LagCall.text parts := by
  rw [joined, joined, List.flatMap_map]
  rfl

/-- A word in one case is read, and no other one. -/
lemma behindWord_over (c : LagCall) (s : List Char) :
    behindWord "OVER".toList "over".toList (c.overWord ++ s) = if c.OneCase then some s else none := by
  by_cases hcase : c.OneCase
  · rw [if_pos hcase]
    rcases hcase with h | h <;> rw [h]
    · exact behindWord_capital _ s
    · exact behindWord_small (by decide) s
  · have hlen : c.overWord.length = "OVER".toList.length := by
      rw [← length_upper, c.isOver]
    have hsmall : "over".toList.length = c.overWord.length := hlen.symm
    rw [if_neg hcase]
    exact behindWord_none hlen.symm hsmall (not_or.1 hcase) s

/-- What is read behind the arguments of a call. -/
lemma trimStart_windowText (c : LagCall) (behind : List Char) :
    trimStart (c.windowText ++ behind) =
      c.overWord ++ (c.gap' ++ '(' :: (c.window ++ ')' :: behind)) := by
  have hover : Trimmed c.overWord := trimmed_of_upper (by decide) (by decide) c.isOver
  simp only [LagCall.windowText, List.append_assoc, List.cons_append, List.nil_append]
  rw [trimStart_gap c.isGap, trimStart_of_trimmed hover]

/-- **The statement that is put.** -/
theorem rewriteLagDefault_text (s : LagStatement) :
    rewriteLagDefault s.text = s.lead ++ joined Target.text s.targets := by
  obtain ⟨lead, calls, hlead⟩ := s
  cases calls with
  | nil =>
    have hnone : findCall "LAG".toList (lead ++ []) = none := by
      rw [List.append_nil]
      exact findCall_none hlead
    show rewriteLagDefault (lead ++ []) = lead ++ []
    rw [rewriteLagDefault, hnone]
  | cons p rest =>
    obtain ⟨c, behind⟩ := p
    let after := c.windowText ++ (behind ++ joined LagCall.text rest)
    have htext : (⟨lead, (c, behind) :: rest, hlead⟩ : LagStatement).text =
        lead ++ (c.spelled ++ '(' :: ([','].intercalate c.args ++ ')' :: after)) := by
      rw [LagStatement.text, joined_cons, LagCall.text, List.append_assoc, List.cons_append,
        List.append_assoc, List.cons_append]
    have hcall := findCall_append (by decide) c.isSpelled hlead (closed_intercalate c.isPart) after
    have hlen : c.spelled.length = 3 := by
      rw [← length_upper, c.isSpelled]
      rfl
    have hinner := inner_call lead c.spelled ([','].intercalate c.args) after
    have hafter := drop_call lead c.spelled ([','].intercalate c.args) after
    rw [hlen] at hinner hafter
    have hparts := splitTopLevelCommas_intercalate c.hasArgs c.isPart
    have hover : behindWord "OVER".toList "over".toList (trimStart after) =
        if c.OneCase then some (c.gap' ++ '(' :: (c.window ++ ')' ::
          (behind ++ joined LagCall.text rest))) else none := by
      rw [trimStart_windowText, behindWord_over]
    have hkept : lead ++ joined Target.text ((.call c, behind) :: rest.map fun p => (.call p.1, p.2))
        = (⟨lead, (c, behind) :: rest, hlead⟩ : LagStatement).text := by
      have hrest := joined_call ((c, behind) :: rest)
      rw [List.map_cons] at hrest
      rw [hrest]
      rfl
    rw [LagStatement.targets]
    simp only [LagStatement.lowerCall, LagCall.defaulted]
    rw [rewriteLagDefault, htext, hcall]
    simp only [hinner, hafter, hparts, take_call, hover]
    rw [← htext, ← hkept]
    split
    · rename_i x n d hargs
      by_cases hcase : c.OneCase
      · have hopen : trimStart (c.gap' ++ '(' :: (c.window ++ ')' ::
            (behind ++ joined LagCall.text rest))) =
            '(' :: (c.window ++ ')' :: (behind ++ joined LagCall.text rest)) := by
          rw [trimStart_gap c.isGap', trimStart_of_head rfl]
        simp only [if_pos hcase, hopen, matchingParen_closed c.isWindow, take_parens, drop_parens]
        rw [joined_cons, joined_call, Target.text_coalesce]
        simp only [List.append_assoc, List.cons_append, List.nil_append]
      · simp only [if_neg hcase]
    · rfl

/-! ### What the calls give -/

/-- What the texts of a statement mean: the value of an expression and an offset at a row, and the
partitions of a window, each in its order. -/
structure Meaning (ρ V : Type) where
  value : List Char → ρ → Option V
  offset : List Char → ρ → ℕ
  partitions : List Char → List (List ρ)

section Meaning

variable {ρ V : Type} (m : Meaning ρ V)

/-- What a call gives at a row of a partition. With one argument it is the row in front that counts,
and without a default a row that is not there gives `NULL`. -/
def LagCall.given (c : LagCall) (rows : List ρ) (i : ℕ) (row : ρ) : Option V :=
  match c.args with
  | [x] => lag (m.value (trim x)) none (preceding rows 1 i)
  | [x, n] => lag (m.value (trim x)) none (preceding rows (m.offset (trim n) row) i)
  | [x, n, d] =>
    lag (m.value (trim x)) (m.value (trim d) row) (preceding rows (m.offset (trim n) row) i)
  | _ => none

/-- What MariaDB gives for it. A call with a default is an error. -/
def Target.given : Target → Option (List ρ → ℕ → ρ → Option V)
  | .call c => if c.defaulted = none then some (c.given m) else none
  | .coalesce x n d _ => some fun rows i row =>
    (lag (m.value x) none (preceding rows (m.offset n row) i)).or (m.value d row)

/-- The window over which it is computed. -/
def Target.window : Target → List Char
  | .call c => c.window
  | .coalesce _ _ _ w => w

/-- MariaDB gives for one what Oracle gives for the other, at each row of each partition. -/
def Means (c : LagCall) (t : Target) : Prop :=
  t.window = c.window ∧ ∃ f, t.given m = some f ∧
    ∀ rows ∈ m.partitions c.window, ∀ i row, rows[i]? = some row →
      f rows i row = c.given m rows i row

/-- Each call of the statement gives what it gave. -/
def Faithful (s : LagStatement) : Prop :=
  List.Forall₂ (fun p t => Means m p.1 t.1) s.calls s.targets

/-- A row in front of another one has a value, or the other one has no default. -/
def Valued (c : LagCall) : Prop :=
  ∀ x n d, c.defaulted = some (x, n, d) → ∀ rows ∈ m.partitions c.window, ∀ i row,
    rows[i]? = some row → ∀ r ∈ preceding rows (m.offset n row) i,
      m.value x r = none → m.value d row = none

variable {m}

lemma means_call_iff (c : LagCall) : Means m c (.call c) ↔ c.defaulted = none := by
  constructor
  · rintro ⟨-, f, hf, -⟩
    by_contra hdef
    rw [Target.given, if_neg hdef] at hf
    cases hf
  · intro hdef
    refine ⟨rfl, c.given m, ?_, fun _ _ _ _ _ => rfl⟩
    rw [Target.given, if_pos hdef]

lemma means_coalesce_iff {c : LagCall} {x n d : List Char} (h : c.defaulted = some (x, n, d)) :
    Means m c (.coalesce x n d c.window) ↔ Valued m c := by
  have hgiven : ∀ rows i row, c.given m rows i row =
      lag (m.value x) (m.value d row) (preceding rows (m.offset n row) i) := by
    intro rows i row
    unfold LagCall.defaulted at h
    split at h
    · rename_i x' n' d' hargs
      obtain ⟨rfl, rfl, rfl⟩ : trim x' = x ∧ trim n' = n ∧ trim d' = d := by simpa using h
      rw [LagCall.given, hargs]
    · cases h
  constructor
  · rintro ⟨-, f, hf, hall⟩ x' n' d' h' rows hrows i row hrow
    obtain ⟨rfl, rfl, rfl⟩ : x = x' ∧ n = n' ∧ d = d' := by
      rw [h] at h'
      simpa using h'
    obtain rfl := Option.some.inj hf
    have heq := hall rows hrows i row hrow
    rw [hgiven] at heq
    exact (lag_or_iff _ _ _).1 heq
  · intro hval
    refine ⟨rfl, _, rfl, fun rows hrows i row hrow => ?_⟩
    rw [hgiven]
    exact (lag_or_iff _ _ _).2 (hval x n d h rows hrows i row hrow)

/-- What is put for the first call. -/
lemma means_lowerCall_iff (c : LagCall) :
    Means m c (LagStatement.lowerCall c) ↔ (c.defaulted ≠ none → c.OneCase ∧ Valued m c) := by
  cases hdef : c.defaulted with
  | none =>
    rw [LagStatement.lowerCall, hdef]
    simp [means_call_iff, hdef]
  | some p =>
    obtain ⟨x, n, d⟩ := p
    rw [LagStatement.lowerCall, hdef]
    by_cases hcase : c.OneCase
    · simp only [if_pos hcase, means_coalesce_iff hdef]
      simp [hcase]
    · simp only [if_neg hcase, means_call_iff, hdef]
      simp [hcase]

/-- **The calls of a statement are faithful** if and only if only the first one has a default, `OVER`
behind it is written in one case, and a row in front of another one has a value or the other one has
no default. -/
theorem faithful_iff (s : LagStatement) :
    Faithful m s ↔ (∀ p ∈ s.calls.tail, p.1.defaulted = none) ∧
      ∀ p ∈ s.calls.head?, p.1.defaulted ≠ none → p.1.OneCase ∧ Valued m p.1 := by
  rw [Faithful]
  obtain ⟨lead, calls, hlead⟩ := s
  cases calls with
  | nil => simp [LagStatement.targets]
  | cons p rest =>
    have hrest : List.Forall₂ (fun p t => Means m p.1 t.1) rest
        (rest.map fun p => (Target.call p.1, p.2)) ↔ ∀ p ∈ rest, p.1.defaulted = none := by
      rw [List.forall₂_map_right_iff, List.forall₂_same]
      simp only [means_call_iff]
    simp only [LagStatement.targets, List.forall₂_cons, hrest, means_lowerCall_iff, List.tail_cons,
      List.head?_cons, Option.mem_some_iff, forall_eq']
    exact And.comm

end Meaning

end DbSaci.Translate.Lag
