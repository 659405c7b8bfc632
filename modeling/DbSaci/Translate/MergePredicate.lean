import DbSaci.Translate.MergeText
import DbSaci.Translate.PhraseText
import DbSaci.Sql.MergeDelete

set_option relaxedAutoImplicit false
set_option autoImplicit false

/-!
# Putting the assignments into the text of a condition

The text of a list of assignments is cut at its commas, each assignment at its first `=`, and the
right-hand side replaces the left-hand side in the text of the condition. On texts whose words are
clean this is the text of the condition with the assignments put in.

## Main results

* `splitTopLevelCommas_assignments` — the parts of a list of assignments.
* `substituteAssignments_text` — the text of the rewritten condition.
-/

namespace DbSaci.Translate

open Text

/-! ### Names -/

lemma trimmed_of_name {w : List Char} (h : Name w) : Trimmed w :=
  ⟨h.1, (h.2 _ (List.head_mem h.1)).2.2, (h.2 _ (List.getLast_mem h.1)).2.2⟩

lemma trimmed_append {x y : List Char} (hx : Trimmed x) (hy : Trimmed y) : Trimmed (x ++ y) := by
  obtain ⟨hxne, hhead, -⟩ := hx
  obtain ⟨hyne, -, hlast⟩ := hy
  refine ⟨List.append_ne_nil_of_left_ne_nil hxne y, ?_, ?_⟩
  · rw [List.head_append_of_ne_nil hxne]
    exact hhead
  · rw [List.getLast_append_of_right_ne_nil _ _ hyne]
    exact hlast

/-- The assignments are to columns, with the alias of the target or none. -/
def ValidTarget (a : Assignment) : Prop := Name a.col ∧ ∀ q ∈ a.qualifier, Name q

lemma lhs_word {a : Assignment} (h : ValidTarget a) : ∀ c ∈ a.lhs, isWordChar c = true := by
  intro c hc
  rw [Assignment.lhs] at hc
  cases hq : a.qualifier with
  | none =>
    rw [hq] at hc
    exact (h.1.2 c hc).1
  | some q =>
    rw [hq, Option.elim_some, List.mem_append, List.mem_cons] at hc
    rcases hc with hc | rfl | hc
    · exact ((h.2 q hq).2 c hc).1
    · rfl
    · exact (h.1.2 c hc).1

lemma lhs_trimmed {a : Assignment} (h : ValidTarget a) : Trimmed a.lhs := by
  rw [Assignment.lhs]
  cases hq : a.qualifier with
  | none => exact trimmed_of_name h.1
  | some q =>
    have hdot : Trimmed ['.'] := ⟨by simp, rfl, rfl⟩
    exact trimmed_append (trimmed_of_name (h.2 q hq)) (trimmed_append hdot (trimmed_of_name h.1))

lemma ne_of_isWordChar {c d : Char} (hc : isWordChar c = true) (hd : isWordChar d = false) :
    c ≠ d := by
  rintro rfl
  rw [hd] at hc
  cases hc

/-! ### The parts between the commas -/

/-- The characters in front of a right-hand side. -/
lemma lhs_ordinary {a : Assignment} (h : ValidTarget a) {g : List Char} (hg : Gap g) :
    ∀ c ∈ g ++ (a.lhs ++ " = ".toList),
      c ≠ '\'' ∧ c ≠ '"' ∧ c ≠ '(' ∧ c ≠ ')' ∧ c ≠ ',' := by
  intro c hc
  simp only [List.mem_append] at hc
  rcases hc with hc | hc | hc
  · rcases isWhitespace_cases (hg c hc) with rfl | rfl | rfl | rfl <;> decide
  · have hword := lhs_word h c hc
    exact ⟨ne_of_isWordChar hword rfl, ne_of_isWordChar hword rfl, ne_of_isWordChar hword rfl,
      ne_of_isWordChar hword rfl, ne_of_isWordChar hword rfl⟩
  · revert c
    decide

section Part

variable {a : Assignment} (ht : ValidTarget a) (hr : Expression a.rhs) {g : List Char} (hg : Gap g)

include ht hr hg

lemma part_closed : Closed (g ++ a.text) := by
  have h : g ++ a.text = (g ++ (a.lhs ++ " = ".toList)) ++ a.rhs.text := by simp [Assignment.text]
  rw [h]
  refine Closed.append (closed_of_ordinary fun c hc => ?_) hr.closed
  obtain ⟨h1, h2, h3, h4, -⟩ := lhs_ordinary ht hg c hc
  exact ⟨h1, h2, h3, h4⟩

lemma part_comma : splitTopLevelCommas (g ++ a.text) = [g ++ a.text] := by
  have h : g ++ a.text = (g ++ (a.lhs ++ " = ".toList)) ++ a.rhs.text := by simp [Assignment.text]
  rw [h]
  exact splitTopLevelCommas_ordinary (lhs_ordinary ht hg) hr.comma

/-- What one assignment does to the text of a condition. -/
lemma substituteAssignment_part (predicate : List Char) :
    substituteAssignment predicate (g ++ a.text) =
      if a.qualifier.isSome then
        replaceIdentifierOutsideLiterals predicate a.lhs ('(' :: (a.rhs.text ++ [')']))
      else predicate := by
  have hno : '=' ∉ g ++ (a.lhs ++ [' ']) := by
    simp only [List.mem_append, List.mem_singleton]
    rintro (h | h | h)
    · rcases isWhitespace_cases (hg _ h) with h | h | h | h <;> cases h
    · exact ne_of_isWordChar (lhs_word ht _ h) rfl rfl
    · cases h
  have htext : g ++ a.text = (g ++ (a.lhs ++ [' '])) ++ (['='] ++ (' ' :: a.rhs.text)) := by
    simp [Assignment.text]
  have hfind := find_append (c := '=') (t := []) List.not_mem_nil (g ++ (a.lhs ++ [' ']))
    (' ' :: a.rhs.text) (fun h => hno (h.subset List.mem_cons_self))
  have hblank : Gap [' '] := by decide
  have hlhs : trim ((g ++ a.text).take (g ++ (a.lhs ++ [' '])).length) = a.lhs := by
    rw [htext, List.take_left]
    exact trim_gaps hg hblank (lhs_trimmed ht)
  have hrhs : trim ((g ++ a.text).drop ((g ++ (a.lhs ++ [' '])).length + 1)) = a.rhs.text := by
    rw [htext, ← List.drop_drop, List.drop_left]
    have hnone : Gap [] := fun _ h => absurd h List.not_mem_nil
    have htrim := trim_gaps hblank hnone hr.trimmed
    rw [List.append_nil] at htrim
    exact htrim
  have hdot : '.' ∈ a.lhs ↔ a.qualifier.isSome = true := by
    rw [Assignment.lhs]
    cases hq : a.qualifier with
    | none =>
      constructor
      · intro h
        exact absurd rfl (ht.1.2 '.' h).2.1
      · intro h
        cases h
    | some q => simp
  rw [substituteAssignment, htext, hfind, ← htext]
  simp only [hlhs, hrhs, hdot]

end Part

/-- **The parts of a list of assignments.** -/
theorem splitTopLevelCommas_assignments {a : Assignment} {as : List Assignment}
    (ht : ∀ b ∈ a :: as, ValidTarget b) (hr : ∀ b ∈ a :: as, Expression b.rhs) {g : List Char}
    (hg : Gap g) :
    splitTopLevelCommas (g ++ assignmentsText (a :: as) []) =
      (g ++ a.text) :: as.map fun b => ' ' :: b.text := by
  induction as generalizing a g with
  | nil =>
    have h := part_comma (ht a List.mem_cons_self) (hr a List.mem_cons_self) hg
    rw [assignmentsText, List.append_nil, h]
    rfl
  | cons b as ih =>
    have hblank : Gap [' '] := by decide
    have hrest := ih (a := b) (fun c hc => ht c (List.mem_cons_of_mem _ hc))
      (fun c hc => hr c (List.mem_cons_of_mem _ hc)) hblank
    have htext : g ++ assignmentsText (a :: b :: as) [] =
        (g ++ a.text) ++ ',' :: ([' '] ++ assignmentsText (b :: as) []) := by
      simp [assignmentsText]
    rw [htext, splitTopLevelCommas_append
      (part_closed (ht a List.mem_cons_self) (hr a List.mem_cons_self) hg)
      (part_comma (ht a List.mem_cons_self) (hr a List.mem_cons_self) hg), hrest]
    rfl

/-! ### All assignments -/

/-- At every step each word of the condition is the left-hand side or does not have it in it. -/
def Cleans : List Assignment → Phrase → Prop
  | [], _ => True
  | a :: as, p =>
    (a.qualifier.isSome = true → ∀ w ∈ p.words, Clean a.lhs w) ∧ Cleans as (p.subst a.group)

instance decidableCleans : ∀ (as : List Assignment) (p : Phrase), Decidable (Cleans as p)
  | [], _ => inferInstanceAs (Decidable True)
  | a :: as, p =>
    have := decidableCleans as (p.subst a.group)
    inferInstanceAs (Decidable ((_ → _) ∧ _))

/-- An assignment without the alias replaces nothing. -/
lemma subst_unqualified {a : Assignment} (h : ¬ a.qualifier.isSome = true) (p : Phrase) :
    p.subst a.group = p := by
  have hnone : a.group = fun _ => none := funext fun w => if_neg fun hit => h hit.1
  rw [hnone, Phrase.subst_none]

lemma subst_group_lexed {a : Assignment} (hr : Expression a.rhs) {p : Phrase} (hp : p.Lexed) :
    (p.subst a.group).Lexed := by
  refine Phrase.subst_lexed hp fun w q hq => ?_
  rw [Assignment.group] at hq
  split_ifs at hq
  obtain rfl := Option.some.inj hq
  exact hr.lexed

/-- The rewritten condition has the tokens of its text. -/
lemma rewritten_lexed {as : List Assignment} (hr : ∀ a ∈ as, Expression a.rhs) {p : Phrase}
    (hp : p.Lexed) : (Merge.rewritten as p).Lexed := by
  induction as generalizing p with
  | nil => exact hp
  | cons a as ih =>
    exact ih (fun b hb => hr b (List.mem_cons_of_mem _ hb))
      (subst_group_lexed (hr a List.mem_cons_self) hp)

/-- No word `SET` comes into the condition that is not in it or in an assignment. -/
lemma rewritten_setFree {as : List Assignment} (hr : ∀ a ∈ as, a.rhs.SetFree) {p : Phrase}
    (hp : p.SetFree) : (Merge.rewritten as p).SetFree := by
  induction as generalizing p with
  | nil => exact hp
  | cons a as ih =>
    refine ih (fun b hb => hr b (List.mem_cons_of_mem _ hb)) ?_
    refine Phrase.subst_setFree hp fun w q hq => ?_
    rw [Assignment.group] at hq
    split_ifs at hq
    obtain rfl := Option.some.inj hq
    exact hr a List.mem_cons_self

/-- One assignment replaces the words that are its left-hand side. -/
lemma substituteAssignment_text {a : Assignment} (ht : ValidTarget a) (hr : Expression a.rhs)
    {g : List Char} (hg : Gap g) {p : Phrase} (hp : p.Lexed)
    (hclean : a.qualifier.isSome = true → ∀ w ∈ p.words, Clean a.lhs w) :
    substituteAssignment p.text (g ++ a.text) = (p.subst a.group).text := by
  rw [substituteAssignment_part ht hr hg]
  by_cases hq : a.qualifier.isSome = true
  · have hgroup : nameGroup a.lhs a.rhs = a.group := by
      funext w
      simp [nameGroup, Assignment.group, Assignment.hits, hq]
    obtain ⟨hne, -⟩ := lhs_trimmed ht
    rw [if_pos hq, replaceIdentifier_text (lhs_word ht) hne a.rhs hp (hclean hq), hgroup]
  · rw [if_neg hq, subst_unqualified hq]

lemma foldl_substituteAssignment {as : List Assignment} (ht : ∀ a ∈ as, ValidTarget a)
    (hr : ∀ a ∈ as, Expression a.rhs) {p : Phrase} (hp : p.Lexed) (hclean : Cleans as p) :
    (as.map fun a => ' ' :: a.text).foldl substituteAssignment p.text =
      (Merge.rewritten as p).text := by
  induction as generalizing p with
  | nil => rfl
  | cons a as ih =>
    have hblank : Gap [' '] := by decide
    have hstep : substituteAssignment p.text (' ' :: a.text) = (p.subst a.group).text :=
      substituteAssignment_text (ht a List.mem_cons_self) (hr a List.mem_cons_self) hblank hp
        hclean.1
    rw [List.map_cons, List.foldl_cons, hstep]
    exact ih (fun b hb => ht b (List.mem_cons_of_mem _ hb))
      (fun b hb => hr b (List.mem_cons_of_mem _ hb))
      (subst_group_lexed (hr a List.mem_cons_self) hp) hclean.2

/-- **The text of the rewritten condition.** -/
theorem substituteAssignments_text {as : List Assignment} (hne : as ≠ [])
    (ht : ∀ a ∈ as, ValidTarget a) (hr : ∀ a ∈ as, Expression a.rhs) {p : Phrase} (hp : p.Lexed)
    (hclean : Cleans as p) :
    substituteAssignments (assignmentsText as []) p.text = (Merge.rewritten as p).text := by
  obtain ⟨a, as, rfl⟩ := List.exists_cons_of_ne_nil hne
  have hnil : Gap [] := fun c hc => by cases hc
  have hparts := splitTopLevelCommas_assignments ht hr hnil
  have hfirst : substituteAssignment p.text a.text = (p.subst a.group).text :=
    substituteAssignment_text (ht a List.mem_cons_self) (hr a List.mem_cons_self) hnil hp hclean.1
  rw [List.nil_append, List.nil_append] at hparts
  rw [substituteAssignments, hparts, List.foldl_cons, hfirst]
  exact foldl_substituteAssignment (fun b hb => ht b (List.mem_cons_of_mem _ hb))
    (fun b hb => hr b (List.mem_cons_of_mem _ hb))
    (subst_group_lexed (hr a List.mem_cons_self) hp) hclean.2

end DbSaci.Translate
