import DbSaci.Library.Text

set_option relaxedAutoImplicit false
set_option autoImplicit false

/-!
# Phrases

A phrase is the token sequence of an expression, with the parts in parentheses as groups. Its
value is compositional: it depends on the tokens and on the values of the words that stand for
something and of the groups, and a group has the value of what is in it.

## Main definitions

* `Text.Token`, `Text.Phrase` — tokens and phrases, with their texts.
* `Text.Meaning`, `Text.Phrase.eval` — the value of a phrase.
* `Text.Phrase.subst` — words replaced by groups.
* `Text.Term`, `Text.free` — the meaning that tells all phrases apart.

## Main results

* `Text.Phrase.eval_subst` — a substituted word has the value of its group.
* `Text.Phrase.eval_free_inj` — with the free meaning, phrases have one value only if their words
  do.
* `Text.Phrase.eval_free_eq_leaf` — the free value is that of a word only for a word alone.
-/

namespace Text

/-- A token: a word with its qualifiers, a symbol, or a quoted part. -/
inductive Token
  | word (w : List Char)
  | sym (c : Char)
  | quoted (q : Char) (body : List Char)
  deriving DecidableEq

/-- The text of a token. -/
def Token.text : Token → List Char
  | word w => w
  | sym c => [c]
  | quoted q body => q :: (body ++ [q])

/-- A sequence of tokens and groups in parentheses. -/
inductive Phrase
  | nil
  | tok (t : Token) (rest : Phrase)
  | group (inner rest : Phrase)
  deriving DecidableEq

/-- What values phrases have: the value of a sequence of tokens and values, where one value alone
is that value. -/
structure Meaning (V : Type) where
  value : List (Token ⊕ V) → V
  single : ∀ v, value [.inr v] = v

namespace Phrase

/-- The text of a phrase. -/
def text : Phrase → List Char
  | nil => []
  | tok t rest => t.text ++ rest.text
  | group inner rest => '(' :: (inner.text ++ ')' :: rest.text)

/-- The words of a phrase. -/
def words : Phrase → List (List Char)
  | nil => []
  | tok (.word w) rest => w :: rest.words
  | tok (.sym _) rest => rest.words
  | tok (.quoted _ _) rest => rest.words
  | group inner rest => inner.words ++ rest.words

section Value

variable {V : Type} (M : Meaning V) (ρ : List Char → Option V)

/-- The tokens and values of a phrase, where some words stand for values. -/
def items : Phrase → List (Token ⊕ V)
  | nil => []
  | tok (.word w) rest => ((ρ w).elim (.inl (.word w)) .inr) :: rest.items
  | tok (.sym c) rest => .inl (.sym c) :: rest.items
  | tok (.quoted q body) rest => .inl (.quoted q body) :: rest.items
  | group inner rest => .inr (M.value inner.items) :: rest.items

/-- The value of a phrase. -/
def eval (p : Phrase) : V := M.value (p.items M ρ)

end Value

/-- Replace words by groups. -/
def subst (σ : List Char → Option Phrase) : Phrase → Phrase
  | nil => nil
  | tok (.word w) rest =>
    match σ w with
    | some p => group p (rest.subst σ)
    | none => tok (.word w) (rest.subst σ)
  | tok (.sym c) rest => tok (.sym c) (rest.subst σ)
  | tok (.quoted q body) rest => tok (.quoted q body) (rest.subst σ)
  | group inner rest => group (inner.subst σ) (rest.subst σ)

lemma subst_none (p : Phrase) : p.subst (fun _ => none) = p := by
  induction p with
  | nil => rfl
  | tok t rest ih => cases t <;> rw [subst, ih]
  | group inner rest ihi ihr => rw [subst, ihi, ihr]

/-- The word a phrase consists of, if it is one word, perhaps in parentheses. -/
def single? : Phrase → Option (List Char)
  | tok (.word w) nil => some w
  | group inner nil => inner.single?
  | _ => none

section Value

variable {V : Type} {M : Meaning V} {ρ ρ' : List Char → Option V}

/-- The words of a phrase decide what it means. -/
lemma items_congr {p : Phrase} (h : ∀ w ∈ p.words, ρ w = ρ' w) :
    p.items M ρ = p.items M ρ' := by
  induction p with
  | nil => rfl
  | tok t rest ih =>
    cases t with
    | word w =>
      simp only [words, List.mem_cons, forall_eq_or_imp] at h
      rw [items, items, h.1, ih h.2]
    | sym c => rw [items, items, ih h]
    | quoted q body => rw [items, items, ih h]
  | group inner rest ihi ihr =>
    simp only [words, List.mem_append] at h
    rw [items, items, ihi fun w hw => h w (.inl hw), ihr fun w hw => h w (.inr hw)]

lemma eval_congr {p : Phrase} (h : ∀ w ∈ p.words, ρ w = ρ' w) : p.eval M ρ = p.eval M ρ' := by
  rw [eval, eval, items_congr h]

/-- The values of words after a substitution. -/
def substValue (M : Meaning V) (ρ : List Char → Option V) (σ : List Char → Option Phrase)
    (w : List Char) : Option V :=
  (σ w).elim (ρ w) fun p => some (p.eval M ρ)

lemma items_subst (σ : List Char → Option Phrase) (p : Phrase) :
    (p.subst σ).items M ρ = p.items M (substValue M ρ σ) := by
  induction p with
  | nil => rfl
  | tok t rest ih =>
    cases t with
    | word w =>
      rw [subst, items, substValue, ← ih]
      cases σ w with
      | none => rfl
      | some p => rfl
    | sym c => rw [subst, items, items, ih]
    | quoted q body => rw [subst, items, items, ih]
  | group inner rest ihi ihr => rw [subst, items, items, ihi, ihr]

/-- **A substituted word has the value of its group.** -/
theorem eval_subst (σ : List Char → Option Phrase) (p : Phrase) :
    (p.subst σ).eval M ρ = p.eval M (substValue M ρ σ) := by
  rw [eval, eval, items_subst]

/-- A word alone, also in parentheses, has its own value. -/
lemma eval_of_single {p : Phrase} {w : List Char} {v : V} (h : p.single? = some w)
    (hw : ρ w = some v) : p.eval M ρ = v := by
  induction p with
  | nil => cases h
  | tok t rest ih =>
    cases t with
    | word x =>
      cases rest with
      | nil =>
        obtain rfl : x = w := Option.some.inj h
        rw [eval, items, hw]
        exact M.single v
      | tok t rest => cases h
      | group inner rest => cases h
    | sym c => cases h
    | quoted q body => cases h
  | group inner rest ihi ihr =>
    cases rest with
    | nil => exact (M.single _).trans (ihi h)
    | tok t rest => cases h
    | group inner' rest => cases h

end Value

end Phrase

/-! ### The free meaning -/

/-- The values of the free meaning: what a word stands for, or a sequence of tokens and values. -/
inductive Term (α : Type)
  | leaf (a : α)
  | nil
  | token (t : Token) (rest : Term α)
  | value (v rest : Term α)

namespace Term

variable {α : Type}

/-- A sequence as a value. -/
def ofItems : List (Token ⊕ Term α) → Term α
  | [] => nil
  | .inl t :: xs => token t (ofItems xs)
  | .inr v :: xs => value v (ofItems xs)

lemma ofItems_injective : Function.Injective (ofItems (α := α)) := by
  intro xs ys h
  induction xs generalizing ys with
  | nil =>
    cases ys with
    | nil => rfl
    | cons y ys => cases y <;> cases h
  | cons x xs ih =>
    cases ys with
    | nil => cases x <;> cases h
    | cons y ys =>
      cases x <;> cases y
      · obtain ⟨rfl, htail⟩ := Term.token.inj h
        rw [ih htail]
      · cases h
      · cases h
      · obtain ⟨rfl, htail⟩ := Term.value.inj h
        rw [ih htail]

lemma ofItems_ne_leaf (xs : List (Token ⊕ Term α)) (a : α) : ofItems xs ≠ leaf a := by
  intro h
  cases xs with
  | nil => cases h
  | cons x xs => cases x <;> cases h

end Term

/-- The free meaning: a value alone is itself, and all other sequences are different. -/
def free (α : Type) : Meaning (Term α) where
  value
    | [.inr v] => v
    | xs => Term.ofItems xs
  single _ := rfl

namespace Phrase

variable {α : Type} {ρ ρ' : List Char → Option (Term α)}

/-- The same words stand for something. -/
def SameWords (p : Phrase) (ρ ρ' : List Char → Option (Term α)) : Prop :=
  ∀ w ∈ p.words, (ρ w).isSome = (ρ' w).isSome

/-- The value of a sequence in the free meaning, by the shape of the sequence. -/
lemma value_free (xs : List (Token ⊕ Term α)) :
    (∃ v, xs = [.inr v] ∧ (free α).value xs = v) ∨
      ((∀ v, xs ≠ [.inr v]) ∧ (free α).value xs = Term.ofItems xs) := by
  match xs with
  | [] => exact .inr ⟨by simp, rfl⟩
  | [.inl t] => exact .inr ⟨by simp, rfl⟩
  | [.inr v] => exact .inl ⟨v, rfl, rfl⟩
  | x :: y :: xs => exact .inr ⟨by simp, by cases x <;> rfl⟩

/-- Two sequences with values at the same places have one value only if they are equal. -/
lemma value_free_inj {xs ys : List (Token ⊕ Term α)}
    (hshape : xs.map Sum.isRight = ys.map Sum.isRight)
    (h : (free α).value xs = (free α).value ys) : xs = ys := by
  rcases value_free xs with ⟨v, rfl, hv⟩ | ⟨hne, hv⟩
  · cases ys with
    | nil => cases hshape
    | cons y ys =>
      cases ys with
      | cons z ys => simp at hshape
      | nil =>
        cases y with
        | inl t => simp at hshape
        | inr v' =>
          have : v = v' := h
          rw [this]
  · rcases value_free ys with ⟨v', rfl, hv'⟩ | ⟨hne', hv'⟩
    · exfalso
      cases xs with
      | nil => cases hshape
      | cons x xs =>
        cases xs with
        | cons z xs => simp at hshape
        | nil =>
          cases x with
          | inl t => simp at hshape
          | inr v => exact hne v rfl
    · rw [hv, hv'] at h
      exact Term.ofItems_injective h

/-- The places of the values of a phrase. -/
lemma shape_items {p : Phrase} (h : p.SameWords ρ ρ') :
    (p.items (free α) ρ).map Sum.isRight = (p.items (free α) ρ').map Sum.isRight := by
  induction p with
  | nil => rfl
  | tok t rest ih =>
    cases t with
    | word w =>
      simp only [SameWords, words, List.mem_cons, forall_eq_or_imp] at h
      have ih := ih h.2
      have hw := h.1
      rw [items, items, List.map_cons, List.map_cons, ih]
      cases hρ : ρ w <;> cases hρ' : ρ' w <;> rw [hρ, hρ'] at hw <;> first | rfl | cases hw
    | sym c => rw [items, items, List.map_cons, List.map_cons, ih h]
    | quoted q body => rw [items, items, List.map_cons, List.map_cons, ih h]
  | group inner rest ihi ihr =>
    have hr : rest.SameWords ρ ρ' := fun w hw => h w (List.mem_append_right _ hw)
    rw [items, items, List.map_cons, List.map_cons, ihr hr]
    rfl

/-- **With the free meaning, phrases have one value only if their words do.** -/
theorem eval_free_inj {p : Phrase} (h : p.SameWords ρ ρ')
    (heval : p.eval (free α) ρ = p.eval (free α) ρ') : ∀ w ∈ p.words, ρ w = ρ' w := by
  have hitems := value_free_inj (shape_items h) heval
  clear heval
  induction p with
  | nil => simp [words]
  | tok t rest ih =>
    cases t with
    | word w =>
      simp only [SameWords, words, List.mem_cons, forall_eq_or_imp] at h ⊢
      rw [items, items, List.cons.injEq] at hitems
      refine ⟨?_, ih h.2 hitems.2⟩
      have hw := h.1
      have hval := hitems.1
      cases hρ : ρ w <;> cases hρ' : ρ' w <;> rw [hρ, hρ'] at hw hval
      · cases hw
      · cases hw
      · exact congrArg some (Sum.inr.inj hval)
    | sym c => exact ih h (List.cons.inj hitems).2
    | quoted q body => exact ih h (List.cons.inj hitems).2
  | group inner rest ihi ihr =>
    have hi : inner.SameWords ρ ρ' := fun w hw => h w (List.mem_append_left _ hw)
    have hr : rest.SameWords ρ ρ' := fun w hw => h w (List.mem_append_right _ hw)
    rw [items, items, List.cons.injEq] at hitems
    intro w hw
    rcases List.mem_append.1 hw with hw | hw
    · exact ihi hi (value_free_inj (shape_items hi) (Sum.inr.inj hitems.1)) w hw
    · exact ihr hr hitems.2 w hw

/-- **The free value is that of a word only for a word alone.** -/
theorem eval_free_eq_leaf {p : Phrase} {a : α} :
    p.eval (free α) ρ = .leaf a ↔ ∃ w, p.single? = some w ∧ ρ w = some (.leaf a) := by
  constructor
  · intro h
    induction p with
    | nil => cases h
    | tok t rest ih =>
      rcases value_free ((tok t rest).items (free α) ρ) with ⟨v, hv, -⟩ | ⟨-, hv⟩
      · cases t with
        | word w =>
          rw [items, List.cons.injEq] at hv
          cases rest with
          | nil =>
            refine ⟨w, rfl, ?_⟩
            cases hρ : ρ w with
            | none =>
              rw [hρ] at hv
              cases hv.1
            | some v' =>
              have heval := eval_of_single (M := free α) (p := tok (.word w) nil) rfl hρ
              rw [← heval, h]
          | tok t rest => cases t <;> cases hv.2
          | group inner rest => cases hv.2
        | sym c => cases hv
        | quoted q body => cases hv
      · exact absurd (hv.symm.trans h) (Term.ofItems_ne_leaf _ _)
    | group inner rest ihi ihr =>
      rcases value_free ((group inner rest).items (free α) ρ) with ⟨v, hv, -⟩ | ⟨-, hv⟩
      · cases rest with
        | nil => exact ihi h
        | tok t rest =>
          rw [items, List.cons.injEq] at hv
          cases t <;> cases hv.2
        | group inner' rest =>
          rw [items, List.cons.injEq] at hv
          cases hv.2
      · exact absurd (hv.symm.trans h) (Term.ofItems_ne_leaf _ _)
  · rintro ⟨w, hw, hρ⟩
    exact eval_of_single hw hρ

end Phrase

end Text
