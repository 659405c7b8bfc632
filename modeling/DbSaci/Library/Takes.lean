import DbSaci.Library.Fallible

set_option relaxedAutoImplicit false
set_option autoImplicit false

/-!
# Readers and what they are written for

A reader of a list takes a front of it and finds a value, whatever stands behind. Such readers
compose: what one after another takes are the fronts one after another.

## Main definitions

* `Fallible.Takes` — a reader takes a front and finds a value.

## Main results

* `Fallible.Takes.bind` — the rule for one reader after another.
* `Fallible.Takes.skip` — the rule for a reader whose value is not used.
* `Fallible.takes_times` — the rule for the same reader some times.
-/

namespace Fallible

variable {τ ε α β : Type}

/-- A reader takes a front of the list and finds a value, whatever stands behind it. -/
def Takes (p : Fallible (List τ) ε α) (front : List τ) (a : α) : Prop :=
  ∀ rest, p (front ++ rest) = (.ok a, rest)

variable {p : Fallible (List τ) ε α} {front : List τ} {a : α}

/-- What is found if nothing stands behind. -/
lemma Takes.run (h : Takes p front a) : p front = (.ok a, []) := by
  have hrun := h []
  rwa [List.append_nil] at hrun

lemma takes_ret (a : α) : Takes (ret a : Fallible (List τ) ε α) [] a := fun _ => rfl

/-- **One reader after another** takes the fronts one after another. -/
theorem Takes.bind {f : α → Fallible (List τ) ε β} {front' : List τ} {b : β}
    (h : Takes p front a) (h' : Takes (f a) front' b) : Takes (p >>= f) (front ++ front') b := by
  intro rest
  rw [List.append_assoc, bind_of_ok (h _)]
  exact h' rest

/-- A reader that ends with what it has found. -/
lemma Takes.bind_ret {f : α → β} (h : Takes p front a) :
    Takes (p >>= fun a => ret (f a)) front (f a) := fun rest => bind_of_ok (h rest)

/-- A reader whose value is not used. -/
theorem Takes.skip {q : Fallible (List τ) ε β} {front' : List τ} {b : β}
    (h : ∃ a, Takes p front a) (h' : Takes q front' b) :
    Takes (p >>= fun _ => q) (front ++ front') b := by
  obtain ⟨a, ha⟩ := h
  exact ha.bind h'

/-- **The same reader some times** takes the fronts one after another. -/
theorem takes_times {fronts : List (List τ)} (h : ∀ front ∈ fronts, ∃ a, Takes p front a) :
    Takes (times fronts.length p) fronts.flatten () := by
  induction fronts with
  | nil => exact takes_ret ()
  | cons front fronts ih =>
    obtain ⟨hfront, hfronts⟩ := List.forall_mem_cons.1 h
    exact Takes.skip hfront (ih hfronts)

end Fallible
