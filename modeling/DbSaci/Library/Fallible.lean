import Mathlib.Order.Basic

set_option relaxedAutoImplicit false
set_option autoImplicit false

/-!
# Computations that may fail

A computation on a state ends with a value or an error, and leaves a state in both cases. An error
can be caught, and the computation then goes on in the state that was left.

## Main definitions

* `Fallible` — the computations, a monad.
* `Fallible.recover` — some errors are caught.
* `Fallible.zoom` — a computation on a part of the state.
* `Fallible.Ensures` — an invariant is kept, and what holds of the value.

## Main results

* `Fallible.Ensures.bind` — the rule for one computation after another.
-/

/-- A computation on a state: its value or error, and the state it leaves. -/
def Fallible (σ ε α : Type) : Type := σ → Except ε α × σ

namespace Fallible

variable {σ τ ε α β : Type}

/-- No step. -/
def ret (a : α) : Fallible σ ε α := fun s => (.ok a, s)

/-- One computation after another. -/
def andThen (p : Fallible σ ε α) (f : α → Fallible σ ε β) : Fallible σ ε β := fun s =>
  match p s with
  | (.ok a, s) => f a s
  | (.error e, s) => (.error e, s)

instance : Monad (Fallible σ ε) where
  pure := ret
  bind := andThen

/-- An error. -/
def fail (e : ε) : Fallible σ ε α := fun s => (.error e, s)

/-- A computation that is part of another one. -/
def ofExcept : Except ε α → Fallible σ ε α
  | .ok a => ret a
  | .error e => fail e

/-- Some errors are caught. -/
def recover (caught : ε → Bool) (p : Fallible σ ε α) : Fallible σ ε (Option α) := fun s =>
  match p s with
  | (.ok a, s) => (.ok (some a), s)
  | (.error e, s) => (if caught e then .ok none else .error e, s)

/-- The same computation some times. -/
def times : ℕ → Fallible σ ε α → Fallible σ ε Unit
  | 0, _ => ret ()
  | n + 1, p => andThen p fun _ => times n p

/-- A computation on a part of the state. -/
def zoom (get : τ → σ) (set : σ → τ → τ) (p : Fallible σ ε α) : Fallible τ ε α := fun t =>
  ((p (get t)).1, set (p (get t)).2 t)

lemma bind_of_ok {p : Fallible σ ε α} {f : α → Fallible σ ε β} {s s' : σ} {a : α}
    (h : p s = (.ok a, s')) : (p >>= f) s = f a s' := by
  change andThen p f s = _
  rw [andThen, h]

lemma bind_of_error {p : Fallible σ ε α} {f : α → Fallible σ ε β} {s s' : σ} {e : ε}
    (h : p s = (.error e, s')) : (p >>= f) s = (.error e, s') := by
  change andThen p f s = _
  rw [andThen, h]

/-- If one computation after another succeeds, both do. -/
lemma of_bind_ok {p : Fallible σ ε α} {f : α → Fallible σ ε β} {s s' : σ} {b : β}
    (h : (p >>= f) s = (.ok b, s')) : ∃ a t, p s = (.ok a, t) ∧ f a t = (.ok b, s') := by
  rcases hp : p s with ⟨e | a, t⟩
  · rw [bind_of_error hp] at h
    cases h
  · rw [bind_of_ok hp] at h
    exact ⟨a, t, rfl, h⟩

/-- A value that is only renamed behind a computation. -/
lemma bind_ret_iff {p : Fallible σ ε α} {f : α → β} (hf : Function.Injective f) {s s' : σ} {a : α} :
    (p >>= fun v => ret (f v)) s = (.ok (f a), s') ↔ p s = (.ok a, s') := by
  constructor
  · intro h
    obtain ⟨b, t, hb, h⟩ := of_bind_ok h
    obtain ⟨hvalue, rfl⟩ := Prod.mk.inj h
    rwa [hf (Except.ok.inj hvalue)] at hb
  · intro h
    exact bind_of_ok h

/-! ### Invariants -/

/-- An invariant is kept, whether the computation succeeds or not, and a value has a property. -/
def Ensures (I : σ → Prop) (Q : α → Prop) (p : Fallible σ ε α) : Prop :=
  ∀ s, I s → I (p s).2 ∧ ∀ a, (p s).1 = .ok a → Q a

/-- An invariant is kept. -/
def Keeps (I : σ → Prop) (p : Fallible σ ε α) : Prop := Ensures I (fun _ => True) p

namespace Ensures

variable {I : σ → Prop} {Q : α → Prop} {R : β → Prop} {p : Fallible σ ε α}

lemma pure {a : α} (h : Q a) : Ensures I Q (ret a : Fallible σ ε α) := fun _ hs =>
  ⟨hs, fun _ ha => Except.ok.inj ha ▸ h⟩

lemma fail (e : ε) : Ensures I Q (Fallible.fail e : Fallible σ ε α) := fun _ hs =>
  ⟨hs, fun _ ha => by cases ha⟩

/-- **One computation after another keeps what both keep.** -/
theorem bind {f : α → Fallible σ ε β} (hp : Ensures I Q p) (hf : ∀ a, Q a → Ensures I R (f a)) :
    Ensures I R (p >>= f) := by
  intro s hs
  obtain ⟨hkept, hvalue⟩ := hp s hs
  rcases heq : p s with ⟨e | a, t⟩
  · rw [heq] at hkept
    rw [bind_of_error heq]
    exact ⟨hkept, fun _ hb => by cases hb⟩
  · rw [heq] at hkept hvalue
    rw [bind_of_ok heq]
    exact hf a (hvalue a rfl) t hkept

lemma recover {caught : ε → Bool} (h : Ensures I Q p) :
    Ensures I (fun o : Option α => ∀ a ∈ o, Q a) (p.recover caught) := by
  intro s hs
  obtain ⟨hkept, hvalue⟩ := h s hs
  rcases heq : p s with ⟨e | a, t⟩
  · rw [heq] at hkept
    rw [Fallible.recover, heq]
    refine ⟨hkept, fun o ho a ha => ?_⟩
    dsimp only at ho
    split_ifs at ho
    obtain rfl := Except.ok.inj ho
    cases ha
  · rw [heq] at hkept hvalue
    rw [Fallible.recover, heq]
    refine ⟨hkept, fun o ho b hb => ?_⟩
    obtain rfl := Except.ok.inj ho
    obtain rfl := Option.some.inj hb
    exact hvalue a rfl

lemma mono {Q' : α → Prop} (h : Ensures I Q p) (hQ : ∀ a, Q a → Q' a) : Ensures I Q' p :=
  fun s hs => ⟨(h s hs).1, fun a ha => hQ a ((h s hs).2 a ha)⟩

end Ensures

/-- A computation on a part of the state keeps what is said of the rest. -/
lemma keeps_zoom {get : τ → σ} {set : σ → τ → τ} {I : τ → Prop} (h : ∀ s t, I t → I (set s t))
    (p : Fallible σ ε α) : Keeps I (p.zoom get set) := fun t ht => ⟨h _ t ht, fun _ _ => trivial⟩

end Fallible
