import Mathlib.Order.Basic

set_option relaxedAutoImplicit false
set_option autoImplicit false

/-!
# Incremental readers

A reader asks for an exact number of bytes, goes on with what it got, and ends with a value or
fails. Run on the bytes that are there it may come to an end or ask for more; more bytes never
change what it has read already.

## Main definitions

* `Reader`, `Reader.run` — readers, and what they do on the bytes that are there.
* `Reader.framing` — the values a reader finds in a stream one after the other.
* `Reader.Reads` — a stream is read value by value, and nothing is left.
* `Reader.total` — the sizes of some values together.
* `Reader.left` — the text that a reader leaves, also if it fails.

## Main results

* `Reader.run_append` — more bytes do not change a result.
* `Reader.framing_append` — the first value of a stream, and the values of the rest.
-/

/-- A reader of symbols: it ends with a value, fails, or asks for so many symbols. -/
inductive Reader (β α : Type)
  | done (a : α)
  | fail
  | exact (n : ℕ) (next : List β → Reader β α)

namespace Reader

variable {β α γ : Type}

/-- What a reader does on a text. -/
inductive Outcome (β α : Type)
  | incomplete
  | error
  | ok (a : α) (rest : List β)

/-- Run a reader on the text that is there. -/
def run : Reader β α → List β → Outcome β α
  | done a, s => .ok a s
  | fail, _ => .error
  | exact n next, s => if s.length < n then .incomplete else run (next (s.take n)) (s.drop n)

lemma run_exact (n : ℕ) (next : List β → Reader β α) (s : List β) :
    (exact n next).run s = if s.length < n then .incomplete else (next (s.take n)).run (s.drop n) :=
  rfl

/-- The text that is left when a reader ends or asks for more. -/
def left : Reader β α → List β → List β
  | done _, s => s
  | fail, s => s
  | exact n next, s => if s.length < n then [] else left (next (s.take n)) (s.drop n)

/-- Go on with another reader. -/
def bind : Reader β α → (α → Reader β γ) → Reader β γ
  | done a, f => f a
  | fail, _ => fail
  | exact n next, f => exact n fun s => (next s).bind f

lemma run_exact_ok {n : ℕ} {next : List β → Reader β α} {s rest : List β} {a : α}
    (h : (exact n next).run s = .ok a rest) :
    n ≤ s.length ∧ (next (s.take n)).run (s.drop n) = .ok a rest := by
  rw [run_exact] at h
  split_ifs at h with hlt
  exact ⟨Nat.le_of_not_lt hlt, h⟩

/-- If one reader after another comes to an end, both do. -/
lemma of_run_bind {r : Reader β α} {f : α → Reader β γ} {s rest : List β} {c : γ}
    (h : (r.bind f).run s = .ok c rest) :
    ∃ a t, r.run s = .ok a t ∧ (f a).run t = .ok c rest := by
  induction r generalizing s with
  | done b => exact ⟨b, s, rfl, h⟩
  | fail => cases h
  | exact n next ih =>
    obtain ⟨hle, h⟩ := run_exact_ok h
    rw [run_exact, if_neg (Nat.not_lt.2 hle)]
    exact ih _ h

/-- One reader after another. -/
lemma run_bind {r : Reader β α} {f : α → Reader β γ} {s rest : List β} {a : α}
    (h : r.run s = .ok a rest) : (r.bind f).run s = (f a).run rest := by
  induction r generalizing s with
  | done b =>
    cases h
    rfl
  | fail => cases h
  | exact n next ih =>
    obtain ⟨hle, h⟩ := run_exact_ok h
    rw [bind, run_exact, if_neg (Nat.not_lt.2 hle)]
    exact ih _ h

lemma run_exact_append {n : ℕ} {s : List β} (h : n ≤ s.length) (next : List β → Reader β α)
    (t : List β) : (exact n next).run (s ++ t) = (next (s.take n)).run (s.drop n ++ t) := by
  have hlt : ¬ (s ++ t).length < n := by
    rw [List.length_append]
    omega
  rw [run_exact, if_neg hlt, List.take_append_of_le_length h, List.drop_append_of_le_length h]

/-- **More text does not change a result.** -/
theorem run_append {r : Reader β α} {s rest : List β} {a : α} (h : r.run s = .ok a rest)
    (t : List β) : r.run (s ++ t) = .ok a (rest ++ t) := by
  induction r generalizing s with
  | done b =>
    cases h
    rfl
  | fail => cases h
  | exact n next ih =>
    obtain ⟨hle, h⟩ := run_exact_ok h
    rw [run_exact_append hle]
    exact ih _ h

/-- More text does not change an error. -/
lemma run_append_error {r : Reader β α} {s : List β} (h : r.run s = .error) (t : List β) :
    r.run (s ++ t) = .error := by
  induction r generalizing s with
  | done b => cases h
  | fail => rfl
  | exact n next ih =>
    rw [run_exact] at h
    split_ifs at h with hlt
    rw [run_exact_append (Nat.le_of_not_lt hlt)]
    exact ih _ h

/-- A reader leaves no more than there was. -/
lemma length_rest_le {r : Reader β α} {s rest : List β} {a : α} (h : r.run s = .ok a rest) :
    rest.length ≤ s.length := by
  induction r generalizing s with
  | done b =>
    cases h
    exact Nat.le_refl _
  | fail => cases h
  | exact n next ih =>
    obtain ⟨-, h⟩ := run_exact_ok h
    have hrest := ih _ h
    rw [List.length_drop] at hrest
    omega

/-- A reader that asks for something takes something. -/
lemma length_rest_lt {n : ℕ} {next : List β → Reader β α} {s rest : List β} {a : α}
    (hn : 0 < n) (h : (exact n next).run s = .ok a rest) : rest.length < s.length := by
  obtain ⟨hle, h⟩ := run_exact_ok h
  have hrest := length_rest_le h
  rw [List.length_drop] at hrest
  omega

/-! ### Streams -/

/-- The values at the start of a stream, at most so many. -/
def frames (r : Reader β α) : ℕ → List β → List α
  | 0, _ => []
  | fuel + 1, s =>
    match r.run s with
    | .ok a rest => a :: frames r fuel rest
    | .incomplete => []
    | .error => []

/-- The values a reader finds in a stream one after the other. -/
def framing (r : Reader β α) (s : List β) : List α := frames r s.length s

/-- The reader takes something for each value. -/
def Takes (r : Reader β α) : Prop :=
  ∀ s a rest, r.run s = .ok a rest → rest.length < s.length

lemma frames_of_le {r : Reader β α} (hr : r.Takes) {fuel : ℕ} {s : List β}
    (h : s.length ≤ fuel) : frames r fuel s = framing r s := by
  suffices hall : ∀ (n m : ℕ) (s : List β), s.length ≤ n → s.length ≤ m →
      frames r n s = frames r m s from hall fuel s.length s h (Nat.le_refl _)
  intro n
  induction n with
  | zero =>
    intro m s hn hm
    obtain rfl : s = [] := List.eq_nil_of_length_eq_zero (Nat.le_zero.1 hn)
    cases m with
    | zero => rfl
    | succ m =>
      rw [frames, frames]
      cases hrun : r.run [] with
      | ok a rest => exact absurd (hr _ _ _ hrun) (Nat.not_lt_zero _)
      | incomplete => rfl
      | error => rfl
  | succ n ih =>
    intro m s hn hm
    cases m with
    | zero =>
      obtain rfl : s = [] := List.eq_nil_of_length_eq_zero (Nat.le_zero.1 hm)
      rw [frames, frames]
      cases hrun : r.run [] with
      | ok a rest => exact absurd (hr _ _ _ hrun) (Nat.not_lt_zero _)
      | incomplete => rfl
      | error => rfl
    | succ m =>
      rw [frames, frames]
      cases hrun : r.run s with
      | ok a rest =>
        have hlt := hr _ _ _ hrun
        dsimp only
        rw [ih m rest (by omega) (by omega)]
      | incomplete => rfl
      | error => rfl

/-- **The first value of a stream, and the values of the rest.** -/
theorem framing_append {r : Reader β α} (hr : r.Takes) {s rest : List β} {a : α}
    (h : r.run s = .ok a rest) (t : List β) :
    r.framing (s ++ t) = a :: r.framing (rest ++ t) := by
  have hrun := run_append h t
  have hlt := hr _ _ _ hrun
  obtain ⟨n, hn⟩ : ∃ n, (s ++ t).length = n + 1 := Nat.exists_eq_succ_of_ne_zero (by omega)
  rw [framing, hn, frames, hrun]
  dsimp only
  rw [frames_of_le hr (by omega)]

/-- A stream is read value by value, and nothing is left. -/
inductive Reads (r : Reader β α) : List β → List α → Prop
  | nil : Reads r [] []
  | cons {s rest : List β} {a : α} {as : List α} (h : r.run s = .ok a rest)
      (hrest : Reads r rest as) : Reads r s (a :: as)

/-- The first value of a stream that is read value by value. -/
lemma Reads.of_run {r : Reader β α} (hr : r.Takes) {s rest : List β} {a : α} {as : List α}
    (h : Reads r s as) (hrun : r.run s = .ok a rest) : ∃ others, as = a :: others ∧
      Reads r rest others := by
  cases h with
  | nil => exact absurd (hr _ _ _ hrun) (Nat.not_lt_zero _)
  | cons hfirst hrest =>
    rw [hrun] at hfirst
    cases hfirst
    exact ⟨_, rfl, hrest⟩

/-- The sizes of some values together. -/
def total (size : α → ℕ) : List α → ℕ
  | [] => 0
  | a :: as => size a + total size as

lemma total_append (size : α → ℕ) (as bs : List α) :
    total size (as ++ bs) = total size as + total size bs := by
  induction as with
  | nil => exact (Nat.zero_add _).symm
  | cons a as ih => rw [List.cons_append, total, total, ih, Nat.add_assoc]

/-- A stream is as long as its values are together. -/
lemma Reads.length_eq {r : Reader β α} {size : α → ℕ}
    (hsize : ∀ {s a rest}, r.run s = .ok a rest → s.length = size a + rest.length)
    {s : List β} {as : List α} (h : Reads r s as) : s.length = total size as := by
  induction h with
  | nil => rfl
  | cons hfirst hrest ih => rw [hsize hfirst, ih, total]

end Reader
