import Mathlib.Tactic.Ring
import Mathlib.Algebra.Field.Rat

set_option relaxedAutoImplicit false
set_option autoImplicit false

/-!
# Dates and numbers in PostgreSQL

The values that dates are computed with, and the operators between them. A point in time is the
number of days since the epoch. Which operators there are goes by the types alone, and what they
give is the sum or the difference of the days.

## Main definitions

* `PgVal` — values, and `PgVal.days` how many days they are.
* `PgVal.add`, `PgVal.sub`, `PgVal.mul`, `PgVal.div`, `PgVal.epoch` — the operators.
* `Kind` — types, with one for literals of numbers.

## Main results

* `Kind.add_has`, `Kind.sub_has` — what there is between values of two types.
-/

namespace DbSaci.Sql.Dates

/-- A value: a date is a whole number of days. -/
inductive PgVal
  | date (d : ℤ)
  | timestamp (t : ℚ)
  | interval (i : ℚ)
  | integer (n : ℤ)
  | numeric (q : ℚ)
  deriving DecidableEq, Repr

namespace PgVal

/-- How many days a value is. A point in time is counted from the epoch. -/
def days : PgVal → ℚ
  | date d => d
  | timestamp t => t
  | interval i => i
  | integer n => n
  | numeric q => q

/-- `+`. -/
def add : PgVal → PgVal → Option PgVal
  | date d, integer n => some (date (d + n))
  | integer n, date d => some (date (n + d))
  | date d, interval i => some (timestamp (d + i))
  | interval i, date d => some (timestamp (i + d))
  | timestamp t, interval i => some (timestamp (t + i))
  | interval i, timestamp t => some (timestamp (i + t))
  | interval i, interval j => some (interval (i + j))
  | integer m, integer n => some (integer (m + n))
  | integer m, numeric q => some (numeric (m + q))
  | numeric p, integer n => some (numeric (p + n))
  | numeric p, numeric q => some (numeric (p + q))
  | _, _ => none

/-- `-`. -/
def sub : PgVal → PgVal → Option PgVal
  | date d, integer n => some (date (d - n))
  | date d, date e => some (integer (d - e))
  | date d, interval i => some (timestamp (d - i))
  | date d, timestamp t => some (interval (d - t))
  | timestamp t, date d => some (interval (t - d))
  | timestamp t, timestamp u => some (interval (t - u))
  | timestamp t, interval i => some (timestamp (t - i))
  | interval i, interval j => some (interval (i - j))
  | integer m, integer n => some (integer (m - n))
  | integer m, numeric q => some (numeric (m - q))
  | numeric p, integer n => some (numeric (p - n))
  | numeric p, numeric q => some (numeric (p - q))
  | _, _ => none

/-- `*` of a number and an interval. -/
def mul : PgVal → PgVal → Option PgVal
  | integer n, interval i => some (interval (n * i))
  | numeric q, interval i => some (interval (q * i))
  | _, _ => none

/-- `/` of a number and an integer. Two integers are divided without a remainder. -/
def div : PgVal → PgVal → Option PgVal
  | integer m, integer n => if n = 0 then none else some (integer (m.tdiv n))
  | numeric p, integer n => if n = 0 then none else some (numeric (p / n))
  | _, _ => none

/-- `EXTRACT(EPOCH FROM ...)`: the seconds of an interval, or since the epoch. -/
def epoch : PgVal → Option PgVal
  | date d => some (numeric (d * 86400))
  | timestamp t => some (numeric (t * 86400))
  | interval i => some (numeric (i * 86400))
  | _ => none

end PgVal

/-! ### Types -/

/-- A type of values. A literal of a number is an integer or not. -/
inductive Kind
  | date | timestamp | interval | integer | numeric | literal
  deriving DecidableEq, Repr

namespace Kind

/-- The values of a type. -/
def Has : Kind → PgVal → Prop
  | date, v => ∃ d, v = .date d
  | timestamp, v => ∃ t, v = .timestamp t
  | interval, v => ∃ i, v = .interval i
  | integer, v => ∃ n, v = .integer n
  | numeric, v => ∃ q, v = .numeric q
  | literal, v => (∃ n, v = .integer n) ∨ ∃ q, v = .numeric q

/-- The type of a sum. -/
def add : Kind → Kind → Option Kind
  | date, integer | integer, date => some date
  | date, interval | interval, date | timestamp, interval | interval, timestamp => some timestamp
  | interval, interval => some interval
  | integer, integer => some integer
  | integer, numeric | numeric, integer | numeric, numeric => some numeric
  | numeric, literal | literal, numeric => some numeric
  | literal, literal | literal, integer | integer, literal => some literal
  | _, _ => none

/-- The type of a difference. -/
def sub : Kind → Kind → Option Kind
  | date, integer => some date
  | date, date => some integer
  | date, interval | timestamp, interval => some timestamp
  | date, timestamp | timestamp, date | timestamp, timestamp => some interval
  | interval, interval => some interval
  | integer, integer => some integer
  | integer, numeric | numeric, integer | numeric, numeric => some numeric
  | numeric, literal | literal, numeric => some numeric
  | literal, literal | literal, integer | integer, literal => some literal
  | _, _ => none

/-- Whether there is an epoch of a value. -/
def hasEpoch : Kind → Bool
  | date | timestamp | interval => true
  | _ => false

/-- A literal that is added to a point in time is taken to be so: it is no literal of its own. -/
def Mixes (k l : Kind) : Prop :=
  ¬ (k = literal ∧ l = date ∨ k = date ∧ l = literal)

variable {k l : Kind} {x y : PgVal}

/-- The result of an operator: there is one of the type, and it is so many days, or there is
none. -/
def Gives (kind : Option Kind) (result : Option PgVal) (days : ℚ) : Prop :=
  match kind with
  | some k => ∃ z, result = some z ∧ k.Has z ∧ z.days = days
  | none => result = none

lemma gives_some {k : Kind} {z : PgVal} {d : ℚ} (hz : k.Has z) (hd : z.days = d) :
    Gives (some k) (some z) d := ⟨z, rfl, hz, hd⟩

/-- **What a sum gives.** -/
theorem add_has (hmix : Mixes k l) (hx : k.Has x) (hy : l.Has y) :
    Gives (add k l) (x.add y) (x.days + y.days) := by
  have hsum : ∀ m n : ℤ, ((m + n : ℤ) : ℚ) = m + n := fun m n => Int.cast_add m n
  cases k with
  | literal =>
    rcases hx with ⟨m, rfl⟩ | ⟨p, rfl⟩
    · cases l with
      | literal =>
        rcases hy with ⟨n, rfl⟩ | ⟨q, rfl⟩
        · exact gives_some (Or.inl ⟨_, rfl⟩) (hsum m n)
        · exact gives_some (Or.inr ⟨_, rfl⟩) rfl
      | date => exact absurd (Or.inl ⟨rfl, rfl⟩) hmix
      | integer =>
        obtain ⟨n, rfl⟩ := hy
        exact gives_some (Or.inl ⟨_, rfl⟩) (hsum m n)
      | numeric =>
        obtain ⟨q, rfl⟩ := hy
        exact gives_some ⟨_, rfl⟩ rfl
      | timestamp | interval =>
        obtain ⟨q, rfl⟩ := hy
        rfl
    · cases l with
      | literal =>
        rcases hy with ⟨n, rfl⟩ | ⟨q, rfl⟩
        · exact gives_some (Or.inr ⟨_, rfl⟩) rfl
        · exact gives_some (Or.inr ⟨_, rfl⟩) rfl
      | date => exact absurd (Or.inl ⟨rfl, rfl⟩) hmix
      | integer =>
        obtain ⟨n, rfl⟩ := hy
        exact gives_some (Or.inr ⟨_, rfl⟩) rfl
      | numeric =>
        obtain ⟨q, rfl⟩ := hy
        exact gives_some ⟨_, rfl⟩ rfl
      | timestamp | interval =>
        obtain ⟨q, rfl⟩ := hy
        rfl
  | date =>
    obtain ⟨d, rfl⟩ := hx
    cases l with
    | literal => exact absurd (Or.inr ⟨rfl, rfl⟩) hmix
    | integer =>
      obtain ⟨n, rfl⟩ := hy
      exact gives_some ⟨_, rfl⟩ (hsum d n)
    | interval =>
      obtain ⟨i, rfl⟩ := hy
      exact gives_some ⟨_, rfl⟩ rfl
    | date | timestamp | numeric =>
      obtain ⟨q, rfl⟩ := hy
      rfl
  | timestamp =>
    obtain ⟨t, rfl⟩ := hx
    cases l with
    | literal => rcases hy with ⟨n, rfl⟩ | ⟨q, rfl⟩ <;> rfl
    | interval =>
      obtain ⟨i, rfl⟩ := hy
      exact gives_some ⟨_, rfl⟩ rfl
    | date | timestamp | integer | numeric =>
      obtain ⟨q, rfl⟩ := hy
      rfl
  | interval =>
    obtain ⟨i, rfl⟩ := hx
    cases l with
    | literal => rcases hy with ⟨n, rfl⟩ | ⟨q, rfl⟩ <;> rfl
    | date | timestamp | interval =>
      obtain ⟨t, rfl⟩ := hy
      exact gives_some ⟨_, rfl⟩ rfl
    | integer | numeric =>
      obtain ⟨q, rfl⟩ := hy
      rfl
  | integer =>
    obtain ⟨m, rfl⟩ := hx
    cases l with
    | literal =>
      rcases hy with ⟨n, rfl⟩ | ⟨q, rfl⟩
      · exact gives_some (Or.inl ⟨_, rfl⟩) (hsum m n)
      · exact gives_some (Or.inr ⟨_, rfl⟩) rfl
    | date | integer =>
      obtain ⟨n, rfl⟩ := hy
      exact gives_some ⟨_, rfl⟩ (hsum m n)
    | numeric =>
      obtain ⟨q, rfl⟩ := hy
      exact gives_some ⟨_, rfl⟩ rfl
    | timestamp | interval =>
      obtain ⟨q, rfl⟩ := hy
      rfl
  | numeric =>
    obtain ⟨p, rfl⟩ := hx
    cases l with
    | literal => rcases hy with ⟨n, rfl⟩ | ⟨q, rfl⟩ <;> exact gives_some ⟨_, rfl⟩ rfl
    | integer | numeric =>
      obtain ⟨q, rfl⟩ := hy
      exact gives_some ⟨_, rfl⟩ rfl
    | date | timestamp | interval =>
      obtain ⟨q, rfl⟩ := hy
      rfl

/-- **What a difference gives.** -/
theorem sub_has (hmix : Mixes k l) (hx : k.Has x) (hy : l.Has y) :
    Gives (sub k l) (x.sub y) (x.days - y.days) := by
  have hsub : ∀ m n : ℤ, ((m - n : ℤ) : ℚ) = m - n := fun m n => Int.cast_sub m n
  cases k with
  | literal =>
    rcases hx with ⟨m, rfl⟩ | ⟨p, rfl⟩
    · cases l with
      | literal =>
        rcases hy with ⟨n, rfl⟩ | ⟨q, rfl⟩
        · exact gives_some (Or.inl ⟨_, rfl⟩) (hsub m n)
        · exact gives_some (Or.inr ⟨_, rfl⟩) rfl
      | integer =>
        obtain ⟨n, rfl⟩ := hy
        exact gives_some (Or.inl ⟨_, rfl⟩) (hsub m n)
      | numeric =>
        obtain ⟨q, rfl⟩ := hy
        exact gives_some ⟨_, rfl⟩ rfl
      | date | timestamp | interval =>
        obtain ⟨q, rfl⟩ := hy
        rfl
    · cases l with
      | literal =>
        rcases hy with ⟨n, rfl⟩ | ⟨q, rfl⟩ <;> exact gives_some (Or.inr ⟨_, rfl⟩) rfl
      | integer =>
        obtain ⟨n, rfl⟩ := hy
        exact gives_some (Or.inr ⟨_, rfl⟩) rfl
      | numeric =>
        obtain ⟨q, rfl⟩ := hy
        exact gives_some ⟨_, rfl⟩ rfl
      | date | timestamp | interval =>
        obtain ⟨q, rfl⟩ := hy
        rfl
  | date =>
    obtain ⟨d, rfl⟩ := hx
    cases l with
    | literal => exact absurd (Or.inr ⟨rfl, rfl⟩) hmix
    | date | integer =>
      obtain ⟨n, rfl⟩ := hy
      exact gives_some ⟨_, rfl⟩ (hsub d n)
    | timestamp | interval =>
      obtain ⟨i, rfl⟩ := hy
      exact gives_some ⟨_, rfl⟩ rfl
    | numeric =>
      obtain ⟨q, rfl⟩ := hy
      rfl
  | timestamp =>
    obtain ⟨t, rfl⟩ := hx
    cases l with
    | literal => rcases hy with ⟨n, rfl⟩ | ⟨q, rfl⟩ <;> rfl
    | date | timestamp | interval =>
      obtain ⟨i, rfl⟩ := hy
      exact gives_some ⟨_, rfl⟩ rfl
    | integer | numeric =>
      obtain ⟨q, rfl⟩ := hy
      rfl
  | interval =>
    obtain ⟨i, rfl⟩ := hx
    cases l with
    | literal => rcases hy with ⟨n, rfl⟩ | ⟨q, rfl⟩ <;> rfl
    | interval =>
      obtain ⟨t, rfl⟩ := hy
      exact gives_some ⟨_, rfl⟩ rfl
    | date | timestamp | integer | numeric =>
      obtain ⟨q, rfl⟩ := hy
      rfl
  | integer =>
    obtain ⟨m, rfl⟩ := hx
    cases l with
    | literal =>
      rcases hy with ⟨n, rfl⟩ | ⟨q, rfl⟩
      · exact gives_some (Or.inl ⟨_, rfl⟩) (hsub m n)
      · exact gives_some (Or.inr ⟨_, rfl⟩) rfl
    | integer =>
      obtain ⟨n, rfl⟩ := hy
      exact gives_some ⟨_, rfl⟩ (hsub m n)
    | numeric =>
      obtain ⟨q, rfl⟩ := hy
      exact gives_some ⟨_, rfl⟩ rfl
    | date | timestamp | interval =>
      obtain ⟨q, rfl⟩ := hy
      rfl
  | numeric =>
    obtain ⟨p, rfl⟩ := hx
    cases l with
    | literal => rcases hy with ⟨n, rfl⟩ | ⟨q, rfl⟩ <;> exact gives_some ⟨_, rfl⟩ rfl
    | integer | numeric =>
      obtain ⟨q, rfl⟩ := hy
      exact gives_some ⟨_, rfl⟩ rfl
    | date | timestamp | interval =>
      obtain ⟨q, rfl⟩ := hy
      rfl

/-- What a literal of a number gives with a day: so many days. -/
theorem mul_has (hx : literal.Has x) :
    Gives (some interval) (x.mul (.interval 1)) x.days := by
  rcases hx with ⟨n, rfl⟩ | ⟨q, rfl⟩
  · exact gives_some ⟨_, rfl⟩ (mul_one _)
  · exact gives_some ⟨_, rfl⟩ (mul_one _)

/-- What the epoch of a value gives: its days, in days again. -/
theorem epoch_has (hx : k.Has x) :
    Gives (if k.hasEpoch then some numeric else none)
      (x.epoch.bind fun seconds => seconds.div (.integer 86400)) x.days := by
  have hback : ∀ q : ℚ, q * 86400 / ((86400 : ℤ) : ℚ) = q := by
    intro q
    rw [Int.cast_ofNat]
    exact mul_div_cancel_right₀ q (by norm_num)
  cases k with
  | date | timestamp | interval =>
    obtain ⟨d, rfl⟩ := hx
    exact gives_some ⟨_, rfl⟩ (hback _)
  | integer | numeric =>
    obtain ⟨d, rfl⟩ := hx
    rfl
  | literal => rcases hx with ⟨n, rfl⟩ | ⟨q, rfl⟩ <;> rfl

end Kind

end DbSaci.Sql.Dates
