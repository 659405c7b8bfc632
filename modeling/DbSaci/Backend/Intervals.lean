import DbSaci.Wire.Temporal
import Mathlib.Tactic.Linarith

set_option relaxedAutoImplicit false
set_option autoImplicit false

/-!
# Intervals for the client

An interval of PostgreSQL has months, days and microseconds, each with its own sign. It goes to the
client as the bytes of an `INTERVAL DAY TO SECOND`, whose fields have a sign each, or as a text that
has one sign for all of them. A month counts for 30 days in both.

## Main definitions

* `PgInterval`, `PgInterval.total` — an interval, and its length in microseconds.
* `PgInterval.oracleText`, `PgInterval.encodeDayToSecond` — what the client gets.
* `durationOf`, `nanosOf` — what the client makes of it.

## Main results

* `PgInterval.nanosOf_encode_iff` — the bytes keep the length if the days fit.
* `PgInterval.seen_iff` — when both are the length of the interval.
-/

namespace DbSaci.Backend

open Decimal
open Wire (takeSign toNat_ofInt)

/-- An interval: months, days and microseconds. -/
structure PgInterval where
  months : Int32
  days : Int32
  micros : Int64
  deriving DecidableEq

/-! ### What the client gets -/

namespace PgInterval

variable (v : PgInterval)

/-- `encode_day_to_second`. -/
def encodeDayToSecond : List UInt8 :=
  let totalDays := v.days.toInt + v.months.toInt * 30
  let secs := v.micros.toInt.tdiv 1000000
  let nanos := v.micros.toInt.tmod 1000000 * 1000
  let days := totalDays + secs.tdiv 86400
  let secs := secs.tmod 86400
  let hours := secs.tdiv 3600
  let minutes := (secs.tmod 3600).tdiv 60
  let seconds := secs.tmod 60
  toBeBytes 4 (UInt32.ofInt (days + 0x80000000)).toNat ++
    ([UInt8.ofInt (hours + 60), UInt8.ofInt (minutes + 60), UInt8.ofInt (seconds + 60)] ++
      toBeBytes 4 (UInt32.ofInt (nanos + 0x80000000)).toNat)

/-- `oracle_text`. The smallest number of months has no absolute value, and keeps its sign. -/
def oracleText (yearToMonth : Bool) : List Char :=
  if yearToMonth = true ∨ (v.months ≠ 0 ∧ v.days = 0 ∧ v.micros = 0) then
    let m := v.months.abs.toInt
    (if v.months < 0 then '-' else '+') ::
      (paddedInt 2 (m.tdiv 12) ++ ('-' :: paddedInt 2 (m.tmod 12)))
  else
    let totalDays := v.days.toInt + v.months.toInt * 30
    let secs := v.micros.toInt.tdiv 1000000
    let frac := (v.micros.toInt.tmod 1000000).natAbs
    let days := totalDays + secs.tdiv 86400
    let secs := secs.tmod 86400
    let neg : Bool := days < 0 ∨ secs < 0 ∨ (days = 0 ∧ v.micros < 0)
    (if neg then '-' else '+') :: (padded 2 days.natAbs ++ (' ' ::
      (padded 2 (secs.natAbs / 3600) ++ (':' :: (padded 2 (secs.natAbs % 3600 / 60) ++
        (':' :: (padded 2 (secs.natAbs % 60) ++ ('.' :: padded 6 frac))))))))

end PgInterval

/-! ### What the client makes of it -/

/-- A number of any length, and what stands behind it. -/
def takeDigits (s : List Char) : Option (ℕ × List Char) :=
  if s.takeWhile Char.isDigit = [] then none
  else some (Nat.ofDigitChars 10 (s.takeWhile Char.isDigit) 0, s.dropWhile Char.isDigit)

/-- The microseconds of a day. -/
def dayMicros : ℤ := 86400000000

/-- Behind the years: the months, each of 30 days. -/
def takeMonths (years : ℕ) (s : List Char) : Option ℤ := do
  let (months, s) ← takeNumber 2 s
  if s = [] then some ((years * 12 + months) * 30 * dayMicros) else none

/-- Behind the days: the time, in microseconds. -/
def takeClock (days : ℕ) (s : List Char) : Option ℤ := do
  let (hours, s) ← takeNumber 2 s
  let s ← strip [':'] s
  let (minutes, s) ← takeNumber 2 s
  let s ← strip [':'] s
  let (seconds, s) ← takeNumber 2 s
  let s ← strip ['.'] s
  let (micros, s) ← takeNumber 6 s
  if s = [] then
    some ((((days * 24 + hours) * 60 + minutes) * 60 + seconds) * 1000000 + micros)
  else none

/-- The length in microseconds of an interval that is a text. -/
def durationOf (s : List Char) : Option ℤ := do
  let (sign, s) ← takeSign s
  let (n, s) ← takeDigits s
  match s with
  | '-' :: s => (takeMonths n s).map (sign * ·)
  | ' ' :: s => (takeClock n s).map (sign * ·)
  | _ => none

/-- The length in nanoseconds of an `INTERVAL DAY TO SECOND`. -/
def nanosOf : List UInt8 → Option ℤ
  | [d₁, d₂, d₃, d₄, hours, minutes, seconds, n₁, n₂, n₃, n₄] =>
    let days : ℤ := ofBeBytes [d₁, d₂, d₃, d₄] - 0x80000000
    let nanos : ℤ := ofBeBytes [n₁, n₂, n₃, n₄] - 0x80000000
    some ((((days * 24 + (hours.toNat - 60)) * 60 + (minutes.toNat - 60)) * 60 +
      (seconds.toNat - 60)) * 1000000000 + nanos)
  | _ => none

namespace PgInterval

variable (v : PgInterval)

/-- The length of an interval in microseconds. -/
def total : ℤ := (v.days.toInt + v.months.toInt * 30) * dayMicros + v.micros.toInt

/-- Both clients see the length of the interval. -/
def Seen (yearToMonth : Bool) : Prop :=
  durationOf (v.oracleText yearToMonth) = some v.total ∧
    nanosOf v.encodeDayToSecond = some (v.total * 1000)

/-! ### When it is seen -/

/-- The whole days, with those of the microseconds. -/
def wholeDays : ℤ := v.days.toInt + v.months.toInt * 30 + v.micros.toInt.tdiv dayMicros

/-- The microseconds beside the whole days. -/
def rest : ℤ := v.micros.toInt.tmod dayMicros

/-- The whole days have 32 bits. -/
def DaysFit : Prop := -0x80000000 ≤ v.wholeDays ∧ v.wholeDays < 0x80000000

/-- One sign is enough for the days and the time beside them. -/
def OneSign : Prop := ¬ (0 < v.wholeDays ∧ v.rest < 0) ∧ ¬ (v.wholeDays < 0 ∧ 0 < v.rest)

/-- The text is one of years and months. -/
def InMonths (yearToMonth : Bool) : Prop :=
  yearToMonth = true ∨ (v.months ≠ 0 ∧ v.days = 0 ∧ v.micros = 0)

/-- Nothing is beside the months. -/
def OnlyMonths : Prop := v.days.toInt * dayMicros + v.micros.toInt = 0

/-- The days fit, and the text leaves nothing out and needs one sign only. -/
def Plain (yearToMonth : Bool) : Prop :=
  v.DaysFit ∧ (v.InMonths yearToMonth → v.OnlyMonths) ∧ (¬ v.InMonths yearToMonth → v.OneSign)

end PgInterval

/-! ### Division towards zero -/

section Sign

variable {σ : ℤ} (hσ : σ = 1 ∨ σ = -1) (n k : ℕ)
include hσ

/-- Division towards zero leaves the sign where it is. -/
lemma sign_mul_tdiv : (σ * n).tdiv k = σ * (n / k : ℕ) := by
  rcases hσ with rfl | rfl
  · rw [one_mul, one_mul]
    rfl
  · rw [neg_one_mul, neg_one_mul, Int.neg_tdiv]
    rfl

lemma sign_mul_tmod : (σ * n).tmod k = σ * (n % k : ℕ) := by
  rcases hσ with rfl | rfl
  · rw [one_mul, one_mul]
    rfl
  · rw [neg_one_mul, neg_one_mul, Int.neg_tmod]
    rfl

lemma natAbs_sign_mul : (σ * n).natAbs = n := by
  rcases hσ with rfl | rfl <;> omega

end Sign

/-- The fields of a number of microseconds have its sign. -/
structure Clock (M σ : ℤ) (n : ℕ) : Prop where
  sign : σ = 1 ∨ σ = -1
  micros : M = σ * n
  secs : M.tdiv 1000000 = σ * (n / 1000000 : ℕ)
  frac : M.tmod 1000000 = σ * (n % 1000000 : ℕ)
  days : (M.tdiv 1000000).tdiv 86400 = σ * (n / 1000000 / 86400 : ℕ)
  clock : (M.tdiv 1000000).tmod 86400 = σ * (n / 1000000 % 86400 : ℕ)
  hours : ((M.tdiv 1000000).tmod 86400).tdiv 3600 = σ * (n / 1000000 % 86400 / 3600 : ℕ)
  minutes : (((M.tdiv 1000000).tmod 86400).tmod 3600).tdiv 60 =
    σ * (n / 1000000 % 86400 % 3600 / 60 : ℕ)
  seconds : ((M.tdiv 1000000).tmod 86400).tmod 60 = σ * (n / 1000000 % 86400 % 60 : ℕ)
  wholeDays : M.tdiv dayMicros = σ * (n / 86400000000 : ℕ)
  rest : M.tmod dayMicros = σ * (n % 86400000000 : ℕ)

lemma exists_clock (M : ℤ) : ∃ (σ : ℤ) (n : ℕ), Clock M σ n := by
  obtain ⟨σ, n, hσ, hM⟩ : ∃ (σ : ℤ) (n : ℕ), (σ = 1 ∨ σ = -1) ∧ M = σ * n := by
    obtain ⟨n, rfl | rfl⟩ := M.eq_nat_or_neg
    · exact ⟨1, n, .inl rfl, (one_mul _).symm⟩
    · exact ⟨-1, n, .inr rfl, (neg_one_mul _).symm⟩
  have hsecs : M.tdiv 1000000 = σ * (n / 1000000 : ℕ) := hM ▸ sign_mul_tdiv hσ n 1000000
  have hclock : (M.tdiv 1000000).tmod 86400 = σ * (n / 1000000 % 86400 : ℕ) :=
    hsecs ▸ sign_mul_tmod hσ _ 86400
  have hminutes : ((M.tdiv 1000000).tmod 86400).tmod 3600 = σ * (n / 1000000 % 86400 % 3600 : ℕ) :=
    hclock ▸ sign_mul_tmod hσ _ 3600
  exact ⟨σ, n,
    { sign := hσ
      micros := hM
      secs := hsecs
      frac := hM ▸ sign_mul_tmod hσ n 1000000
      days := hsecs ▸ sign_mul_tdiv hσ _ 86400
      clock := hclock
      hours := hclock ▸ sign_mul_tdiv hσ _ 3600
      minutes := hminutes ▸ sign_mul_tdiv hσ _ 60
      seconds := hclock ▸ sign_mul_tmod hσ _ 60
      wholeDays := hM ▸ sign_mul_tdiv hσ n 86400000000
      rest := hM ▸ sign_mul_tmod hσ n 86400000000 }⟩

/-- The fields of a number of microseconds make it up. -/
lemma clock_fields (n : ℕ) : n = (((n / 86400000000 * 24 + n / 1000000 % 86400 / 3600) * 60 +
    n / 1000000 % 86400 % 3600 / 60) * 60 + n / 1000000 % 86400 % 60) * 1000000 + n % 1000000 := by
  omega

/-! ### The bytes -/

/-- Four bytes that are read as a number. -/
lemma exists_ofBeBytes (x : ℤ) : ∃ b₁ b₂ b₃ b₄,
    toBeBytes 4 (UInt32.ofInt x).toNat = [b₁, b₂, b₃, b₄] ∧
      (ofBeBytes [b₁, b₂, b₃, b₄] : ℤ) = x % 2 ^ 32 := by
  refine ⟨_, _, _, _, toBeBytes_four _, ?_⟩
  rw [← toBeBytes_four, ofBeBytes_of_lt (UInt32.ofInt x).toNat_lt, UInt32.ofInt,
    UInt32.toNat_ofNat']
  omega

namespace PgInterval

variable (v : PgInterval)

/-- **The bytes keep the length of an interval if and only if the days fit.** -/
theorem nanosOf_encode_iff : nanosOf v.encodeDayToSecond = some (v.total * 1000) ↔ v.DaysFit := by
  obtain ⟨σ, n, hc⟩ := exists_clock v.micros.toInt
  have hdays : n / 1000000 / 86400 = n / 86400000000 := Nat.div_div_eq_div_mul n 1000000 86400
  obtain ⟨d₁, d₂, d₃, d₄, hdaysBytes, hdaysBack⟩ := exists_ofBeBytes
    (v.days.toInt + v.months.toInt * 30 + σ * (n / 86400000000 : ℕ) + 0x80000000)
  obtain ⟨n₁, n₂, n₃, n₄, hnanosBytes, hnanosBack⟩ := exists_ofBeBytes
    (σ * (n % 1000000 : ℕ) * 1000 + 0x80000000)
  have hsigned : ∀ k : ℕ, k < 60 → ((UInt8.ofInt (σ * k + 60)).toNat : ℤ) = σ * k + 60 := by
    intro k hk
    refine toNat_ofInt ?_
    rcases hc.sign with rfl | rfl <;> omega
  rw [encodeDayToSecond]
  simp only [hc.days, hc.hours, hc.minutes, hc.seconds, hc.frac, hdays, hdaysBytes, hnanosBytes,
    List.cons_append, List.nil_append, nanosOf, hdaysBack, hnanosBack,
    hsigned (n / 1000000 % 86400 / 3600) (by omega),
    hsigned (n / 1000000 % 86400 % 3600 / 60) (by omega),
    hsigned (n / 1000000 % 86400 % 60) (by omega), Option.some.injEq]
  -- the fields make up the microseconds
  have hfields := clock_fields n
  have hfrac : n % 1000000 < 1000000 := Nat.mod_lt _ (by decide)
  rw [DaysFit, wholeDays, total, hc.wholeDays, hc.micros, dayMicros]
  clear hdaysBack hnanosBack hdaysBytes hnanosBytes hsigned
  have hsign := hc.sign
  clear hc
  generalize n / 86400000000 = q at *
  generalize n / 1000000 % 86400 / 3600 = h at *
  generalize n / 1000000 % 86400 % 3600 / 60 = m at *
  generalize n / 1000000 % 86400 % 60 = s at *
  generalize n % 1000000 = f at *
  generalize v.days.toInt + v.months.toInt * 30 = d
  subst hfields
  rcases hsign with rfl | rfl <;> omega

end PgInterval

/-! ### The text -/

/-- A number is read up to a character that is no digit. -/
lemma takeDigits_padded (w n : ℕ) {c : Char} (hc : c.isDigit = false) (s : List Char) :
    takeDigits (padded w n ++ c :: s) = some (n, c :: s) := by
  have hdigits : ∀ d ∈ padded w n, d.isDigit = true := fun d hd => isDigit_padded hd
  have hstop : ¬ c.isDigit = true := by
    rw [hc]
    decide
  have hne : padded w n ≠ [] := List.append_ne_nil_of_right_ne_nil _ Nat.toDigits_ne_nil
  rw [takeDigits, List.takeWhile_append_of_pos hdigits, List.dropWhile_append_of_pos hdigits,
    List.takeWhile_cons_of_neg hstop, List.dropWhile_cons_of_neg hstop, List.append_nil,
    if_neg hne, ofDigitChars_padded]

lemma takeSign_ite {c : Prop} [Decidable c] (s : List Char) :
    takeSign ((if c then '-' else '+') :: s) = some (if c then -1 else 1, s) := by
  split_ifs <;> rfl

lemma paddedInt_natCast (w n : ℕ) : paddedInt w n = padded w n := by
  rw [paddedInt, if_neg (by omega), Int.natAbs_natCast]

/-- The absolute value of a number of 32 bits, but for the smallest one. -/
lemma toInt_abs {a : Int32} (h : a.toInt ≠ -2147483648) : a.abs.toInt = |a.toInt| := by
  have hlt := a.toInt_lt
  have hge := a.le_toInt
  change a.toBitVec.abs.toInt = |a.toBitVec.toInt|
  change a.toBitVec.toInt ≠ _ at h
  change a.toBitVec.toInt < _ at hlt
  change _ ≤ a.toBitVec.toInt at hge
  rw [BitVec.abs_eq, BitVec.msb_eq_toInt]
  by_cases hneg : a.toBitVec.toInt < 0
  · rw [decide_eq_true hneg, if_pos rfl, BitVec.toInt_neg, abs_of_neg hneg]
    exact Int.bmod_eq_of_le (by omega) (by omega)
  · rw [decide_eq_false hneg, if_neg (by decide), abs_of_nonneg (by omega)]

/-- A text of days is read as its fields. -/
lemma durationOf_days {c : Prop} [Decidable c] {d h m s f : ℕ} (hh : h < 100) (hm : m < 100)
    (hs : s < 100) (hf : f < 1000000) :
    durationOf ((if c then '-' else '+') :: (padded 2 d ++ (' ' :: (padded 2 h ++ (':' ::
      (padded 2 m ++ (':' :: (padded 2 s ++ ('.' :: padded 6 f))))))))) =
    some ((if c then -1 else 1 : ℤ) *
      ((((d * 24 + h) * 60 + m) * 60 + s) * 1000000 + f)) := by
  have hmicros := takeNumber_padded (w := 6) (by decide) hf []
  rw [List.append_nil] at hmicros
  unfold durationOf takeClock
  simp only [takeSign_ite, Option.bind_eq_bind, Option.bind_some,
    takeDigits_padded 2 d (c := ' ') rfl, takeNumber_two hh, strip_cons, takeNumber_two hm,
    takeNumber_two hs, hmicros, if_true, Option.map_some]

/-- A text of years and months is read as its fields. -/
lemma durationOf_months {c : Prop} [Decidable c] {y m : ℕ} (hm : m < 100) :
    durationOf ((if c then '-' else '+') :: (padded 2 y ++ ('-' :: padded 2 m))) =
    some ((if c then -1 else 1 : ℤ) * ((y * 12 + m) * 30 * dayMicros)) := by
  have hmonths := takeNumber_two hm []
  rw [List.append_nil] at hmonths
  unfold durationOf takeMonths
  simp only [takeSign_ite, Option.bind_eq_bind, Option.bind_some,
    takeDigits_padded 2 y (c := '-') rfl, hmonths, if_true, Option.map_some]

namespace PgInterval

variable {v : PgInterval}

/-- The text of days is the length of an interval if and only if one sign is enough. -/
lemma durationOf_days_iff {yearToMonth : Bool} (h : ¬ v.InMonths yearToMonth) :
    durationOf (v.oracleText yearToMonth) = some v.total ↔ v.OneSign := by
  obtain ⟨σ, n, hc⟩ := exists_clock v.micros.toInt
  have hdays : n / 1000000 / 86400 = n / 86400000000 := Nat.div_div_eq_div_mul n 1000000 86400
  have hneg : v.micros < 0 ↔ σ * n < 0 := by
    rw [Int64.lt_iff_toInt_lt, hc.micros]
    rfl
  unfold InMonths at h
  rw [oracleText, if_neg h]
  simp only [hc.days, hc.clock, hc.frac, hdays, natAbs_sign_mul hc.sign, hneg,
    decide_eq_true_eq]
  rw [durationOf_days (by omega) (by omega) (by omega) (by omega), Option.some.injEq]
  rw [OneSign, wholeDays, rest, total, hc.wholeDays, hc.rest, hc.micros, dayMicros]
  -- what is beside the whole days
  have hsplit : n = n / 86400000000 * 86400000000 + n % 86400000000 := by omega
  have hclock : ((n / 1000000 % 86400 / 3600 * 60 + n / 1000000 % 86400 % 3600 / 60) * 60 +
      n / 1000000 % 86400 % 60) * 1000000 + n % 1000000 = n % 86400000000 := by omega
  have hsecs : 1000000 * (n / 1000000 % 86400) ≤ n % 86400000000 := by omega
  have hsign := hc.sign
  clear hneg hc h hdays
  generalize n / 86400000000 = q at *
  generalize n % 86400000000 = c at *
  generalize n / 1000000 % 86400 / 3600 = hours at *
  generalize n / 1000000 % 86400 % 3600 / 60 = minutes at *
  generalize n / 1000000 % 86400 % 60 = seconds at *
  generalize n / 1000000 % 86400 = secs at *
  generalize n % 1000000 = frac at *
  generalize v.days.toInt + v.months.toInt * 30 = d
  rcases hsign with rfl | rfl
  · split_ifs <;> omega
  · split_ifs <;> omega

/-- The text of months that have an absolute value is the length of an interval if and only if
nothing is beside them. -/
lemma durationOf_months_iff_of_ne {yearToMonth : Bool} (h : v.InMonths yearToMonth)
    (hmonths : v.months.toInt ≠ -2147483648) :
    durationOf (v.oracleText yearToMonth) = some v.total ↔ v.OnlyMonths := by
  unfold InMonths at h
  rw [oracleText, if_pos h]
  dsimp only
  rw [toInt_abs hmonths]
  have hneg : v.months < 0 ↔ v.months.toInt < 0 := by
    rw [Int32.lt_iff_toInt_lt]
    rfl
  have hyears : (|v.months.toInt|).tdiv 12 = (v.months.toInt.natAbs / 12 : ℕ) := by
    rw [Int.abs_eq_natAbs]
    rfl
  have hrest : (|v.months.toInt|).tmod 12 = (v.months.toInt.natAbs % 12 : ℕ) := by
    rw [Int.abs_eq_natAbs]
    rfl
  rw [hyears, hrest, paddedInt_natCast, paddedInt_natCast, durationOf_months (by omega),
    Option.some.injEq, OnlyMonths, total]
  simp only [hneg]
  have hsplit : ((v.months.toInt.natAbs / 12 : ℕ) : ℤ) * 12 + (v.months.toInt.natAbs % 12 : ℕ) =
      v.months.toInt.natAbs := by omega
  rw [hsplit, dayMicros]
  split_ifs <;> omega

/-- The text of months is the length of an interval if and only if nothing is beside them. -/
lemma durationOf_months_iff {yearToMonth : Bool} (h : v.InMonths yearToMonth)
    (hfit : v.DaysFit) :
    durationOf (v.oracleText yearToMonth) = some v.total ↔ v.OnlyMonths := by
  have hmonths : v.months.toInt ≠ -2147483648 := by
    intro hmin
    obtain ⟨σ, n, hc⟩ := exists_clock v.micros.toInt
    have hdays := v.days.toInt_lt
    have hlow := v.micros.le_toInt
    have hhigh := v.micros.toInt_lt
    rw [DaysFit, wholeDays, hc.wholeDays, hmin] at hfit
    rw [hc.micros] at hlow hhigh
    rcases hc.sign with rfl | rfl <;> omega
  exact durationOf_months_iff_of_ne h hmonths

/-- **Both clients see the length of an interval if and only if it is plain.** -/
theorem seen_iff (v : PgInterval) (yearToMonth : Bool) :
    v.Seen yearToMonth ↔ v.Plain yearToMonth := by
  rw [Seen, nanosOf_encode_iff, Plain, and_comm]
  refine and_congr_right fun hfit => ?_
  by_cases h : v.InMonths yearToMonth
  · rw [durationOf_months_iff h hfit]
    exact ⟨fun honly => ⟨fun _ => honly, fun hnot => absurd h hnot⟩, fun hplain => hplain.1 h⟩
  · rw [durationOf_days_iff h]
    exact ⟨fun hone => ⟨fun hin => absurd hin h, fun _ => hone⟩, fun hplain => hplain.2 h⟩

/-- One day but an hour is shown as a day and an hour. -/
theorem dayLessAnHour_not_seen : ¬ ∀ v : PgInterval, v.Seen false := by
  intro h
  have htext := (h ⟨0, 1, -3600000000⟩).1
  revert htext
  decide

end PgInterval

end DbSaci.Backend
