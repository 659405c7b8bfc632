import DbSaci.Library.BigEndian
import DbSaci.Library.Decimal
import Mathlib.Tactic.IntervalCases
import Mathlib.Data.Int.Order.Basic

set_option relaxedAutoImplicit false
set_option autoImplicit false

/-!
# `TIMESTAMP WITH TIME ZONE` on the wire

A value goes to the client as the date fields of its UTC instant and the offset of the session. A
bind comes back in the same form, and is made into a literal for the backend.

## Main definitions

* `DateTime`, `Offset` — an instant, and the offset of a session.
* `encodeOracleTimestampTz`, `decodeOracleTemporal` — the two directions.
* `instantOf` — the instant a literal stands for.
* `SameInstant` — a value that comes back is the same point in time.

## Main results

* `sameInstant_iff` — only for the offset zero, and for no OCI client.
-/

namespace DbSaci.Wire

open Decimal

/-! ### Instants and offsets -/

/-- The days of a month. -/
def daysInMonth (year month : ℕ) : ℕ :=
  if month = 2 then if year % 4 = 0 ∧ (year % 100 ≠ 0 ∨ year % 400 = 0) then 29 else 28
  else if month = 4 ∨ month = 6 ∨ month = 9 ∨ month = 11 then 30
  else 31

/-- The days before a date, from the first day of the year 1 on. -/
def dayNumber (year month day : ℕ) : ℕ :=
  365 * (year - 1) + (year - 1) / 4 - (year - 1) / 100 + (year - 1) / 400 +
    ((List.range' 1 (month - 1)).map (daysInMonth year)).sum + (day - 1)

/-- A date with its time, in microseconds from the first day of the year 1 on. -/
def microsOf (year month day hour minute second micros : ℕ) : ℤ :=
  (((dayNumber year month day * 24 + hour) * 60 + minute) * 60 + second) * 1000000 + micros

/-- A date with its time in UTC, as precise as the backend gives it. -/
structure DateTime where
  year : ℕ
  month : ℕ
  day : ℕ
  hour : ℕ
  minute : ℕ
  second : ℕ
  nanosecond : ℕ
  year_mem : 1 ≤ year ∧ year ≤ 9999
  month_mem : 1 ≤ month ∧ month ≤ 12
  day_mem : 1 ≤ day ∧ day ≤ daysInMonth year month
  hour_lt : hour < 24
  minute_lt : minute < 60
  second_lt : second < 60
  nanosecond_lt : nanosecond < 1000000000
  micros : 1000 ∣ nanosecond

/-- The instant of a date. -/
def DateTime.instant (t : DateTime) : ℤ :=
  microsOf t.year t.month t.day t.hour t.minute t.second (t.nanosecond / 1000)

/-- The offset of a session in hours and minutes, which both have its sign. -/
structure Offset where
  hours : ℤ
  minutes : ℤ
  sign : (0 ≤ hours ∧ 0 ≤ minutes) ∨ (hours ≤ 0 ∧ minutes ≤ 0)
  minutes_lt : -60 < minutes ∧ minutes < 60
  bounded : -900 < hours * 60 + minutes ∧ hours * 60 + minutes < 900

/-- `SessionTz::offset_hm` of an offset in seconds. -/
def offsetHm (secs : ℤ) : ℤ × ℤ := (secs.tdiv 3600, (secs.tmod 3600).tdiv 60)

/-- A number of seconds, its hours and the minutes behind them have one sign. -/
lemma offsetHm_cases (secs : ℤ) : ∃ n : ℕ,
    (secs = n ∧ offsetHm secs = (((n / 3600 : ℕ) : ℤ), ((n % 3600 / 60 : ℕ) : ℤ))) ∨
    (secs = -n ∧ offsetHm secs = (-((n / 3600 : ℕ) : ℤ), -((n % 3600 / 60 : ℕ) : ℤ))) := by
  obtain ⟨n, rfl | rfl⟩ := secs.eq_nat_or_neg
  · exact ⟨n, .inl ⟨rfl, rfl⟩⟩
  · refine ⟨n, .inr ⟨rfl, ?_⟩⟩
    rw [offsetHm, Int.neg_tdiv, Int.neg_tmod, Int.neg_tdiv]
    rfl

/-- The offset of a session is one of these. -/
def Offset.ofSecs (secs : ℤ) (h : -54000 < secs ∧ secs < 54000) : Offset where
  hours := (offsetHm secs).1
  minutes := (offsetHm secs).2
  sign := by
    obtain ⟨n, ⟨-, hn⟩ | ⟨-, hn⟩⟩ := offsetHm_cases secs
    · rw [hn]
      omega
    · rw [hn]
      omega
  minutes_lt := by
    obtain ⟨n, ⟨-, hn⟩ | ⟨-, hn⟩⟩ := offsetHm_cases secs
    · rw [hn]
      omega
    · rw [hn]
      omega
  bounded := by
    obtain ⟨n, ⟨rfl, hn⟩ | ⟨rfl, hn⟩⟩ := offsetHm_cases secs
    · rw [hn]
      omega
    · rw [hn]
      omega

/-! ### The bytes of a value -/

/-- `encode_oracle_date`. -/
def encodeOracleDate (value : DateTime) : List UInt8 :=
  [UInt8.ofNat (value.year / 100 + 100), UInt8.ofNat (value.year % 100 + 100),
    UInt8.ofNat value.month, UInt8.ofNat value.day, UInt8.ofNat (value.hour + 1),
    UInt8.ofNat (value.minute + 1), UInt8.ofNat (value.second + 1)]

/-- `encode_oracle_timestamp`, where the offset is left out or put behind. -/
def encodeOracleTimestamp (value : DateTime) (tz : Option (ℤ × ℤ)) : List UInt8 :=
  encodeOracleDate value ++ (toBeBytes 4 (min value.nanosecond 999999999) ++
    tz.elim [] fun tz => [UInt8.ofInt (tz.1 + 20), UInt8.ofInt (tz.2 + 60)])

/-- `encode_oracle_timestamp_tz`. -/
def encodeOracleTimestampTz (value : DateTime) (tz : ℤ × ℤ) (oci : Bool) : List UInt8 :=
  let hourByte := UInt8.ofInt (tz.1 + 20)
  encodeOracleTimestamp value none ++
    [if oci then hourByte ||| 0x40 else hourByte, UInt8.ofInt (tz.2 + 60)]

/-- The text of the fields of a date. -/
def dateText (year : ℤ) (month day hour minute second micros : ℕ) : List Char :=
  paddedInt 4 year ++ ('-' :: (padded 2 month ++ ('-' :: (padded 2 day ++ (' ' ::
    (padded 2 hour ++ (':' :: (padded 2 minute ++ (':' :: (padded 2 second ++
      if micros ≠ 0 then '.' :: padded 6 micros else []))))))))))

/-- `decode_oracle_temporal`: the literal, or the text of a conversion error. -/
def decodeOracleTemporal (raw : List UInt8) (oracleType : UInt8) : Except String (List Char) :=
  match raw with
  | y :: y' :: month :: day :: hour :: minute :: second :: rest =>
    let year : ℤ := ((y.toNat : ℤ) - 100) * 100 + y'.toNat - 100
    if hour = 0 then .error "Oracle DATE bind has invalid hour"
    else if minute = 0 then .error "Oracle DATE bind has invalid minute"
    else if second = 0 then .error "Oracle DATE bind has invalid second"
    else
      let hour := hour.toNat - 1
      let minute := minute.toNat - 1
      let second := second.toNat - 1
      if ¬ (1 ≤ month.toNat ∧ month.toNat ≤ 12) ∨ ¬ (1 ≤ day.toNat ∧ day.toNat ≤ 31) ∨ 23 < hour ∨
          59 < minute ∨ 59 < second then
        .error "Oracle DATE bind has invalid calendar fields"
      else
        let micros := if 4 ≤ rest.length then ofBeBytes (rest.take 4) / 1000 else 0
        let literal := dateText year month.toNat day.toNat hour minute second micros
        match rest with
        | _ :: _ :: _ :: _ :: tzHour :: tzMinute :: _ =>
          if oracleType = 181 ∨ oracleType = 231 then
            .ok ("TIMESTAMPTZ '".toList ++ (literal ++ (' ' ::
              (signedInt 3 ((tzHour.toNat : ℤ) - 20) ++
                (':' :: (padded 2 ((tzMinute.toNat : ℤ) - 60).natAbs ++ ['\'']))))))
          else .ok ("TIMESTAMP '".toList ++ (literal ++ ['\'']))
        | _ => .ok ("TIMESTAMP '".toList ++ (literal ++ ['\'']))
  | _ => .error "Oracle DATE/TIMESTAMP bind must contain at least 7 bytes"

/-! ### The instant of a literal -/

/-- A fraction of a second, in microseconds. -/
def takeFraction : List Char → Option (ℕ × List Char)
  | '.' :: s => takeNumber 6 s
  | s => some (0, s)

/-- The sign of an offset. -/
def takeSign : List Char → Option (ℤ × List Char)
  | '+' :: s => some (1, s)
  | '-' :: s => some (-1, s)
  | _ => none

/-- A date. -/
def takeDate (s : List Char) : Option ((ℕ × ℕ × ℕ) × List Char) := do
  let (year, s) ← takeNumber 4 s
  let s ← strip ['-'] s
  let (month, s) ← takeNumber 2 s
  let s ← strip ['-'] s
  let (day, s) ← takeNumber 2 s
  some ((year, month, day), s)

/-- The time of a day. -/
def takeTime (s : List Char) : Option ((ℕ × ℕ × ℕ × ℕ) × List Char) := do
  let (hour, s) ← takeNumber 2 s
  let s ← strip [':'] s
  let (minute, s) ← takeNumber 2 s
  let s ← strip [':'] s
  let (second, s) ← takeNumber 2 s
  let (micros, s) ← takeFraction s
  some ((hour, minute, second, micros), s)

/-- An offset in minutes: less than 16 hours. -/
def takeOffset (s : List Char) : Option (ℤ × List Char) := do
  let (sign, s) ← takeSign s
  let (hours, s) ← takeNumber 2 s
  let s ← strip [':'] s
  let (minutes, s) ← takeNumber 2 s
  if hours < 16 ∧ minutes < 60 then some (sign * (hours * 60 + minutes), s) else none

/-- The instant a `TIMESTAMPTZ` literal stands for: the one at which a clock with its offset shows
its fields. -/
def instantOf (s : List Char) : Option ℤ := do
  let s ← strip "TIMESTAMPTZ '".toList s
  let ((year, month, day), s) ← takeDate s
  let s ← strip [' '] s
  let ((hour, minute, second, micros), s) ← takeTime s
  let s ← strip [' '] s
  let (offset, s) ← takeOffset s
  if s = ['\''] then
    some (microsOf year month day hour minute second micros - offset * 60000000)
  else none

/-- A fraction in front of a text that starts with none. -/
lemma takeFraction_dateText {micros : ℕ} (h : micros < 1000000) {s : List Char}
    (hs : takeFraction s = some (0, s)) :
    takeFraction ((if micros ≠ 0 then '.' :: padded 6 micros else []) ++ s) =
      some (micros, s) := by
  by_cases hzero : micros = 0
  · rw [if_neg (not_not.2 hzero), hzero]
    exact hs
  · rw [if_pos hzero]
    exact takeNumber_padded (by decide) h _

lemma takeSign_signedInt (n : ℤ) (s : List Char) : takeSign (signedInt 3 n ++ s) =
    some (if n < 0 then -1 else 1, padded 2 n.natAbs ++ s) := by
  unfold signedInt
  split_ifs <;> rfl

section Literal

variable {year month day hour minute second micros : ℕ}

lemma takeDate_append (hyear : year < 10000) (hmonth : month < 100) (hday : day < 100)
    (s : List Char) :
    takeDate (padded 4 year ++ ('-' :: (padded 2 month ++ ('-' :: (padded 2 day ++ s))))) =
      some ((year, month, day), s) := by
  unfold takeDate
  simp only [takeNumber_padded (w := 4) (by decide) hyear, strip_cons, Option.bind_eq_bind,
    Option.bind_some, takeNumber_two hmonth, takeNumber_two hday]

lemma takeTime_append (hhour : hour < 100) (hminute : minute < 100) (hsecond : second < 100)
    (hmicros : micros < 1000000) {s : List Char} (hs : takeFraction s = some (0, s)) :
    takeTime (padded 2 hour ++ (':' :: (padded 2 minute ++ (':' :: (padded 2 second ++
      ((if micros ≠ 0 then '.' :: padded 6 micros else []) ++ s)))))) =
      some ((hour, minute, second, micros), s) := by
  unfold takeTime
  simp only [takeNumber_two hhour, strip_cons, Option.bind_eq_bind, Option.bind_some,
    takeNumber_two hminute, takeNumber_two hsecond, takeFraction_dateText hmicros hs]

lemma takeOffset_append {hours : ℤ} {minutes : ℕ} (hhours : hours.natAbs < 100)
    (hminutes : minutes < 60) (s : List Char) :
    takeOffset (signedInt 3 hours ++ (':' :: (padded 2 minutes ++ s))) =
      if hours.natAbs < 16 then
        some ((if hours < 0 then -1 else 1 : ℤ) * (hours.natAbs * 60 + minutes), s)
      else none := by
  unfold takeOffset
  simp only [takeSign_signedInt, Option.bind_eq_bind, Option.bind_some, takeNumber_two hhours,
    strip_cons, takeNumber_two (show minutes < 100 by omega)]
  exact if_congr (and_iff_left hminutes) rfl rfl

/-- The literal of the fields of a date and an offset. -/
lemma instantOf_text (hyear : year < 10000) (hmonth : month < 100) (hday : day < 100)
    (hhour : hour < 100) (hminute : minute < 100) (hsecond : second < 100)
    (hmicros : micros < 1000000) {hours : ℤ} {minutes : ℕ} (hhours : hours.natAbs < 100)
    (hminutes : minutes < 60) :
    instantOf ("TIMESTAMPTZ '".toList ++ (dateText year month day hour minute second micros ++
      (' ' :: (signedInt 3 hours ++ (':' :: (padded 2 minutes ++ ['\'']))))))  =
    if hours.natAbs < 16 then
      some (microsOf year month day hour minute second micros -
        (if hours < 0 then -1 else 1 : ℤ) * (hours.natAbs * 60 + minutes) * 60000000)
    else none := by
  have hyear' : paddedInt 4 year = padded 4 year := if_neg (by omega)
  unfold instantOf dateText
  rw [hyear', strip_append]
  simp only [List.append_assoc, List.cons_append, Option.bind_eq_bind, Option.bind_some]
  rw [takeDate_append hyear hmonth hday]
  simp only [Option.bind_some, strip_cons]
  rw [takeTime_append hhour hminute hsecond hmicros rfl]
  simp only [Option.bind_some, strip_cons]
  rw [takeOffset_append hhours hminutes]
  split_ifs <;> rfl

end Literal

/-! ### A value that comes back -/

lemma toNat_ofNat {n : ℕ} (h : n < 256) : (UInt8.ofNat n).toNat = n := by
  rw [UInt8.toNat_ofNat', Nat.mod_eq_of_lt h]

lemma toNat_ofInt {n : ℤ} (h : 0 ≤ n ∧ n < 256) : ((UInt8.ofInt n).toNat : ℤ) = n := by
  rw [UInt8.ofInt, UInt8.toNat_ofNat']
  omega

/-- The bit for an OCI client stands above the hours. -/
lemma toNat_or_bit {n : ℤ} (h : 0 ≤ n ∧ n < 64) :
    ((UInt8.ofInt n ||| 0x40).toNat : ℤ) = n + 64 := by
  obtain ⟨k, rfl⟩ := Int.eq_ofNat_of_zero_le h.1
  have hbits : ∀ k : Fin 64, (UInt8.ofInt (k : ℕ) ||| 0x40).toNat = k + 64 := by decide
  exact congrArg Nat.cast (hbits ⟨k, by omega⟩)

lemma daysInMonth_le (year month : ℕ) : daysInMonth year month ≤ 31 := by
  unfold daysInMonth
  split_ifs <;> omega

lemma DateTime.day_le (t : DateTime) : t.day ≤ 31 :=
  t.day_mem.2.trans (daysInMonth_le t.year t.month)

/-- The hours that come back. -/
def hoursBack (hours : ℤ) (oci : Bool) : ℤ := if oci then hours + 64 else hours

/-- The literal of a value that comes back: the fields in UTC with the offset of the session. -/
lemma decode_encode (t : DateTime) (off : Offset) (oci : Bool) :
    decodeOracleTemporal (encodeOracleTimestampTz t (off.hours, off.minutes) oci) 181 =
      .ok ("TIMESTAMPTZ '".toList ++
        (dateText t.year t.month t.day t.hour t.minute t.second (t.nanosecond / 1000) ++
          (' ' :: (signedInt 3 (hoursBack off.hours oci) ++
            (':' :: (padded 2 off.minutes.natAbs ++ ['\'']))))))  := by
  obtain ⟨hminutes, hhours⟩ := And.intro off.minutes_lt off.bounded
  have hnanos : min t.nanosecond 999999999 = t.nanosecond := by
    have := t.nanosecond_lt
    omega
  have hread : ofBeBytes [UInt8.ofNat (t.nanosecond / 16777216), UInt8.ofNat (t.nanosecond / 65536),
      UInt8.ofNat (t.nanosecond / 256), UInt8.ofNat t.nanosecond] = t.nanosecond := by
    rw [← toBeBytes_four]
    exact ofBeBytes_of_lt (t.nanosecond_lt.trans (by decide))
  have htzHour : (((if oci then UInt8.ofInt (off.hours + 20) ||| 0x40
      else UInt8.ofInt (off.hours + 20)).toNat : ℤ) - 20) = hoursBack off.hours oci := by
    cases oci with
    | false =>
      have := toNat_ofInt (n := off.hours + 20) (by omega)
      show ((UInt8.ofInt (off.hours + 20)).toNat : ℤ) - 20 = off.hours
      omega
    | true =>
      have := toNat_or_bit (n := off.hours + 20) (by omega)
      show ((UInt8.ofInt (off.hours + 20) ||| 0x40).toNat : ℤ) - 20 = off.hours + 64
      omega
  have htzMinute : (((UInt8.ofInt (off.minutes + 60)).toNat : ℤ) - 60) = off.minutes := by
    have := toNat_ofInt (n := off.minutes + 60) (by omega)
    omega
  obtain ⟨hyear, hmonth, hday⟩ := And.intro t.year_mem (And.intro t.month_mem t.day_le)
  obtain ⟨hhour, hminute, hsecond⟩ := And.intro t.hour_lt (And.intro t.minute_lt t.second_lt)
  have hfirst := t.day_mem.1
  have hyearBack : ((UInt8.ofNat (t.year / 100 + 100)).toNat - 100 : ℤ) * 100 +
      (UInt8.ofNat (t.year % 100 + 100)).toNat - 100 = t.year := by
    rw [toNat_ofNat (by omega), toNat_ofNat (by omega)]
    omega
  have hne : ∀ n, n < 60 → UInt8.ofNat (n + 1) ≠ 0 := by
    intro n hn hzero
    have := congrArg UInt8.toNat hzero
    rw [toNat_ofNat (by omega)] at this
    exact Nat.succ_ne_zero n this
  have hback : ∀ n, n < 60 → (UInt8.ofNat (n + 1)).toNat - 1 = n := by
    intro n hn
    rw [toNat_ofNat (by omega)]
    omega
  unfold encodeOracleTimestampTz encodeOracleTimestamp encodeOracleDate
  rw [hnanos, toBeBytes_four]
  simp only [Option.elim_none, List.append_nil, List.cons_append, List.nil_append]
  unfold decodeOracleTemporal
  simp only [hyearBack, htzHour, htzMinute, hback _ hminute, hback _ hsecond,
    hback _ (show t.hour < 60 by omega), toNat_ofNat (show t.month < 256 by omega),
    toNat_ofNat (show t.day < 256 by omega), List.take_succ_cons, List.take_zero, hread]
  rw [if_neg (hne _ (by omega)), if_neg (hne _ hminute), if_neg (hne _ hsecond),
    if_neg (by omega), if_pos (.inl trivial), if_pos (by simp)]

end DbSaci.Wire
