import DbSaci.Wire.BindValue

set_option relaxedAutoImplicit false
set_option autoImplicit false

/-!
# `DATE` and `TIMESTAMP` on the wire

A date of the calendar, which goes back before the year 1, is sent with its century and its year in
excess of 100. What comes back is made into a literal, in which a year before the year 1 is written
with a minus sign, as PostgreSQL does not read it. Of the date that comes back only the single
fields are checked.

## Main definitions

* `CalendarTime` — a date of the calendar with its time.
* `readTimestamp` — how a literal is read by PostgreSQL.
* `CalendarTime.RoundTrips` — a value comes back as a literal of the same instant.
* `Accepts`, `DenotesDate`, `Misdated` — bytes that are accepted, and whether they are a date.

## Main results

* `CalendarTime.roundTrips_iff` — which dates come back.
* `accepts_denotes_iff` — which bytes are accepted although they are no date.
-/

namespace DbSaci.Wire

open Decimal

/-! ### The calendar -/

/-- The days of a month. The year before the year 1 is the year 0. -/
def monthDays (year : ℤ) (month : ℕ) : ℕ :=
  if month = 2 then if year % 4 = 0 ∧ (year % 100 ≠ 0 ∨ year % 400 = 0) then 29 else 28
  else if month = 4 ∨ month = 6 ∨ month = 9 ∨ month = 11 then 30
  else 31

/-- A date of the calendar. -/
def IsDate (year : ℤ) (month day : ℕ) : Prop :=
  (1 ≤ month ∧ month ≤ 12) ∧ 1 ≤ day ∧ day ≤ monthDays year month

instance (year : ℤ) (month day : ℕ) : Decidable (IsDate year month day) :=
  inferInstanceAs (Decidable (_ ∧ _))

/-- A date of the calendar with its time, in the range of Oracle. -/
structure CalendarTime where
  year : ℤ
  month : ℕ
  day : ℕ
  hour : ℕ
  minute : ℕ
  second : ℕ
  micros : ℕ
  year_mem : -4712 ≤ year ∧ year ≤ 9999
  isDate : IsDate year month day
  hour_lt : hour < 24
  minute_lt : minute < 60
  second_lt : second < 60
  micros_lt : micros < 1000000

namespace CalendarTime

variable (value : CalendarTime)

/-- `encode_oracle_date`, for any year: a year before the year 0 is divided towards zero. -/
def encodeOracleDate : List UInt8 :=
  [UInt8.ofInt (value.year.tdiv 100 + 100), UInt8.ofInt (value.year.tmod 100 + 100),
    UInt8.ofNat value.month, UInt8.ofNat value.day, UInt8.ofNat (value.hour + 1),
    UInt8.ofNat (value.minute + 1), UInt8.ofNat (value.second + 1)]

/-- `encode_oracle_timestamp`, for any year, without an offset. -/
def encodeOracleTimestamp : List UInt8 :=
  value.encodeOracleDate ++ toBeBytes 4 (min (value.micros * 1000) 999999999)

end CalendarTime

/-- A date from the year 1 on is a date of the calendar. -/
def DateTime.calendar (t : DateTime) : CalendarTime where
  year := t.year
  month := t.month
  day := t.day
  hour := t.hour
  minute := t.minute
  second := t.second
  micros := t.nanosecond / 1000
  year_mem := ⟨by omega, by exact_mod_cast t.year_mem.2⟩
  isDate := by
    have hdays : monthDays t.year t.month = daysInMonth t.year t.month := by
      unfold monthDays daysInMonth
      split_ifs <;> omega
    rw [IsDate, hdays]
    exact ⟨t.month_mem, t.day_mem⟩
  hour_lt := t.hour_lt
  minute_lt := t.minute_lt
  second_lt := t.second_lt
  micros_lt := by
    have := t.nanosecond_lt
    omega

lemma ofInt_natCast (n : ℕ) : UInt8.ofInt n = UInt8.ofNat n := by
  rw [← UInt8.toNat_inj, UInt8.ofInt, UInt8.toNat_ofNat', UInt8.toNat_ofNat']
  omega

/-- It has the same bytes. -/
lemma encodeOracleTimestamp_calendar (t : DateTime) :
    t.calendar.encodeOracleTimestamp = encodeOracleTimestamp t none := by
  have hyear := t.year_mem
  have hnanos : t.nanosecond / 1000 * 1000 = t.nanosecond := Nat.div_mul_cancel t.micros
  have hdiv : UInt8.ofInt ((t.year : ℤ).tdiv 100 + 100) = UInt8.ofNat (t.year / 100 + 100) :=
    ofInt_natCast (t.year / 100 + 100)
  have hmod : UInt8.ofInt ((t.year : ℤ).tmod 100 + 100) = UInt8.ofNat (t.year % 100 + 100) :=
    ofInt_natCast (t.year % 100 + 100)
  unfold CalendarTime.encodeOracleTimestamp encodeOracleTimestamp CalendarTime.encodeOracleDate
    encodeOracleDate
  rw [Option.elim_none, List.append_nil]
  simp only [DateTime.calendar, hdiv, hmod, hnanos]

/-! ### Literals -/

/-- The fields of a date with its time. -/
abbrev DateFields : Type := (ℤ × ℕ × ℕ) × ℕ × ℕ × ℕ × ℕ

/-- The year of a literal, where one before the year 1 is counted from there and marked. There is no
year zero. -/
def takeEra (year : ℕ) (s : List Char) : Option (ℤ × List Char) :=
  if year = 0 then none
  else
    match s with
    | ' ' :: 'B' :: 'C' :: s => some (1 - year, s)
    | s => some (year, s)

/-- The date with its time that a `TIMESTAMP` literal stands for. -/
def readTimestamp (s : List Char) : Option DateFields := do
  let s ← strip "TIMESTAMP '".toList s
  let ((year, month, day), s) ← takeDate s
  let s ← strip [' '] s
  let (time, s) ← takeTime s
  let (year, s) ← takeEra year s
  if s = ['\''] ∧ IsDate year month day then some ((year, month, day), time) else none

/-- The fields of a value. -/
def CalendarTime.fields (v : CalendarTime) : DateFields :=
  ((v.year, v.month, v.day), v.hour, v.minute, v.second, v.micros)

/-- The fields of a value to the second. -/
def CalendarTime.fieldsToSecond (v : CalendarTime) : DateFields :=
  ((v.year, v.month, v.day), v.hour, v.minute, v.second, 0)

/-- **A value comes back** as a `DATE` to the second, and as a `TIMESTAMP` to the microsecond, in
literals of the same instant. -/
def CalendarTime.RoundTrips (v : CalendarTime) : Prop :=
  (∃ literal, decodeBindValue 12 (some v.encodeOracleDate) = .ok (.temporal literal) ∧
    readTimestamp literal = some v.fieldsToSecond) ∧
  ∃ literal, decodeBindValue 180 (some v.encodeOracleTimestamp) = .ok (.temporal literal) ∧
    readTimestamp literal = some v.fields

/-! ### Bytes that are accepted -/

/-- Bytes that are accepted as a `DATE` or as a `TIMESTAMP`. -/
def Accepts (raw : List UInt8) : Prop :=
  (∃ literal, decodeBindValue 12 (some raw) = .ok (.temporal literal)) ∨
    ∃ literal, decodeBindValue 180 (some raw) = .ok (.temporal literal)

/-- The year of two bytes. -/
def yearOf (y y' : UInt8) : ℤ := ((y.toNat : ℤ) - 100) * 100 + y'.toNat - 100

/-- The nanoseconds behind a date, if there are some. -/
def nanosOfBytes (rest : List UInt8) : ℕ := if 4 ≤ rest.length then ofBeBytes (rest.take 4) else 0

/-- The bytes denote a date of the calendar with its time. -/
def DenotesDate (raw : List UInt8) : Prop :=
  ∃ (v : CalendarTime) (y y' month day hour minute second : UInt8) (rest : List UInt8),
    raw = y :: y' :: month :: day :: hour :: minute :: second :: rest ∧
    v.year = yearOf y y' ∧ v.month = month.toNat ∧ v.day = day.toNat ∧
    v.hour + 1 = hour.toNat ∧ v.minute + 1 = minute.toNat ∧ v.second + 1 = second.toNat ∧
    nanosOfBytes rest < 1000000000 ∧ v.micros = nanosOfBytes rest / 1000

/-- Each field is one that some date has. -/
def FieldsFit (month day hour minute second : UInt8) : Prop :=
  (1 ≤ month.toNat ∧ month.toNat ≤ 12) ∧ (1 ≤ day.toNat ∧ day.toNat ≤ 31) ∧
    (1 ≤ hour.toNat ∧ hour.toNat ≤ 24) ∧ (1 ≤ minute.toNat ∧ minute.toNat ≤ 60) ∧
    1 ≤ second.toNat ∧ second.toNat ≤ 60

/-- Bytes whose fields fit one by one, but whose month does not have the day, whose year is out of
range, or whose fraction is a second or more. -/
def Misdated : List UInt8 → Prop
  | y :: y' :: month :: day :: hour :: minute :: second :: rest =>
    FieldsFit month day hour minute second ∧
      (¬ (-4712 ≤ yearOf y y' ∧ yearOf y y' ≤ 9999) ∨
        monthDays (yearOf y y') month.toNat < day.toNat ∨ 1000000000 ≤ nanosOfBytes rest)
  | _ => False

lemma monthDays_le (year : ℤ) (month : ℕ) : monthDays year month ≤ 31 := by
  unfold monthDays
  split_ifs <;> omega

/-! ### What is decoded -/

section Decode

variable {month day hour minute second : UInt8} (y y' : UInt8) (rest : List UInt8)

lemma ne_zero_of_le {b : UInt8} (h : 1 ≤ b.toNat) : b ≠ 0 := by
  rintro rfl
  exact absurd h (by decide)

/-- The literal that is made of fields that fit. -/
lemma decode_of_fits {oracleType : UInt8} (htype : oracleType = 12 ∨ oracleType = 180)
    (h : FieldsFit month day hour minute second) :
    decodeOracleTemporal (y :: y' :: month :: day :: hour :: minute :: second :: rest) oracleType =
      .ok ("TIMESTAMP '".toList ++ (dateText (yearOf y y') month.toNat day.toNat
        (hour.toNat - 1) (minute.toNat - 1) (second.toNat - 1) (nanosOfBytes rest / 1000) ++
          ['\''])) := by
  obtain ⟨hmonth, hday, hhour, hminute, hsecond⟩ := h
  have hmicros : (if 4 ≤ rest.length then ofBeBytes (rest.take 4) / 1000 else 0) =
      nanosOfBytes rest / 1000 := by
    rw [nanosOfBytes]
    split_ifs
    · rfl
    · rfl
  have hzone : ¬ (oracleType = 181 ∨ oracleType = 231) := by
    rcases htype with rfl | rfl <;> decide
  unfold decodeOracleTemporal
  dsimp only
  rw [if_neg (ne_zero_of_le hhour.1), if_neg (ne_zero_of_le hminute.1),
    if_neg (ne_zero_of_le hsecond.1), if_neg (by omega), hmicros]
  split
  · rw [if_neg hzone]
    rfl
  · rfl

/-- Fields that do not fit are rejected. -/
lemma decode_of_not_fits (oracleType : UInt8) (h : ¬ FieldsFit month day hour minute second) :
    ∃ e, decodeOracleTemporal (y :: y' :: month :: day :: hour :: minute :: second :: rest)
      oracleType = .error e := by
  unfold decodeOracleTemporal
  dsimp only
  by_cases hhour : hour = 0
  · exact ⟨_, if_pos hhour⟩
  by_cases hminute : minute = 0
  · exact ⟨_, (if_neg hhour).trans (if_pos hminute)⟩
  by_cases hsecond : second = 0
  · exact ⟨_, (if_neg hhour).trans ((if_neg hminute).trans (if_pos hsecond))⟩
  have hpos : ∀ b : UInt8, b ≠ 0 → 1 ≤ b.toNat := by
    intro b hb
    by_contra hzero
    exact hb (UInt8.toNat_inj.1 (by rw [UInt8.toNat_zero]; omega))
  have hhour' := hpos hour hhour
  have hminute' := hpos minute hminute
  have hsecond' := hpos second hsecond
  rw [FieldsFit] at h
  rw [if_neg hhour, if_neg hminute, if_neg hsecond, if_pos (by omega)]
  exact ⟨_, rfl⟩

lemma decodeBindValue_date (raw : List UInt8) :
    decodeBindValue 12 (some raw) = (decodeOracleTemporal raw 12).map .temporal := rfl

lemma decodeBindValue_timestamp (raw : List UInt8) :
    decodeBindValue 180 (some raw) = (decodeOracleTemporal raw 180).map .temporal := rfl

/-- Bytes are accepted exactly if each field fits. -/
lemma accepts_iff :
    Accepts (y :: y' :: month :: day :: hour :: minute :: second :: rest) ↔
      FieldsFit month day hour minute second := by
  rw [Accepts, decodeBindValue_date, decodeBindValue_timestamp]
  constructor
  · intro h
    by_contra hnot
    obtain ⟨e, he⟩ := decode_of_not_fits y y' rest 12 hnot
    obtain ⟨e', he'⟩ := decode_of_not_fits y y' rest 180 hnot
    rw [he, he'] at h
    rcases h with ⟨_, h⟩ | ⟨_, h⟩ <;> cases h
  · intro h
    rw [decode_of_fits y y' rest (.inl rfl) h]
    exact .inl ⟨_, rfl⟩

/-- There are seven bytes of fields, or too few. -/
lemma short_or_fields (raw : List UInt8) : raw.length < 7 ∧ ¬ Misdated raw ∨
    ∃ y y' month day hour minute second rest,
      raw = y :: y' :: month :: day :: hour :: minute :: second :: rest := by
  rcases raw with _ | ⟨_, _ | ⟨_, _ | ⟨_, _ | ⟨_, _ | ⟨_, _ | ⟨_, _ | ⟨_, raw⟩⟩⟩⟩⟩⟩⟩
  on_goal 8 => exact .inr ⟨_, _, _, _, _, _, _, _, rfl⟩
  all_goals exact .inl ⟨by simp only [List.length_cons, List.length_nil]; omega, id⟩

/-- Bytes that are too few are rejected. -/
lemma not_accepts_of_short {raw : List UInt8} (h : raw.length < 7) : ¬ Accepts raw := by
  have hshort : ∀ oracleType, decodeOracleTemporal raw oracleType =
      .error "Oracle DATE/TIMESTAMP bind must contain at least 7 bytes" := by
    intro oracleType
    unfold decodeOracleTemporal
    split
    · simp only [List.length_cons] at h
      omega
    · rfl
  rw [Accepts, decodeBindValue_date, decodeBindValue_timestamp, hshort, hshort]
  rintro (⟨_, h⟩ | ⟨_, h⟩) <;> cases h

/-- The bytes are a date exactly if each field fits and they are not misdated. -/
lemma denotesDate_iff :
    DenotesDate (y :: y' :: month :: day :: hour :: minute :: second :: rest) ↔
      FieldsFit month day hour minute second ∧
        ¬ Misdated (y :: y' :: month :: day :: hour :: minute :: second :: rest) := by
  rw [Misdated]
  constructor
  · rintro ⟨v, _, _, _, _, _, _, _, _, hraw, hyear, hmonth, hday, hhour, hminute, hsecond, hnanos,
      -⟩
    obtain ⟨rfl, rfl, rfl, rfl, rfl, rfl, rfl, rfl⟩ : _ := by simpa using hraw
    obtain ⟨hmonths, hfirst, hlast⟩ := v.isDate
    have hlong := monthDays_le v.year v.month
    have hyears := v.year_mem
    have hlt := And.intro v.hour_lt (And.intro v.minute_lt v.second_lt)
    rw [hyear, hmonth] at hlast hlong
    rw [hyear] at hyears
    have hfit : FieldsFit month day hour minute second := by
      rw [FieldsFit]
      omega
    refine ⟨hfit, fun hmis => ?_⟩
    rcases hmis.2 with h | h | h <;> omega
  · rintro ⟨hfit, hmis⟩
    obtain ⟨hyears, hdays, hnanos⟩ : (-4712 ≤ yearOf y y' ∧ yearOf y y' ≤ 9999) ∧
        day.toNat ≤ monthDays (yearOf y y') month.toNat ∧ nanosOfBytes rest < 1000000000 := by
      refine ⟨by_contra fun h => hmis ⟨hfit, .inl h⟩, ?_, ?_⟩
      · exact Nat.not_lt.1 fun h => hmis ⟨hfit, .inr (.inl h)⟩
      · exact Nat.not_le.1 fun h => hmis ⟨hfit, .inr (.inr h)⟩
    obtain ⟨hmonth, hday, hhour, hminute, hsecond⟩ := hfit
    refine ⟨⟨yearOf y y', month.toNat, day.toNat, hour.toNat - 1, minute.toNat - 1,
      second.toNat - 1, nanosOfBytes rest / 1000, hyears, ⟨hmonth, hday.1, hdays⟩, by omega,
      by omega, by omega, by omega⟩, y, y', month, day, hour, minute, second, rest, rfl, rfl, rfl,
      rfl, ?_⟩
    exact ⟨Nat.sub_add_cancel hhour.1, Nat.sub_add_cancel hminute.1, Nat.sub_add_cancel hsecond.1,
      hnanos, rfl⟩

/-- **Which bytes are accepted although they are no date.** -/
theorem accepts_denotes_iff (raw : List UInt8) :
    (Accepts raw → DenotesDate raw) ↔ ¬ Misdated raw := by
  rcases short_or_fields raw with
    ⟨hshort, hmis⟩ | ⟨y, y', month, day, hour, minute, second, rest, rfl⟩
  · exact iff_of_true (fun h => absurd h (not_accepts_of_short hshort)) hmis
  · rw [accepts_iff, denotesDate_iff]
    constructor
    · intro h hmis
      exact (h hmis.1).2 hmis
    · intro hmis hfit
      exact ⟨hfit, hmis⟩

end Decode

/-! ### What comes back -/

/-- The literal of some fields is read back exactly if the year is one after the year 0. -/
lemma readTimestamp_dateText {year : ℤ} {month day hour minute second micros : ℕ}
    (hyear : year ≤ 9999) (hdate : IsDate year month day) (hhour : hour < 24)
    (hminute : minute < 60) (hsecond : second < 60) (hmicros : micros < 1000000) :
    readTimestamp ("TIMESTAMP '".toList ++
      (dateText year month day hour minute second micros ++ ['\''])) =
      if 1 ≤ year then some ((year, month, day), hour, minute, second, micros) else none := by
  obtain ⟨hmonth, hday, hlast⟩ := hdate
  have hlong := monthDays_le year month
  have htime := takeTime_append (s := ['\'']) (hhour.trans (by decide)) (hminute.trans (by decide))
    (hsecond.trans (by decide)) hmicros rfl
  unfold readTimestamp dateText
  rw [strip_append]
  simp only [List.append_assoc, List.cons_append, Option.bind_eq_bind, Option.bind_some]
  by_cases hneg : year < 0
  · -- a minus sign is no digit
    have hdate : ∀ s : List Char, takeDate (paddedInt 4 year ++ s) = none := by
      intro s
      rw [paddedInt, if_pos hneg, takeDate, takeNumber, if_neg (by simp)]
      rfl
    rw [hdate, if_neg (by omega)]
    rfl
  · obtain ⟨n, rfl⟩ := Int.eq_ofNat_of_zero_le (Int.not_lt.1 hneg)
    have hpadded : paddedInt 4 (n : ℤ) = padded 4 n := if_neg (by omega)
    rw [hpadded, takeDate_append (by omega) (by omega) (by omega)]
    simp only [Option.bind_some, strip_cons, htime, takeEra]
    by_cases hzero : n = 0
    · rw [if_pos hzero, if_neg (by omega)]
      rfl
    · have hdate : IsDate (n : ℤ) month day := ⟨hmonth, hday, hlast⟩
      rw [if_neg hzero, if_pos (by omega)]
      exact if_pos ⟨rfl, hdate⟩

namespace CalendarTime

variable (v : CalendarTime)

/-- The bytes of a value have its fields. -/
lemma encodeOracleDate_fields : ∃ y y' month day hour minute second,
    v.encodeOracleDate = [y, y', month, day, hour, minute, second] ∧ yearOf y y' = v.year ∧
      month.toNat = v.month ∧ day.toNat = v.day ∧ hour.toNat = v.hour + 1 ∧
      minute.toNat = v.minute + 1 ∧ second.toNat = v.second + 1 := by
  obtain ⟨hmonth, hday, hlast⟩ := v.isDate
  have hlong := monthDays_le v.year v.month
  obtain ⟨hhour, hminute, hsecond⟩ := And.intro v.hour_lt (And.intro v.minute_lt v.second_lt)
  refine ⟨_, _, _, _, _, _, _, rfl, ?_, toNat_ofNat (by omega), toNat_ofNat (by omega),
    toNat_ofNat (by omega), toNat_ofNat (by omega), toNat_ofNat (by omega)⟩
  have hyear := v.year_mem
  obtain ⟨n, hn | hn⟩ := v.year.eq_nat_or_neg
  · have hdiv : v.year.tdiv 100 = (n / 100 : ℕ) := by rw [hn]; rfl
    have hmod : v.year.tmod 100 = (n % 100 : ℕ) := by rw [hn]; rfl
    rw [yearOf, hdiv, hmod, toNat_ofInt (by omega), toNat_ofInt (by omega)]
    omega
  · have hdiv : v.year.tdiv 100 = -(n / 100 : ℕ) := by rw [hn, Int.neg_tdiv]; rfl
    have hmod : v.year.tmod 100 = -(n % 100 : ℕ) := by rw [hn, Int.neg_tmod]; rfl
    rw [yearOf, hdiv, hmod, toNat_ofInt (by omega), toNat_ofInt (by omega)]
    omega

/-- The literal of a value with so many microseconds. -/
def literal (micros : ℕ) : List Char :=
  "TIMESTAMP '".toList ++
    (dateText v.year v.month v.day v.hour v.minute v.second micros ++ ['\''])

/-- What the bytes of a value are decoded to, with a fraction behind them or not. -/
lemma decode_encode_date {oracleType : UInt8} (htype : oracleType = 12 ∨ oracleType = 180)
    (rest : List UInt8) : decodeOracleTemporal (v.encodeOracleDate ++ rest) oracleType =
      .ok (v.literal (nanosOfBytes rest / 1000)) := by
  obtain ⟨y, y', month, day, hour, minute, second, hbytes, hyear, hmonth, hday, hhour, hminute,
    hsecond⟩ := v.encodeOracleDate_fields
  obtain ⟨hmonths, hfirst, hlast⟩ := v.isDate
  have hlong := monthDays_le v.year v.month
  have hlt := And.intro v.hour_lt (And.intro v.minute_lt v.second_lt)
  have hfit : FieldsFit month day hour minute second := by
    rw [FieldsFit]
    omega
  have hdecode := decode_of_fits y y' rest htype hfit
  rw [hyear, hmonth, hday, hhour, hminute, hsecond] at hdecode
  rw [hbytes]
  exact hdecode

/-- **Which dates come back**: those from the year 1 on. -/
theorem roundTrips_iff : v.RoundTrips ↔ 1 ≤ v.year := by
  have hmicros := v.micros_lt
  have hnanos : nanosOfBytes (toBeBytes 4 (min (v.micros * 1000) 999999999)) = v.micros * 1000 := by
    rw [nanosOfBytes, length_toBeBytes, if_pos (Nat.le_refl 4), List.take_of_length_le
      (by rw [length_toBeBytes]), ofBeBytes_of_lt (by omega)]
    omega
  have hback : v.micros * 1000 / 1000 = v.micros := Nat.mul_div_cancel _ (by decide)
  have hdate : decodeBindValue 12 (some v.encodeOracleDate) = .ok (.temporal (v.literal 0)) := by
    have hdecode := v.decode_encode_date (.inl rfl) []
    rw [List.append_nil] at hdecode
    rw [decodeBindValue_date, hdecode]
    rfl
  have htimestamp : decodeBindValue 180 (some v.encodeOracleTimestamp) =
      .ok (.temporal (v.literal v.micros)) := by
    rw [decodeBindValue_timestamp, encodeOracleTimestamp, v.decode_encode_date (.inr rfl), hnanos,
      hback]
    rfl
  have hread : ∀ micros < 1000000, readTimestamp (v.literal micros) =
      if 1 ≤ v.year then some ((v.year, v.month, v.day), v.hour, v.minute, v.second, micros)
      else none :=
    fun _ h => readTimestamp_dateText v.year_mem.2 v.isDate v.hour_lt v.minute_lt v.second_lt h
  constructor
  · rintro ⟨⟨literal, hliteral, hfields⟩, -⟩
    by_contra hearly
    rw [hdate] at hliteral
    obtain rfl := BindValue.temporal.inj (Except.ok.inj hliteral)
    rw [hread 0 (by decide), if_neg hearly] at hfields
    cases hfields
  · intro hyear
    refine ⟨⟨_, hdate, ?_⟩, _, htimestamp, ?_⟩
    · rw [hread 0 (by decide), if_pos hyear]
      rfl
    · rw [hread _ hmicros, if_pos hyear]
      rfl

end CalendarTime

/-- **Which dates come back, and which bytes are accepted although they are no date.** -/
theorem calendar_iff (v : CalendarTime) (raw : List UInt8) :
    (v.RoundTrips ↔ 1 ≤ v.year) ∧ ((Accepts raw → DenotesDate raw) ↔ ¬ Misdated raw) :=
  ⟨v.roundTrips_iff, accepts_denotes_iff raw⟩

lemma midnight_hour : 0 < 24 := by omega

lemma midnight_minute : 0 < 60 := by omega

/-- The first day that the calendar has. -/
def firstDay : CalendarTime where
  year := -4712
  month := 1
  day := 1
  hour := 0
  minute := 0
  second := 0
  micros := 0
  year_mem := ⟨Int.le_refl _, by omega⟩
  isDate := by decide
  hour_lt := midnight_hour
  minute_lt := midnight_minute
  second_lt := midnight_minute
  micros_lt := by decide

/-- It does not come back, and the thirty-first of February is accepted. -/
theorem calendar_counterexample : ¬ firstDay.RoundTrips ∧ Accepts [120, 124, 2, 31, 1, 1, 1] ∧
    ¬ DenotesDate [120, 124, 2, 31, 1, 1, 1] := by
  refine ⟨?_, .inl ⟨_, rfl⟩, ?_⟩
  · rw [CalendarTime.roundTrips_iff]
    decide
  · rw [denotesDate_iff, Misdated, FieldsFit]
    decide

end DbSaci.Wire
