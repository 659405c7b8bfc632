import DbSaci.Backend.MariaDbValues

set_option relaxedAutoImplicit false
set_option autoImplicit false

/-!
# Dates of MariaDB in both protocols

Without binds the driver delivers a date as text, and with binds by its fields. The text is parsed,
and encoded with its fraction where the client takes it; the fields are always encoded in seven
bytes.

## Main definitions

* `Moment` — the value of a column that is a date, with the text and the fields of both protocols.
* `LawfulChrono`, `calendarChrono` — the library for dates reads the texts of dates in the calendar.
* `DateCell.Agree` — both protocols give the same bytes.

## Main results

* `parseMariadbDatetime_text` — which texts are read.
* `Moment.encodeValue_binary`, `Moment.encodeTemporal_date`, `Moment.encodeTemporal_timestamp` — the
  bytes of the fields and of the text.
* `DateCell.agree_iff` — when the bytes are the same.
-/

namespace DbSaci.Backend

open Wire Decimal Text

/-! ### Values -/

/-- A date with its time, as far as MariaDB allows: the month and the day may be zero, and the day
may be too great for the month. -/
structure Moment where
  year : ℕ
  month : ℕ
  day : ℕ
  hour : ℕ
  minute : ℕ
  second : ℕ
  micros : ℕ
  year_lt : year < 10000
  month_le : month ≤ 12
  day_le : day ≤ 31
  hour_lt : hour < 24
  minute_lt : minute < 60
  second_lt : second < 60
  micros_lt : micros < 1000000

namespace Moment

variable (t : Moment)

/-- The date is in the calendar. -/
def IsCalendar : Prop := 1 ≤ t.month ∧ 1 ≤ t.day ∧ t.day ≤ daysInMonth t.year t.month

instance : Decidable t.IsCalendar := inferInstanceAs (Decidable (_ ∧ _))

/-- The text of the date. -/
def ymdText : List Char :=
  padded 4 t.year ++ ('-' :: (padded 2 t.month ++ ('-' :: padded 2 t.day)))

/-- The text of the time, with so many digits of the fraction. -/
def hmsText (n : ℕ) : List Char :=
  padded 2 t.hour ++ (':' :: (padded 2 t.minute ++ (':' :: (padded 2 t.second ++
    if n = 0 then [] else '.' :: (padded 6 t.micros).take n))))

/-- The text of the date and the time. -/
def dateTimeText (n : ℕ) : List Char := t.ymdText ++ (' ' :: t.hmsText n)

/-- The text the server sends for a column: a date has no time. -/
def text (col : Column) : List Char :=
  if col.kind = .date ∨ col.kind = .newdate then t.ymdText
  else t.dateTimeText col.decimals.toNat

/-- The fields the driver gives. -/
def binary {F : Floats} : Value F :=
  .date (UInt16.ofNat t.year) (UInt8.ofNat t.month) (UInt8.ofNat t.day) (UInt8.ofNat t.hour)
    (UInt8.ofNat t.minute) (UInt8.ofNat t.second) (UInt32.ofNat t.micros)

/-- The date and the time, with so many digits of the fraction. -/
def naive (n : ℕ) : NaiveDateTime where
  year := t.year
  month := t.month
  day := t.day
  hour := t.hour
  minute := t.minute
  second := t.second
  nanosecond := Nat.ofDigitChars 10 ((padded 6 t.micros).take n) 0 * 10 ^ (9 - n)

/-- The value fits the column: a date has no time, and the fraction has no more digits than the
column. -/
structure FitsColumn (col : Column) : Prop where
  decimals_le : col.decimals.toNat ≤ 6
  scaled : 10 ^ (6 - col.decimals.toNat) ∣ t.micros
  date : col.kind = .date ∨ col.kind = .newdate →
    t.hour = 0 ∧ t.minute = 0 ∧ t.second = 0 ∧ t.micros = 0

end Moment

/-- The library for dates reads the text of a date in the calendar, by the format that has what is
in the text, and no other. -/
structure LawfulChrono extends Chrono where
  fraction (t : Moment) (n : ℕ) (hn : n ≤ 6) :
    parseDateTime "%Y-%m-%d %H:%M:%S%.f".toList (t.dateTimeText n) =
      if t.IsCalendar then some (t.naive n) else none
  seconds (t : Moment) (n : ℕ) (ht : ¬ t.IsCalendar) :
    parseDateTime "%Y-%m-%d %H:%M:%S".toList (t.dateTimeText n) = none
  long (t : Moment) (n : ℕ) : parseDate "%Y-%m-%d".toList (t.dateTimeText n) = none
  short (t : Moment) : parseDateTime "%Y-%m-%d %H:%M:%S%.f".toList t.ymdText = none ∧
    parseDateTime "%Y-%m-%d %H:%M:%S".toList t.ymdText = none
  date (t : Moment) : parseDate "%Y-%m-%d".toList t.ymdText =
    if t.IsCalendar then some ((t.year : ℤ), t.month, t.day) else none

/-! ### A library that reads dates -/

section Reference

/-- The fraction of a second in nanoseconds, if there is one. -/
def readNanos : List Char → Option ℕ
  | [] => some 0
  | '.' :: ds =>
    if ds.all Char.isDigit = true then some (Nat.ofDigitChars 10 ds 0 * 10 ^ (9 - ds.length))
    else none
  | _ => none

/-- No fraction of a second. -/
def readEnd (s : List Char) : Option ℕ := if s = [] then some 0 else none

/-- A day of the calendar. -/
def readDay (s : List Char) : Option ((ℤ × ℕ × ℕ) × List Char) := do
  let ((year, month, day), s) ← takeDate s
  if 1 ≤ month ∧ month ≤ 12 ∧ 1 ≤ day ∧ day ≤ daysInMonth year month then
    some (((year : ℤ), month, day), s)
  else none

/-- A day of the calendar with a time. -/
def readDateTime (nanos : List Char → Option ℕ) (s : List Char) : Option NaiveDateTime := do
  let ((year, month, day), s) ← readDay s
  let s ← strip [' '] s
  let (hour, s) ← takeNumber 2 s
  let s ← strip [':'] s
  let (minute, s) ← takeNumber 2 s
  let s ← strip [':'] s
  let (second, s) ← takeNumber 2 s
  let nanosecond ← nanos s
  some ⟨year, month, day, hour, minute, second, nanosecond⟩

variable (t : Moment)

lemma readDay_ymdText (s : List Char) : readDay (t.ymdText ++ s) =
    if t.IsCalendar then some (((t.year : ℤ), t.month, t.day), s) else none := by
  have hmonth := t.month_le
  have hday := t.day_le
  have htake : takeDate (t.ymdText ++ s) = some ((t.year, t.month, t.day), s) := by
    simp only [Moment.ymdText, List.append_assoc, List.cons_append]
    exact takeDate_append t.year_lt (by omega) (by omega) s
  have hcalendar : (1 ≤ t.month ∧ t.month ≤ 12 ∧ 1 ≤ t.day ∧
      t.day ≤ daysInMonth t.year t.month) ↔ t.IsCalendar :=
    ⟨fun h => ⟨h.1, h.2.2⟩, fun h => ⟨h.1, hmonth, h.2⟩⟩
  rw [readDay, htake]
  exact if_congr hcalendar rfl rfl

lemma readDateTime_dateTimeText (nanos : List Char → Option ℕ) (n : ℕ) :
    readDateTime nanos (t.dateTimeText n) =
      if t.IsCalendar then
        (nanos (if n = 0 then [] else '.' :: (padded 6 t.micros).take n)).map
          fun nanosecond => { t.naive n with nanosecond }
      else none := by
  have hhour := t.hour_lt
  have hminute := t.minute_lt
  have hsecond := t.second_lt
  rw [readDateTime, Moment.dateTimeText, readDay_ymdText]
  by_cases hcal : t.IsCalendar
  · rw [if_pos hcal, if_pos hcal]
    simp only [Moment.hmsText, Option.bind_eq_bind, Option.bind_some, strip_cons,
      takeNumber_two (show t.hour < 100 by omega), takeNumber_two (show t.minute < 100 by omega),
      takeNumber_two (show t.second < 100 by omega)]
    cases nanos _ <;> rfl
  · rw [if_neg hcal, if_neg hcal]
    rfl

lemma readNanos_take {n : ℕ} (hn : n ≤ 6) :
    readNanos (if n = 0 then [] else '.' :: (padded 6 t.micros).take n) =
      some (t.naive n).nanosecond := by
  have hlen : ((padded 6 t.micros).take n).length = n := by
    rw [List.length_take, length_padded (by decide) t.micros_lt, Nat.min_eq_left hn]
  have hdigits : ((padded 6 t.micros).take n).all Char.isDigit = true :=
    List.all_eq_true.2 fun c hc => isDigit_padded (List.mem_of_mem_take hc)
  by_cases hzero : n = 0
  · rw [if_pos hzero, hzero, readNanos, Moment.naive, List.take_zero, Nat.ofDigitChars_nil,
      Nat.zero_mul]
  · rw [if_neg hzero, readNanos, if_pos hdigits, hlen]
    rfl

/-- A library that reads what has one of the formats. -/
def calendarChrono : LawfulChrono where
  parseDateTime format s :=
    readDateTime (if format = "%Y-%m-%d %H:%M:%S%.f".toList then readNanos else readEnd) s
  parseDate _ s := (readDay s).bind fun (date, s) => if s = [] then some date else none
  fraction t n hn := by
    rw [if_pos rfl, readDateTime_dateTimeText, readNanos_take t hn]
    rfl
  seconds t n ht := by
    rw [readDateTime_dateTimeText, if_neg ht]
  long t n := by
    rw [Moment.dateTimeText, readDay_ymdText]
    split_ifs <;> rfl
  short t := by
    have hday := readDay_ymdText t []
    rw [List.append_nil] at hday
    constructor <;>
    · rw [readDateTime, hday]
      split_ifs <;> rfl
  date t := by
    have hday := readDay_ymdText t []
    rw [List.append_nil] at hday
    rw [hday]
    split_ifs <;> rfl

end Reference

/-! ### The text is parsed -/

section Parse

variable (c : LawfulChrono) (t : Moment)

lemma padded_ne_nil (w n : ℕ) : padded w n ≠ [] :=
  List.append_ne_nil_of_right_ne_nil _ (Nat.toDigits_ne_nil)

lemma trim_ymdText : trim t.ymdText = t.ymdText := by
  have hparts : t.ymdText = padded 4 t.year ++ (('-' :: (padded 2 t.month ++ ['-'])) ++
      padded 2 t.day) := by
    simp [Moment.ymdText]
  rw [hparts]
  exact trim_between (padded_ne_nil _ _) (padded_ne_nil _ _) (fun _ => isDigit_padded)
    (fun _ => isDigit_padded) _

lemma trim_dateTimeText (n : ℕ) : trim (t.dateTimeText n) = t.dateTimeText n := by
  obtain ⟨s, hs⟩ : ∃ s, s = '-' :: (padded 2 t.month ++ ('-' :: (padded 2 t.day ++ (' ' ::
    (padded 2 t.hour ++ (':' :: (padded 2 t.minute ++ [':']))))))) := ⟨_, rfl⟩
  have hparts : t.dateTimeText n = padded 4 t.year ++ (s ++ (padded 2 t.second ++
      if n = 0 then [] else '.' :: (padded 6 t.micros).take n)) := by
    simp [Moment.dateTimeText, Moment.ymdText, Moment.hmsText, hs]
  rw [hparts]
  by_cases hn : n = 0
  · rw [if_pos hn, List.append_nil]
    exact trim_between (padded_ne_nil _ _) (padded_ne_nil _ _) (fun _ => isDigit_padded)
      (fun _ => isDigit_padded) _
  · have htake : (padded 6 t.micros).take n ≠ [] := by
      rw [Ne, List.take_eq_nil_iff, not_or]
      exact ⟨hn, padded_ne_nil _ _⟩
    have hsplit : s ++ (padded 2 t.second ++ '.' :: (padded 6 t.micros).take n) =
        (s ++ (padded 2 t.second ++ ['.'])) ++ (padded 6 t.micros).take n := by
      simp
    rw [if_neg hn, hsplit]
    exact trim_between (padded_ne_nil _ _) htake (fun _ => isDigit_padded)
      (fun _ hc => isDigit_padded (List.mem_of_mem_take hc)) _

/-- A date without a time of day. -/
lemma naive_of_midnight {n : ℕ} (h : t.hour = 0 ∧ t.minute = 0 ∧ t.second = 0 ∧ t.micros = 0) :
    t.naive n = ⟨t.year, t.month, t.day, 0, 0, 0, 0⟩ := by
  obtain ⟨hhour, hminute, hsecond, hmicros⟩ := h
  have hzeros : padded 6 0 = List.replicate 6 '0' := by decide
  rw [Moment.naive, hhour, hminute, hsecond, hmicros, hzeros, List.take_replicate,
    Nat.ofDigitChars_replicate_zero]
  simp

/-- **The text of a column is read exactly if the date is in the calendar.** -/
theorem parseMariadbDatetime_text {col : Column} (h : t.FitsColumn col) :
    parseMariadbDatetime c.toChrono (t.text col) =
      if t.IsCalendar then some (t.naive col.decimals.toNat) else none := by
  rw [Moment.text, parseMariadbDatetime]
  by_cases hdate : col.kind = .date ∨ col.kind = .newdate
  · simp only [if_pos hdate, trim_ymdText, (c.short t).1, (c.short t).2, c.date,
      Option.none_or]
    rw [naive_of_midnight t (h.date hdate)]
    split_ifs <;> rfl
  · simp only [if_neg hdate, trim_dateTimeText, c.fraction t _ h.decimals_le, c.long]
    by_cases hcal : t.IsCalendar
    · rw [if_pos hcal, Option.some_or]
    · rw [if_neg hcal, c.seconds t _ hcal]
      rfl

end Parse

/-! ### Both protocols -/

/-- The value of a column that is a date. -/
structure DateCell where
  col : Column
  value : Moment
  kind : col.kind ∈ [ColumnType.date, .newdate, .datetime, .datetime2, .timestamp, .timestamp2]
  fits : value.FitsColumn col

/-- The client takes the fraction of a column. -/
def TakesFraction (col : Column) (caps : DescribeCaps) : Prop :=
  0 < col.decimals ∧ caps.nativeTimestamps = true ∧ caps.datetimeAsDate = false

instance (col : Column) (caps : DescribeCaps) : Decidable (TakesFraction col caps) :=
  inferInstanceAs (Decidable (_ ∧ _))

namespace DateCell

variable (d : DateCell) (caps : DescribeCaps) (float : FloatWire)

/-- The bytes where the driver delivers the text of the value. -/
def textBytes (F : Floats) (c : Chrono) : Except Failure (List UInt8) :=
  encodeCell c d.col caps float (.bytes (utf8Encode (d.value.text d.col)) : Value F)

/-- The bytes where the driver delivers the fields of the value. -/
def binaryBytes (F : Floats) (c : Chrono) : Except Failure (List UInt8) :=
  encodeCell c d.col caps float (d.value.binary : Value F)

/-- Both protocols give the same bytes. -/
def Agree (F : Floats) (c : Chrono) : Prop :=
  ∃ bytes, d.textBytes caps float F c = .ok bytes ∧ d.binaryBytes caps float F c = .ok bytes

lemma isNumericColumn_kind : isNumericColumn d.col.kind = false := by
  have hkinds : ∀ kind ∈ [ColumnType.date, .newdate, .datetime, .datetime2, .timestamp,
      .timestamp2], isNumericColumn kind = false := by decide
  exact hkinds _ d.kind

/-- A date is described as one, with a fraction if the client takes it. -/
lemma temporalWire_cases :
    (TakesFraction d.col caps ∧ ∃ scale, temporalWire d.col caps = .timestamp scale) ∨
      (¬ TakesFraction d.col caps ∧ temporalWire d.col caps = .date) := by
  have hkinds : ∀ kind ∈ [ColumnType.date, .newdate, .datetime, .datetime2, .timestamp,
      .timestamp2], isTemporalColumn kind ≠ false ∧ ¬ (kind = .time ∨ kind = .time2) := by decide
  rw [temporalWire, if_neg (hkinds _ d.kind).1, if_neg (hkinds _ d.kind).2]
  by_cases hfraction : TakesFraction d.col caps
  · exact .inl ⟨hfraction, _, if_pos hfraction⟩
  · exact .inr ⟨hfraction, if_neg hfraction⟩

end DateCell

namespace Moment

variable (t : Moment)

/-- The bytes of the fields. -/
def dateBytes : List UInt8 :=
  [UInt8.ofNat (t.year / 100 + 100), UInt8.ofNat (t.year % 100 + 100), UInt8.ofNat t.month,
    UInt8.ofNat t.day, UInt8.ofNat (t.hour + 1), UInt8.ofNat (t.minute + 1),
    UInt8.ofNat (t.second + 1)]

lemma succSaturating_ofNat {n : ℕ} (h : n < 255) :
    succSaturating (UInt8.ofNat n) = UInt8.ofNat (n + 1) := by
  have hne : UInt8.ofNat n ≠ 255 := by
    intro heq
    have := congrArg UInt8.toNat heq
    rw [toNat_ofNat (by omega)] at this
    exact absurd this (by simp; omega)
  rw [succSaturating, if_neg hne, UInt8.ofNat_add]
  rfl

/-- The fields are encoded in seven bytes. -/
lemma encodeValue_binary {F : Floats} : encodeValue (t.binary : Value F) = .ok t.dateBytes := by
  have hyear := t.year_lt
  have hcentury : ((UInt16.ofNat t.year / 100 + 100).toUInt8) =
      UInt8.ofNat (t.year / 100 + 100) := by
    apply UInt8.toNat.inj
    simp
    omega
  have hrest : ((UInt16.ofNat t.year % 100 + 100).toUInt8) = UInt8.ofNat (t.year % 100 + 100) := by
    apply UInt8.toNat.inj
    simp
    omega
  rw [binary, encodeValue, hcentury, hrest, succSaturating_ofNat (by have := t.hour_lt; omega),
    succSaturating_ofNat (by have := t.minute_lt; omega),
    succSaturating_ofNat (by have := t.second_lt; omega)]
  rfl

/-- The text is encoded in the same seven bytes. -/
lemma encodeOracleDate_naive (n : ℕ) : encodeOracleDate (t.naive n) = t.dateBytes := by
  have hcentury : ((t.year : ℤ)).tdiv 100 + 100 = ((t.year / 100 + 100 : ℕ) : ℤ) := by
    rw [Int.tdiv_eq_ediv_of_nonneg (by omega)]
    rfl
  have hrest : ((t.year : ℤ)).tmod 100 + 100 = ((t.year % 100 + 100 : ℕ) : ℤ) := by
    rw [Int.tmod_eq_emod_of_nonneg (by omega)]
    rfl
  have hbyte (k : ℕ) : UInt8.ofInt (k : ℤ) = UInt8.ofNat k := by
    apply UInt8.toNat.inj
    rw [UInt8.ofInt, UInt8.toNat_ofNat', UInt8.toNat_ofNat']
    omega
  simp only [encodeOracleDate, naive, hcentury, hrest, hbyte, dateBytes]

/-- The text of a date in the calendar is encoded in the same seven bytes; all other texts stay what
they are. -/
lemma encodeTemporal_date {F : Floats} (c : LawfulChrono) {col : Column} (h : t.FitsColumn col) :
    encodeTemporal c.toChrono (.bytes (utf8Encode (t.text col)) : Value F) .date =
      .ok (if t.IsCalendar then t.dateBytes else utf8Encode (t.text col)) := by
  simp only [encodeTemporal, utf8Decode_encode, Option.bind_some, parseMariadbDatetime_text c t h]
  by_cases hcal : t.IsCalendar
  · rw [if_pos hcal, if_pos hcal, ← t.encodeOracleDate_naive col.decimals.toNat]
  · rw [if_neg hcal, if_neg hcal]
    rfl

/-- The text is encoded with its fraction where that is described. -/
lemma encodeTemporal_timestamp {F : Floats} (c : LawfulChrono) {col : Column}
    (h : t.FitsColumn col) (scale : Int8) :
    encodeTemporal c.toChrono (.bytes (utf8Encode (t.text col)) : Value F) (.timestamp scale) =
      .ok (if t.IsCalendar then encodeOracleTimestamp (t.naive col.decimals.toNat)
        else utf8Encode (t.text col)) := by
  simp only [encodeTemporal, utf8Decode_encode, Option.bind_some, parseMariadbDatetime_text c t h]
  by_cases hcal : t.IsCalendar
  · rw [if_pos hcal, if_pos hcal]
  · rw [if_neg hcal, if_neg hcal]
    rfl

lemma length_dateBytes : t.dateBytes.length = 7 := rfl

/-- The text has more than seven bytes. -/
lemma lt_length_text (col : Column) : 7 < (utf8Encode (t.text col)).length := by
  obtain ⟨s, hs⟩ : ∃ s, t.text col = t.ymdText ++ s := by
    rw [text]
    split_ifs
    · exact ⟨[], (List.append_nil _).symm⟩
    · exact ⟨_, rfl⟩
  have hbytes := length_le_length_utf8Encode (t.text col)
  have hyear := length_padded (w := 4) (by decide) t.year_lt
  have hmonth := length_padded (w := 2) (by decide) (t.month_le.trans_lt (by decide))
  rw [hs, ymdText] at hbytes
  rw [hs, ymdText]
  simp only [List.length_append, List.length_cons, hyear, hmonth] at hbytes
  omega

end Moment

namespace DateCell

variable (d : DateCell) (caps : DescribeCaps) (float : FloatWire)

/-- A column whose comment tags it as a floating-point number has no dates. -/
lemma binaryBytes_float (F : Floats) (c : Chrono) (hfloat : float ≠ .number) :
    ∃ e, d.binaryBytes caps float F c = .error e := by
  cases float with
  | number => exact absurd rfl hfloat
  | binaryFloat => exact ⟨_, rfl⟩
  | binaryDouble => exact ⟨_, rfl⟩

/-- The bytes of the fields. -/
lemma binaryBytes_number (F : Floats) (c : Chrono) :
    d.binaryBytes caps .number F c = .ok d.value.dateBytes := by
  rw [binaryBytes, encodeCell, d.isNumericColumn_kind]
  exact d.value.encodeValue_binary (F := F)

/-- The bytes of the text. -/
lemma textBytes_number (F : Floats) (c : LawfulChrono) :
    d.textBytes caps .number F c.toChrono = .ok (if d.value.IsCalendar then
      if TakesFraction d.col caps then encodeOracleTimestamp (d.value.naive d.col.decimals.toNat)
      else d.value.dateBytes
      else utf8Encode (d.value.text d.col)) := by
  have htext : d.textBytes caps .number F c.toChrono = encodeTemporal c.toChrono
      (.bytes (utf8Encode (d.value.text d.col)) : Value F) (temporalWire d.col caps) := by
    rw [textBytes, encodeCell, d.isNumericColumn_kind]
    rfl
  rw [htext]
  obtain ⟨hfraction, scale, hwire⟩ | ⟨hfraction, hwire⟩ := d.temporalWire_cases caps
  · rw [hwire, d.value.encodeTemporal_timestamp c d.fits, if_pos hfraction]
  · rw [hwire, d.value.encodeTemporal_date c d.fits, if_neg hfraction]

/-- **Both protocols give the same bytes exactly for a date in the calendar of which the client
does not take the fraction.** -/
theorem agree_iff (F : Floats) (c : LawfulChrono) :
    d.Agree caps float F c.toChrono ↔
      float = .number ∧ ¬ TakesFraction d.col caps ∧ d.value.IsCalendar := by
  by_cases hfloat : float = .number
  swap
  · obtain ⟨e, he⟩ := d.binaryBytes_float caps float F c.toChrono hfloat
    refine iff_of_false (fun ⟨bytes, _, hbinary⟩ => ?_) (fun h => hfloat h.1)
    rw [he] at hbinary
    cases hbinary
  subst hfloat
  have hagree : d.Agree caps .number F c.toChrono ↔ (if d.value.IsCalendar then
      if TakesFraction d.col caps then encodeOracleTimestamp (d.value.naive d.col.decimals.toNat)
      else d.value.dateBytes
      else utf8Encode (d.value.text d.col)) = d.value.dateBytes := by
    rw [Agree, d.binaryBytes_number, d.textBytes_number]
    simp only [Except.ok.injEq, exists_eq_left']
    exact eq_comm
  rw [hagree]
  by_cases hcal : d.value.IsCalendar
  · rw [if_pos hcal]
    by_cases hfraction : TakesFraction d.col caps
    · -- the fraction takes four bytes more
      refine iff_of_false (fun heq => ?_) (fun h => h.2.1 hfraction)
      have hlen := congrArg List.length heq
      simp [hfraction, encodeOracleTimestamp, Moment.encodeOracleDate_naive,
        Moment.length_dateBytes] at hlen
    · exact iff_of_true (if_neg hfraction) ⟨rfl, hfraction, hcal⟩
  · -- a text that is not read goes to the client as it is
    rw [if_neg hcal]
    refine iff_of_false (fun heq => ?_) (fun h => hcal h.2.2)
    have hlong := d.value.lt_length_text d.col
    rw [heq, Moment.length_dateBytes] at hlong
    exact absurd hlong (Nat.lt_irrefl 7)

/-- The value `2024-02-29 13:14:15.123456` of a column `DATETIME(6)`. -/
def fractional : DateCell where
  col := ⟨"T".toList, .datetime, 63, 6, 26⟩
  value := ⟨2024, 2, 29, 13, 14, 15, 123456, by decide, by decide, by decide, by decide, by decide,
    by decide, by decide⟩
  kind := by decide
  fits := ⟨by decide, one_dvd _, nofun⟩

/-- With a bind, the fraction is lost. -/
theorem fractional_not_agree : ¬ fractional.Agree ⟨false, true, false, false⟩ .number zeroFloats
    calendarChrono.toChrono := by
  rw [Agree, binaryBytes_number, textBytes_number, if_pos (by decide), if_pos (by decide)]
  rintro ⟨bytes, htext, hbinary⟩
  have hlen := congrArg List.length (Except.ok.inj (htext.trans hbinary.symm))
  exact absurd hlen (by decide)

end DateCell

end DbSaci.Backend
