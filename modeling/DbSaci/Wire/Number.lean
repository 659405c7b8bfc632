import DbSaci.Library.Decimal
import DbSaci.Library.Text

set_option relaxedAutoImplicit false
set_option autoImplicit false

/-!
# `NUMBER` on the wire

A number is sent as an exponent and digits to the base 100, the complement of both for a negative
one.

## Main definitions

* `encodeOracleNumberDecimal`, `decodeOracleNumber` — the two directions.
* `Failure` — an error that is answered, or an overflow.
-/

namespace DbSaci.Wire

open Text Decimal

/-- How a conversion can fail: with an error, or by an overflow. -/
inductive Failure
  | conversion (message : String)
  | overflow
  deriving DecidableEq, Repr

/-- A number of 32 bits. -/
def InI32 (n : ℤ) : Prop := -2147483648 ≤ n ∧ n < 2147483648

/-- `decide` can tell. -/
instance (n : ℤ) : Decidable (InI32 n) := inferInstanceAs (Decidable (_ ∧ _))

/-- A result in 32 bits. -/
def checkedI32 (n : ℤ) : Except Failure ℤ := if InI32 n then .ok n else .error .overflow

/-- `as i32`. -/
def asI32 (n : ℕ) : ℤ := (n : ℤ).bmod 4294967296

/-! ### To the wire -/

/-- The digits in front of the point: leading zeros are left out. -/
def readInteger : List Char → List ℕ → List ℕ × List Char
  | [], digits => (digits, [])
  | c :: s, digits =>
    if c.isDigit then
      readInteger s
        (if digitVal c ≠ 0 ∨ digits ≠ [] then digits ++ [digitVal c] else digits)
    else (digits, c :: s)

/-- The digits behind the point: leading zeros move the point. -/
def readFraction : List Char → List ℕ → ℤ → Except Failure ((List ℕ × ℤ) × List Char)
  | [], digits, decimalPoint => .ok ((digits, decimalPoint), [])
  | c :: s, digits, decimalPoint =>
    if c.isDigit then
      if digitVal c = 0 ∧ digits = [] then do
        readFraction s digits (← checkedI32 (decimalPoint - 1))
      else readFraction s (digits ++ [digitVal c]) decimalPoint
    else .ok ((digits, decimalPoint), c :: s)

/-- The digits with those behind the point, and where the point is. -/
def readPoint (s : List Char) (digits : List ℕ) : Except Failure ((List ℕ × ℤ) × List Char) :=
  match s with
  | '.' :: s => readFraction s digits (asI32 digits.length)
  | s => .ok ((digits, asI32 digits.length), s)

/-- `parse::<i32>` of digits. -/
def parseI32 (s : List Char) : Option ℤ :=
  if s = [] ∨ 2147483647 < Nat.ofDigitChars 10 s 0 then none
  else some (Nat.ofDigitChars 10 s 0 : ℕ)

/-- The sign in front of a number, and what stands behind it. -/
def readSign (s : List Char) : Bool × List Char :=
  match s with
  | '-' :: s => (true, s)
  | '+' :: s => (false, s)
  | s => (false, s)

/-- The exponent moves the point. -/
def readExponent (s : List Char) (decimalPoint : ℤ) : Except Failure (ℤ × List Char) :=
  match s with
  | c :: s =>
    if c = 'e' ∨ c = 'E' then
      let (exponentNegative, s) := readSign s
      match parseI32 (s.takeWhile Char.isDigit) with
      | none => .error (.conversion "invalid NUMBER exponent")
      | some exponent => do
        let decimalPoint ←
          checkedI32 (decimalPoint + if exponentNegative then -exponent else exponent)
        return (decimalPoint, s.dropWhile Char.isDigit)
    else .ok (decimalPoint, c :: s)
  | [] => .ok (decimalPoint, [])

/-- So many pairs of digits. -/
def digitPairs : ℕ → List ℕ → List ℕ
  | k + 1, a :: b :: digits => (a * 10 + b) :: digitPairs k digits
  | _, _ => []

/-- The digits to the base 100; the first one has one digit only if a zero was put behind for it. -/
def basePairs (prependZero : Bool) (digits : List ℕ) : List ℕ :=
  let n := digits.length / 2
  match prependZero, digits with
  | true, d :: digits => d :: digitPairs (n - 1) digits
  | _, digits => digitPairs n digits

/-- The bytes of a number that fits. -/
def encodeDigits (negative : Bool) (digits : List ℕ) (decimalPoint : ℤ) : List UInt8 :=
  let prependZero : Bool := decimalPoint.tmod 2 ≠ 0
  let (digits, decimalPoint) :=
    if prependZero then (digits ++ [0], decimalPoint + 1) else (digits, decimalPoint)
  let digits := if digits.length % 2 ≠ 0 then digits ++ [0] else digits
  let exponent := UInt8.ofInt (decimalPoint.tdiv 2 + 192)
  let encoded := (if negative then ~~~exponent else exponent) ::
    (basePairs prependZero digits).map fun pair =>
      UInt8.ofNat (if negative then 101 - pair else pair + 1)
  if negative && encoded.length < 21 then encoded ++ [102] else encoded

/-- `encode_oracle_number_decimal`. -/
def encodeOracleNumberDecimal (value : List Char) : Except Failure (List UInt8) :=
  let value := trim value
  if value = [] then .error (.conversion "empty NUMBER value")
  else do
    let (negative, s) := readSign value
    let (digits, s) := readInteger s []
    let ((digits, decimalPoint), s) ← readPoint s digits
    let (decimalPoint, s) ← readExponent s decimalPoint
    if s ≠ [] then throw (.conversion "invalid NUMBER value")
    let digits := digits.rdropWhile (· = 0)
    if digits = [] then return [0x80]
    if 40 < digits.length ∨ ¬ (-129 ≤ decimalPoint ∧ decimalPoint ≤ 126) then
      throw (.conversion "NUMBER out of Oracle range")
    return encodeDigits negative digits decimalPoint

/-! ### From the wire -/

/-- The digits of a mantissa: a leading zero moves the point, and a trailing one is left out. -/
def mantissaDigits (positive : Bool) : List UInt8 → List ℕ → ℤ → Except String (List ℕ × ℤ)
  | [], digits, decimalPoint => .ok (digits, decimalPoint)
  | byte :: rest, digits, decimalPoint =>
    let pair := (if positive then byte - 1 else 101 - byte).toNat
    if 99 < pair then .error "invalid Oracle NUMBER bind"
    else
      let high := pair / 10
      let (digits, decimalPoint) :=
        if high = 0 ∧ digits = [] then (digits, decimalPoint - 1)
        else (digits ++ [high], decimalPoint)
      let low := pair % 10
      mantissaDigits positive rest (if low ≠ 0 ∨ rest ≠ [] then digits ++ [low] else digits)
        decimalPoint

/-- The text of digits with a point. -/
def renderNumber (positive : Bool) (digits : List ℕ) (decimalPoint : ℤ) : List Char :=
  let digitString := digits.map Nat.digitChar
  let rendered :=
    if decimalPoint ≤ 0 then
      '0' :: '.' :: (List.replicate decimalPoint.natAbs '0' ++ digitString)
    else if digitString.length ≤ decimalPoint.toNat then
      digitString ++ List.replicate (decimalPoint.toNat - digitString.length) '0'
    else digitString.take decimalPoint.toNat ++ ('.' :: digitString.drop decimalPoint.toNat)
  if positive then rendered else '-' :: rendered

/-- `decode_oracle_number`: the text of the number, or that of a conversion error. -/
def decodeOracleNumber (raw : List UInt8) : Except String (List Char) :=
  if raw = [0x80] then .ok ['0']
  else
    match raw with
    | [] => .error "empty Oracle NUMBER bind"
    | exponent :: mantissa =>
      let positive : Bool := exponent &&& 0x80 ≠ 0
      let decimalPoint : ℤ :=
        if positive then ((exponent.toNat : ℤ) - 193) * 2 + 2
        else (((~~~exponent).toNat : ℤ) - 193) * 2 + 2
      let mantissa :=
        if positive = false ∧ mantissa.getLast? = some 102 then mantissa.dropLast else mantissa
      match mantissaDigits positive mantissa [] decimalPoint with
      | .error e => .error e
      | .ok (digits, decimalPoint) =>
        if digits = [] then .error "invalid Oracle NUMBER bind"
        else .ok (renderNumber positive digits decimalPoint)

end DbSaci.Wire
