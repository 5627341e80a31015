import Scaffold.Decimal.Shortest

/-! # Numbers of a document

A number written without fraction and exponent is a whole number if it fits the
signed or the unsigned words of 64 bits, and is kept exactly. Every other number
is a double.

A double is not read with a single rounding. The leading digits that fit an
unsigned word make the significand, the digits that no longer fit are dropped,
and the significand is multiplied or divided by a power of ten in steps that each
round. A number that leaves the range of doubles is no number at all.
-/

namespace Scaffold.Json

/-- A number of a document. -/
inductive Number
  /-- At least `-2^63` and below `2^64`. -/
  | whole (value : Int)
  /-- Finite. -/
  | real (value : Float)
deriving DecidableEq

/-- The parts of a number as it is written. -/
structure Numeral where
  negative : Bool
  /-- Digits before the point. -/
  whole : List Char
  /-- Digits after the point, empty if there is no point. -/
  fraction : List Char
  /-- The written power of ten, if there is one. -/
  exponent : Option Int
deriving DecidableEq

/-- The value of a digit. -/
def digitValue (c : Char) : Nat :=
  c.toNat - '0'.toNat

/-- The number that a run of digits stands for. -/
def digitsValue (ds : List Char) : Nat :=
  ds.foldl (fun n d => 10 * n + digitValue d) 0

/-- Reads a point and at least one digit, or nothing. -/
def readFraction : List Char → Option (List Char × List Char)
  | '.' :: rest =>
    let digits := rest.takeWhile Char.isDigit
    if digits.isEmpty then none else some (digits, rest.dropWhile Char.isDigit)
  | rest => some ([], rest)

/-- Reads the digits of an exponent up to the end. -/
def readPower (digits : List Char) : Option Nat :=
  if digits.isEmpty || !digits.all Char.isDigit then none else some (digitsValue digits)

/-- Reads an exponent up to the end, or the end itself. -/
def readExponent : List Char → Option (Option Int)
  | [] => some none
  | mark :: rest =>
    if mark = 'e' || mark = 'E' then
      match rest with
      | '-' :: digits => (readPower digits).map (fun n => some (-(n : Int)))
      | '+' :: digits => (readPower digits).map (fun n => some (n : Int))
      | digits => (readPower digits).map (fun n => some (n : Int))
    else none

/-- Reads the digits before the point: at least one, and no zero in front of another. -/
def readWhole (cs : List Char) : Option (List Char × List Char) :=
  match cs.takeWhile Char.isDigit, cs.dropWhile Char.isDigit with
  | [], _ => none
  | '0' :: _ :: _, _ => none
  | digits, rest => some (digits, rest)

/-- Reads a number without a sign. -/
def Numeral.readUnsigned? (negative : Bool) (cs : List Char) : Option Numeral := do
  let (whole, rest) ← readWhole cs
  let (fraction, rest) ← readFraction rest
  let exponent ← readExponent rest
  return ⟨negative, whole, fraction, exponent⟩

/-- Reads a run of characters that has to be one number from end to end. -/
def Numeral.read? : List Char → Option Numeral
  | '-' :: rest => readUnsigned? true rest
  | cs => readUnsigned? false cs

/-- Appends digits to a significand while it fits an unsigned word, and returns
the digits that no longer do. -/
def absorb (significand : Nat) : List Char → Nat × List Char
  | [] => (significand, [])
  | d :: rest =>
    let next := 10 * significand + digitValue d
    if next < Nat.pow 2 64 then absorb next rest else (significand, d :: rest)

/-- A power of ten as the nearest double. -/
def powerOfTen (n : Nat) : Float :=
  Float.ofScientific 1 false n

/-- Multiplies or divides a double by a power of ten, at most `10 ^ 308` at a time. -/
def scale (x : Float) (e : Int) : Option Float :=
  if e.natAbs ≤ 308 then
    if 0 ≤ e then
      let y := x * powerOfTen e.natAbs
      if y.isInf then none else some y
    else some (x / powerOfTen e.natAbs)
  else if x == 0 then some x
  else if 0 ≤ e then none
  else scale (x / powerOfTen 308) (e + 308)
termination_by (-e).toNat

/-- The number that a numeral stands for, unless it is too large for a double. -/
def Numeral.value? (n : Numeral) : Option Number :=
  let (high, dropped) := absorb 0 n.whole
  let signed (x : Float) : Number := .real (if n.negative then -x else x)
  if n.fraction.isEmpty && n.exponent.isNone && dropped.isEmpty then
    if !n.negative then some (.whole high)
    else if 0 < high ∧ high ≤ Nat.pow 2 63 then some (.whole (-(high : Int)))
    else some (signed high.toFloat)
  else
    let (significand, unread) := absorb high n.fraction
    let places := n.fraction.length - unread.length
    let exponent := (dropped.length : Int) - places + n.exponent.getD 0
    (scale significand.toFloat exponent).map signed

/-- Reads a number from end to end. -/
def Number.read? (cs : List Char) : Option Number :=
  (Numeral.read? cs).bind Numeral.value?

/-- The text of a positive decimal. Positions are shown while the first digit
stands between the fifth place after the point and the sixteenth before it;
outside, an exponent with its sign follows one leading digit. A whole value keeps one
zero after the point, unless it has an exponent. -/
def decimalText (x : Decimal.Scientific) : String :=
  let digits := Nat.toDigits 10 x.digits
  let point := (digits.length : Int) + x.exponent
  let zeros (n : Int) := List.replicate n.toNat '0'
  if 0 ≤ x.exponent ∧ point ≤ 16 then
    String.ofList (digits ++ zeros x.exponent) ++ ".0"
  else if 0 < point ∧ point ≤ 16 then
    String.ofList (digits.take point.toNat ++ '.' :: digits.drop point.toNat)
  else if -5 < point ∧ point ≤ 0 then
    "0." ++ String.ofList (zeros (-point) ++ digits)
  else
    let tail := if digits.length = 1 then [] else '.' :: digits.drop 1
    let sign := if 0 < point then "+" else "-"
    String.ofList (digits.take 1 ++ tail) ++ "e" ++ sign ++ toString (point - 1).natAbs

/-- The text of a double. -/
def realText (x : Float) : String :=
  let bits := x.toBits.toNat
  let sign := if Nat.pow 2 63 ≤ bits then "-" else ""
  let positive := Decimal.Positive.ofBits bits
  sign ++ if positive.significand = 0 then "0.0" else decimalText positive.shortest

/-- The text of a number. -/
def Number.text : Number → String
  | .whole n => toString n
  | .real x => realText x

end Scaffold.Json
