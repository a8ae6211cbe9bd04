/-!
The shortest decimal that reads back as a given binary64 number, found on exact integers: the
candidates with one digit are tried first, then those with two, and so on.
-/

namespace Conform.Decimal

/-- A positive number `significand * 2 ^ exponent`, and the number below it is half as far away as
the one above when `narrow`. -/
structure Binary where
  significand : Nat
  exponent : Int
  narrow : Bool
deriving DecidableEq, Repr

/-- The magnitude of a finite binary64 number. -/
def Binary.ofBits (bits : UInt64) : Binary :=
  let fraction := bits.toNat % Nat.pow 2 52
  let exponent : Nat := bits.toNat / Nat.pow 2 52 % Nat.pow 2 11
  if exponent = 0 then ⟨fraction, -1074, false⟩
  else ⟨Nat.pow 2 52 + fraction, (exponent : Int) - 1075, fraction = 0 && exponent > 1⟩

/-- A number `digits * 10 ^ exponent`. -/
structure Scientific where
  digits : Nat
  exponent : Int
deriving DecidableEq, Repr

/-- A quotient of natural numbers as `numerator` and `denominator`, for `factor * base ^ exponent`. -/
def ratio (factor base : Nat) (exponent : Int) : Nat × Nat :=
  if exponent < 0 then (factor, Nat.pow base exponent.natAbs)
  else (factor * Nat.pow base exponent.natAbs, 1)

/-- Whether `candidate` lies among the real numbers that round to `number`. All are counted in
quarters of the unit of `number`. -/
def Binary.holds (number : Binary) (candidate : Scientific) : Bool :=
  let (top, bottom) := ratio candidate.digits 10 candidate.exponent
  let (quarter, part) := ratio 1 2 (number.exponent - 2)
  let value := top * part
  let unit := quarter * bottom
  let low := (4 * number.significand - (if number.narrow then 1 else 2)) * unit
  let high := (4 * number.significand + 2) * unit
  if number.significand % 2 = 0 then low ≤ value && value ≤ high else low < value && value < high

/-- The number divided by `10 ^ exponent`, rounded down, and whether the next integer is nearer. -/
def Binary.scaled (number : Binary) (exponent : Int) : Nat × Bool :=
  let (top, bottom) := ratio number.significand 2 number.exponent
  let (grid, part) := ratio 1 10 exponent
  let numerator := top * part
  let denominator := bottom * grid
  let floor := numerator / denominator
  let twice := 2 * (numerator % denominator)
  (floor, twice > denominator || (twice = denominator && floor % 2 = 1))

/-- The number of decimal digits before the point; it is zero or less for numbers below one. -/
def Binary.magnitude (number : Binary) : Int :=
  let (top, bottom) := ratio number.significand 2 number.exponent
  if top ≥ bottom then (toString (top / bottom)).length
  else 1 - ((toString ((bottom - 1) / top)).length : Int)

/-- The better of the two neighbours of the number on the grid of `count` digits, if one reads
back. -/
def Binary.onGrid? (number : Binary) (count : Nat) : Option Scientific :=
  let exponent := number.magnitude - count
  let (floor, up) := number.scaled exponent
  let lower : Scientific := ⟨floor, exponent⟩
  let upper : Scientific := ⟨floor + 1, exponent⟩
  if up then
    if number.holds upper then some upper else if number.holds lower then some lower else none
  else
    if number.holds lower then some lower else if number.holds upper then some upper else none

/-- Without zeros at the end of the digits. -/
def Scientific.stripped (number : Scientific) : Nat → Scientific
  | 0 => number
  | count + 1 =>
    if number.digits % 10 = 0 && number.digits != 0 then
      Scientific.stripped ⟨number.digits / 10, number.exponent + 1⟩ count
    else number

/-- The shortest decimal that reads back. Seventeen digits always do. -/
def Binary.shortest (number : Binary) : Scientific :=
  let found := (List.range 17).findSome? fun before => number.onGrid? (before + 1)
  (found.getD ⟨0, 0⟩).stripped 20

/-- Positional notation serves numbers from a ten-thousandth up to sixteen digits before the point;
a point is always there. Beyond, one digit stands before the point, if there are more, and the
exponent has no plus sign. -/
def Scientific.text (number : Scientific) : String :=
  let digits := toString number.digits
  let length := digits.length
  let point := (length : Int) + number.exponent
  let zeros := fun count => String.ofList (List.replicate count '0')
  if 0 ≤ number.exponent ∧ point ≤ 16 then digits ++ zeros number.exponent.toNat ++ ".0"
  else if 0 < point ∧ point ≤ 16 then
    String.ofList (digits.toList.take point.toNat) ++ "." ++
      String.ofList (digits.toList.drop point.toNat)
  else if -5 < point ∧ point ≤ 0 then "0." ++ zeros (-point).toNat ++ digits
  else
    let fraction := String.ofList (digits.toList.drop 1)
    String.ofList (digits.toList.take 1) ++ (if length = 1 then "" else "." ++ fraction) ++ "e" ++
      toString (point - 1)

/-- A finite binary64 number as text; a zero keeps its sign. -/
def binary64Text (bits : UInt64) : String :=
  let sign := if bits.toNat ≥ Nat.pow 2 63 then "-" else ""
  let number := Binary.ofBits bits
  sign ++ (if number.significand = 0 then "0.0" else number.shortest.text)

end Conform.Decimal
