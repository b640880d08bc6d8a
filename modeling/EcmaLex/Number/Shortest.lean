import EcmaLex.Number.Binary64

/-!
The shortest decimal that rounds to a binary64 number, and its two written forms. Of the decimals
with fewest digits the nearest is taken, and of two equally near ones the larger.
-/
namespace EcmaLex

/-- The number `digits * 10 ^ exponent`. -/
structure Decimal where
  digits : Nat
  exponent : Int
  deriving DecidableEq, Repr

namespace Decimal

/-- Divides trailing zeros out of the digits. -/
def trim (fuel : Nat) (d : Decimal) : Decimal :=
  match fuel with
  | 0 => d
  | fuel + 1 => if d.digits % 10 = 0 then trim fuel ⟨d.digits / 10, d.exponent + 1⟩ else d

/-- The digits after the first one, where the first stands before the point. -/
def leading (d : Decimal) : Int := Binary64.decimalLength d.digits - 1 + d.exponent

def zeros (n : Nat) : List Char := List.replicate n '0'

/-- Written without an exponent. -/
def positional (d : Decimal) : List Char :=
  let digits := Nat.toDigits 10 d.digits
  if 0 ≤ d.exponent then digits ++ zeros d.exponent.toNat
  else
    let places := (-d.exponent).toNat
    let padded := zeros (places + 1 - digits.length) ++ digits
    padded.take (padded.length - places) ++ '.' :: padded.drop (padded.length - places)

/-- Written as one digit, the others after a point, and a power of ten. -/
def scientific (d : Decimal) : List Char :=
  let power := 'e' :: (toString d.leading).toList
  match Nat.toDigits 10 d.digits with
  | first :: [] => first :: power
  | first :: rest => first :: '.' :: rest ++ power
  | [] => power

end Decimal

namespace Binary64

/-- The decimals of a grid near a number, all as counts of one common unit. -/
structure Grid where
  step : Nat
  value : Nat
  low : Nat
  high : Nat
  /-- The ends of the interval round to the number too. -/
  closed : Bool

/-- The interval of numbers that round to `significand * 2 ^ scale` units, on the grid of the
multiples of `10 ^ exponent`. Below the first significand of a scale the neighbours are closer. -/
def grid (significand scale : Nat) (exponent : Int) : Grid :=
  let finer := if exponent < 0 then Nat.pow 10 (-exponent).toNat else 1
  let quarters (n : Nat) := n * Nat.pow 2 scale * finer
  let below := if significand = Nat.pow 2 fractionBits ∧ 0 < scale then 1 else 2
  { step := 4 * unitsPerOne * Nat.pow 10 exponent.toNat
    value := quarters (4 * significand)
    low := quarters (4 * significand - below)
    high := quarters (4 * significand + 2)
    closed := significand % 2 = 0 }

def Grid.admits (g : Grid) (n : Nat) : Bool :=
  let x := n * g.step
  (g.low < x && x < g.high) || (g.closed && (x = g.low || x = g.high))

/-- The point of the grid that stands for the number, if one lies in the interval. -/
def Grid.nearest? (g : Grid) : Option Nat :=
  let floor := g.value / g.step
  match g.admits floor, g.admits (floor + 1) with
  | true, false => some floor
  | false, true => some (floor + 1)
  | true, true => some (if 2 * (g.value % g.step) < g.step then floor else floor + 1)
  | false, false => none

/-- The digits before the point, or less the zeros after it. -/
def magnitude (significand scale : Nat) : Int :=
  let units := significand * Nat.pow 2 scale
  if unitsPerOne ≤ units then decimalLength (units / unitsPerOne)
  else 1 - (decimalLength ((unitsPerOne - 1) / units) : Int)

/-- Seventeen digits always suffice. -/
def shortest (significand scale : Nat) : Decimal :=
  let attempt (count : Nat) : Option Decimal :=
    let exponent := magnitude significand scale - count
    ((grid significand scale exponent).nearest?).map fun digits => ⟨digits, exponent⟩
  (((List.range' 1 17).findSome? attempt).getD ⟨0, 0⟩).trim 17

/-- Written without an exponent, an integer without a point. -/
def plain : Binary64 → String
  | infinity => "inf"
  | finite 0 _ => "0"
  | finite significand scale => String.ofList (shortest significand scale).positional

/-- Written with a point or an exponent, never as an integer: below `10 ^ (-4)` and from `10 ^ 16`
on with an exponent. -/
def general : Binary64 → String
  | infinity => "inf"
  | finite 0 _ => "0.0"
  | finite significand scale =>
    let d := shortest significand scale
    if d.leading < -4 ∨ 16 ≤ d.leading then String.ofList d.scientific
    else if 0 ≤ d.exponent then String.ofList d.positional ++ ".0"
    else String.ofList d.positional

end Binary64
end EcmaLex
