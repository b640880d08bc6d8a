/-!
The non-negative binary64 numbers, and correct rounding to them: a ratio goes to the nearest one, a
tie to the one with an even significand, and what is too large to infinity.
-/
namespace EcmaLex

/-- `finite significand scale` is `significand * 2 ^ scale` units of `2 ^ (-1074)`, the least positive
number. -/
inductive Binary64 where
  | finite (significand scale : Nat)
  | infinity
  deriving DecidableEq, Repr

namespace Binary64

def zero : Binary64 := finite 0 0

/-- The units in one. -/
def unitsPerOne : Nat := Nat.pow 2 1074

/-- The significand of a number that is not subnormal has this many bits after its first. -/
def fractionBits : Nat := 52

def maxScale : Nat := 2045

/-- `n / d` to the nearest integer, a tie to the even one. -/
def divRound (n d : Nat) : Nat :=
  let q := n / d
  let twice := 2 * (n % d)
  if twice < d then q
  else if d < twice then q + 1
  else q + q % 2

/-- Rounding up may need one more bit. -/
def normalize (significand scale : Nat) : Binary64 :=
  let carried := significand = Nat.pow 2 (fractionBits + 1)
  let scale := if carried then scale + 1 else scale
  if maxScale < scale then infinity
  else finite (if carried then Nat.pow 2 fractionBits else significand) scale

def ofRatio (n d : Nat) : Binary64 :=
  let units := n * unitsPerOne
  let scale := (units / d).log2 - fractionBits
  normalize (divRound units (d * Nat.pow 2 scale)) scale

def ofNat (n : Nat) : Binary64 := ofRatio n 1

/-- The digits of a number in base ten, without leading zeros; zero has none. -/
def decimalLength (n : Nat) : Nat := if n = 0 then 0 else (Nat.toDigits 10 n).length

/-- The number nearest to `n * 10 ^ exponent`. A number of `k` digits before the point is less than
`10 ^ k`, so far out of range the answer is known without the power. -/
def ofDecimal (n : Nat) (exponent : Int) : Binary64 :=
  let length := decimalLength n + exponent
  if n = 0 ∨ length < -323 then zero
  else if 309 < length then infinity
  else if 0 ≤ exponent then ofNat (n * Nat.pow 10 exponent.toNat)
  else ofRatio n (Nat.pow 10 (-exponent).toNat)

/-- The interchange encoding. The first bit of a significand that is not subnormal adds one to the
scale, which makes up for the offset between scale and exponent field. -/
def bits : Binary64 → Nat
  | finite significand scale => scale * Nat.pow 2 fractionBits + significand
  | infinity => 2047 * Nat.pow 2 fractionBits

end Binary64
end EcmaLex
