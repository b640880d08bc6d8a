import EcmaLex.Text.RangeTable
import EcmaLex.Text.Utf8

/-!
Text collected from UTF-16 code units and whole characters. A high surrogate waits for the unit after
it; a surrogate that finds no partner becomes a replacement character.
-/
namespace EcmaLex.Text

structure Utf16Text where
  /-- Newest first. -/
  chars : List Char := []
  /-- A high surrogate whose partner may still come. -/
  high : Option Nat := none
  deriving DecidableEq, Repr

namespace Utf16Text

def isHighSurrogate (unit : Nat) : Bool := 0xD800 ≤ unit && unit ≤ 0xDBFF

def isLowSurrogate (unit : Nat) : Bool := 0xDC00 ≤ unit && unit ≤ 0xDFFF

/-- The character of a surrogate pair. -/
def pair (high low : Nat) : Char :=
  Char.ofNat (0x10000 + (high - 0xD800) * 0x400 + (low - 0xDC00))

/-- Nothing that follows can be the partner of a waiting surrogate. -/
def settle (t : Utf16Text) : Utf16Text :=
  match t.high with
  | some _ => { chars := Utf8.replacement :: t.chars }
  | none => t

def pushChar (t : Utf16Text) (c : Char) : Utf16Text :=
  { chars := c :: t.settle.chars }

/-- Adds a code unit, or a code point past the units. -/
def pushUnit (t : Utf16Text) (unit : Nat) : Utf16Text :=
  if isHighSurrogate unit then { chars := t.settle.chars, high := some unit }
  else if isLowSurrogate unit then
    match t.high with
    | some high => { chars := pair high unit :: t.chars }
    | none => { chars := Utf8.replacement :: t.chars }
  else t.pushChar ((scalar? unit).getD Utf8.replacement)

def toList (t : Utf16Text) : List Char := t.chars.reverse

end Utf16Text
end EcmaLex.Text
