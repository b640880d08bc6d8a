import EcmaLex.Text.CharClass

/-! Bases, their digits, and the integers and exponents that digits write. -/
namespace EcmaLex
open Text

inductive Radix where
  | binary
  | octal
  | hex
  deriving DecidableEq, Repr

namespace Radix

def base : Radix → Nat
  | binary => 2
  | octal => 8
  | hex => 16

def hasDigit : Radix → Char → Bool
  | binary => isBinaryDigit
  | octal => isOctalDigit
  | hex => isHexDigit

/-- The letter after the zero. -/
def ofLetter? : Char → Option Radix
  | 'b' | 'B' => some binary
  | 'o' | 'O' => some octal
  | 'x' | 'X' => some hex
  | _ => none

end Radix

def isExponentLetter (c : Char) : Bool := c == 'e' || c == 'E'

/-- The number that digits write in a base. -/
def digitsValue (base : Nat) (digits : List Char) : Nat :=
  digits.foldl (fun n c => n * base + (hexValue? c).getD 0) 0

/-- The integer of digits after an optional sign. -/
def signed (magnitude : List Char → Nat) : List Char → Int
  | '-' :: digits => -(magnitude digits : Int)
  | '+' :: digits => magnitude digits
  | digits => magnitude digits

/-- The integer that digits after an optional sign write in base ten. -/
def signedValue : List Char → Int := signed (digitsValue 10)

/-- An exponent this large is far outside the range of numbers. -/
def exponentLimit : Nat := 65536

/-- The size of an exponent. Its digits are read until it reaches the limit; those after have no
weight. -/
def exponentMagnitude (digits : List Char) : Nat :=
  digits.foldl (fun n c => if n < exponentLimit then n * 10 + (hexValue? c).getD 0 else n) 0

def exponentValue : List Char → Int := signed exponentMagnitude

theorem le_foldl_digits (digits : List Char) (n : Nat) :
    n ≤ digits.foldl (fun n c => n * 10 + (hexValue? c).getD 0) n := by
  induction digits generalizing n with
  | nil => exact Nat.le_refl n
  | cons c rest ih =>
    have step := ih (n * 10 + (hexValue? c).getD 0)
    rw [List.foldl_cons]
    omega

theorem exponentMagnitude_eq_digitsValue {digits : List Char}
    (small : digitsValue 10 digits < exponentLimit * 10) :
    exponentMagnitude digits = digitsValue 10 digits := by
  have capped (digits : List Char) (n : Nat)
      (below : digits.foldl (fun n c => n * 10 + (hexValue? c).getD 0) n < exponentLimit * 10) :
      digits.foldl
        (fun n c => if n < exponentLimit then n * 10 + (hexValue? c).getD 0 else n) n =
      digits.foldl (fun n c => n * 10 + (hexValue? c).getD 0) n := by
    induction digits generalizing n with
    | nil => rfl
    | cons c rest ih =>
      have step := le_foldl_digits rest (n * 10 + (hexValue? c).getD 0)
      rw [List.foldl_cons] at below
      have reached : n < exponentLimit := by omega
      rw [List.foldl_cons, List.foldl_cons, if_pos reached]
      exact ih _ below
  exact capped digits 0 small

end EcmaLex
