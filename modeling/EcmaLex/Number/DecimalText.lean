import EcmaLex.Number.Radix

/-!
The common form of decimals: digits with a point somewhere or without one, and maybe an exponent. Zeros may
lead. Each text is related to the integer of its digits and the power of ten that goes with it.
-/
namespace EcmaLex
open Text

def Digits (digits : List Char) : Prop := ∀ c ∈ digits, isDecimalDigit c = true

/-- Digits with some of them behind a point. -/
inductive DecimalDigits : List Char → Nat → Nat → Prop
  | integer {whole} : Digits whole → whole ≠ [] → DecimalDigits whole (digitsValue 10 whole) 0
  | point {whole places} : Digits whole → Digits places → whole ≠ [] ∨ places ≠ [] →
      DecimalDigits (whole ++ '.' :: places) (digitsValue 10 (whole ++ places)) places.length

/-- The power of ten that a decimal ends with, if any. -/
inductive Exponent : List Char → Int → Prop
  | none : Exponent [] 0
  | unsigned {letter digits} : letter = 'e' ∨ letter = 'E' → Digits digits → digits ≠ [] →
      Exponent (letter :: digits) (digitsValue 10 digits)
  | plus {letter digits} : letter = 'e' ∨ letter = 'E' → Digits digits → digits ≠ [] →
      Exponent (letter :: '+' :: digits) (digitsValue 10 digits)
  | minus {letter digits} : letter = 'e' ∨ letter = 'E' → Digits digits → digits ≠ [] →
      Exponent (letter :: '-' :: digits) (-digitsValue 10 digits)

/-- `DecimalText text n e`: the text writes `n * 10 ^ e`. -/
inductive DecimalText : List Char → Nat → Int → Prop
  | written {front power n places e} : DecimalDigits front n places → Exponent power e →
      DecimalText (front ++ power) n (e - places)

end EcmaLex
