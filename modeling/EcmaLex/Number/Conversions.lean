import EcmaLex.Library
import EcmaLex.Number.LeadingBits

/-!
The conversions of texts to numbers that run. A decimal is rounded from all its digits, an integer in
another base from its leading bits.
-/
namespace EcmaLex

/-- The number nearest to a decimal with optional fraction and exponent, the exponent being read in some
way. -/
def decimalValue (exponent : List Char → Int) (text : List Char) : Binary64 :=
  let mantissa := text.takeWhile fun c => !isExponentLetter c
  let whole := mantissa.takeWhile fun c => c != '.'
  let fraction := mantissa.drop (whole.length + 1)
  .ofDecimal (digitsValue 10 (whole ++ fraction))
    (exponent (text.drop (mantissa.length + 1)) - fraction.length)

def conversions : NumberConversions where
  parseFloat text := some (decimalValue exponentValue text)
  parseInteger base digits := some (digitsValue base digits)
  toFloat n := some (.ofLeadingBits n)
  parseFloat_isSome _ _ _ _ := rfl
  parseInteger_isSome _ _ _ _ := rfl

end EcmaLex
