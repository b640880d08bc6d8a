import EcmaLex.Number.Binary64
import EcmaLex.Number.DecimalText

/-!
What the lexer takes from libraries: the Unicode properties of identifiers, and the conversions of texts to
numbers. The lexer is the same over any of them; only what their documentation says is known here.
-/
namespace EcmaLex

/-- The properties `XID_Start` and `XID_Continue` in some version of Unicode. -/
structure IdentifierProperties where
  starts : Char → Bool
  continues : Char → Bool
  continues_of_starts : ∀ c, starts c = true → continues c = true

/-- The conversions that the value of a number goes through. A decimal and digits of a base are never
refused. -/
structure NumberConversions where
  /-- Of a whole decimal. -/
  parseFloat : List Char → Option Binary64
  /-- Of digits in a base. -/
  parseInteger : Nat → List Char → Option Nat
  /-- Nothing stands for a number that is out of range. -/
  toFloat : Nat → Option Binary64
  parseFloat_isSome : ∀ text n e, DecimalText text n e → (parseFloat text).isSome = true
  parseInteger_isSome : ∀ (radix : Radix) digits, digits ≠ [] →
    (∀ c ∈ digits, radix.hasDigit c = true) → (parseInteger radix.base digits).isSome = true

class Library where
  identifiers : IdentifierProperties
  numbers : NumberConversions

end EcmaLex
