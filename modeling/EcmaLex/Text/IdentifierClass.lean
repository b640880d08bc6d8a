import EcmaLex.Library

/-!
The characters of identifiers. Inside ASCII they are letters, digits, the dollar sign and the underscore;
above it they follow the Unicode properties `XID_Start` and `XID_Continue`.
-/
namespace EcmaLex.Text

variable [Library]

def isIdentifierStart (c : Char) : Bool :=
  if isAscii c then isAsciiLetter c || c == '$' || c == '_'
  else Library.identifiers.starts c

/-- Above ASCII the two zero-width joiners count besides `XID_Continue`. -/
def isIdentifierPart (c : Char) : Bool :=
  if isAscii c then isAsciiLetter c || isDecimalDigit c || c == '$' || c == '_'
  else c == '\u200c' || c == '\u200d' || Library.identifiers.continues c

/-- What may not follow a numeric literal. -/
def isTrailing (c : Char) : Bool := isIdentifierStart c || isDecimalDigit c || c == '\\'

/-- What belongs to the rest of a malformed word. -/
def isWordTail (c : Char) : Bool := isIdentifierPart c || c == '\\'

inductive CharClass where
  | whitespace
  | lineTerminator
  | decimalDigit
  | hexDigit
  | octalDigit
  | binaryDigit
  | identifierStart
  | identifierPart
  | formatControl
  deriving DecidableEq, Repr

def CharClass.holds : CharClass → Char → Bool
  | .whitespace => isWhitespace
  | .lineTerminator => isLineTerminator
  | .decimalDigit => isDecimalDigit
  | .hexDigit => isHexDigit
  | .octalDigit => isOctalDigit
  | .binaryDigit => isBinaryDigit
  | .identifierStart => isIdentifierStart
  | .identifierPart => isIdentifierPart
  | .formatControl => isFormatControl

end EcmaLex.Text
