import EcmaLex.Proofs.Grammar.Cut
import EcmaLex.Proofs.Grammar.Trivia
import EcmaLex.Scan

/-!
The token that a text begins with, as a function of the text alone: its kind, and how many characters it
takes. Comments are left aside.
-/
namespace EcmaLex
open Text

def stringAt (mode : Mode) (first : Char) (text : List Char) : StringOutcome × Nat :=
  stringRecognizer.cut (.start first mode) 1 text

def numberAt [Library] (mode : Mode) (first : Char) (text : List Char) : NumberOutcome × Nat :=
  numberRecognizer.cut (NumberRecognizer.start first mode) 1 text

def wordAt [Library] (mode : Mode) (first : Char) (text : List Char) : IdentifierOutcome × Nat :=
  (identifierRecognizer mode).cut IdentifierRecognizer.start 0 (first :: text)

def punctuatorAt (first : Char) (text : List Char) : Option Punctuator × Nat :=
  match Punctuator.single? first with
  | none => (none, 1)
  | some p => Prod.map some id (punctuatorRecognizer.cut (.whole p) 1 text)

namespace TokenKind

def ofString (outcome : StringOutcome) : TokenKind := (Placed.ofString default outcome).kind

def ofNumber (outcome : NumberOutcome) : TokenKind := (Placed.ofNumber default outcome).kind

def ofWord (outcome : IdentifierOutcome) : TokenKind := (Placed.ofIdentifier default outcome).kind

def ofPunctuator (p : Option Punctuator) : TokenKind := (Placed.ofPunctuator default p).kind

end TokenKind

/-- A digit, or a point before a digit. -/
def BeginsNumber (first : Char) (text : List Char) : Prop :=
  isDecimalDigit first = true ∨ first = '.' ∧ text.head?.any isDecimalDigit = true

instance (first : Char) (text : List Char) : Decidable (BeginsNumber first text) :=
  inferInstanceAs (Decidable (_ ∨ _))

/-- The kind and the length of the token that a character begins. -/
def tokenFrom [Library] (mode : Mode) (first : Char) (text : List Char) : TokenKind × Nat :=
  if first = '\x22' ∨ first = '\x27' then Prod.map .ofString id (stringAt mode first text)
  else if BeginsNumber first text then Prod.map .ofNumber id (numberAt mode first text)
  else if first = '\\' ∨ isIdentifierStart first then Prod.map .ofWord id (wordAt mode first text)
  else Prod.map .ofPunctuator id (punctuatorAt first text)

/-- A character that stands between tokens, or begins a comment. -/
def BeginsTrivia (first : Char) (text : List Char) : Prop :=
  isBlank first = true ∨ first = '\n' ∨ first = '/' ∧ (text.head? = some '/' ∨ text.head? = some '*')

instance (first : Char) (text : List Char) : Decidable (BeginsTrivia first text) :=
  inferInstanceAs (Decidable (_ ∨ _))

/-- The kind and the length of the token that a text begins with; there is none at a gap, at a line
break and at a comment. -/
def leadingToken? [Library] (mode : Mode) : List Char → Option (TokenKind × Nat)
  | [] => none
  | first :: text => if BeginsTrivia first text then none else some (tokenFrom mode first text)

/-- A question mark before a fraction is an operator of its own. -/
example [Library] : leadingToken? .sloppy ['?', '.', '5'] = some (.punctuator .question, 1) := rfl

end EcmaLex
