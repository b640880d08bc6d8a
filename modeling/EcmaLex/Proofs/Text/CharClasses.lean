import EcmaLex.Text.IdentifierClass

/-!
Inclusions between the character classes. Every character that may begin a word may also go on in one
(`isIdentifierPart_of_start`).
-/
namespace EcmaLex.Text

variable [Library]

theorem isIdentifierStart_ascii {c : Char} (ascii : isAscii c = true) :
    isIdentifierStart c = (isAsciiLetter c || c == '$' || c == '_') :=
  if_pos ascii

theorem isIdentifierPart_of_start {c : Char} (starts : isIdentifierStart c = true) :
    isIdentifierPart c = true := by
  unfold isIdentifierStart at starts
  unfold isIdentifierPart
  split at starts
  · rename_i ascii
    simp only [Bool.or_eq_true] at starts
    simp only [if_pos ascii, Bool.or_eq_true]
    rcases starts with (letter | dollar) | underscore
    · exact .inl (.inl (.inl letter))
    · exact .inl (.inr dollar)
    · exact .inr underscore
  · rename_i other
    rw [if_neg other, Library.identifiers.continues_of_starts c starts, Bool.or_true]

theorem isIdentifierPart_of_digit {c : Char} (digit : isDecimalDigit c = true) :
    isIdentifierPart c = true := by
  have ascii : isAscii c = true := by
    simp only [isDecimalDigit, Bool.and_eq_true, decide_eq_true_eq, Char.le_def] at digit
    have last := UInt32.le_iff_toNat_le.1 digit.2
    have small : c.toNat < 0x80 := Nat.lt_of_le_of_lt last (by decide)
    exact decide_eq_true small
  rw [isIdentifierPart, if_pos ascii, digit]
  simp

/-- What may not follow a number goes with a number that is malformed. -/
theorem isWordTail_of_trailing {c : Char} (trailing : isTrailing c = true) : isWordTail c = true := by
  unfold isTrailing at trailing
  unfold isWordTail
  simp only [Bool.or_eq_true] at trailing ⊢
  rcases trailing with (starts | digit) | backslash
  · exact .inl (isIdentifierPart_of_start starts)
  · exact .inl (isIdentifierPart_of_digit digit)
  · exact .inr backslash

end EcmaLex.Text
