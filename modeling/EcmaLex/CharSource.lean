import EcmaLex.ByteReader
import EcmaLex.LineTracker

/-!
A source of characters that can be given back, together with the lexeme being collected from it.
The recognisers of the lexical grammar run on any such source; its measure makes them end.
-/
namespace EcmaLex

/-- `next` answers `none` at the end of input. Taking a character uses up part of `remaining`, and
giving one back restores at most as much. -/
class CharSource (σ : Type) where
  /-- The next character; with `skipFormat` format controls are passed over. -/
  next (skipFormat : Bool) (s : σ) : Except ReadFailure (Option Char) × σ
  /-- Gives back a character, in the reverse of the order in which they were taken. -/
  putBack (c : Char) (s : σ) : σ
  /-- Starts a new lexeme at the next character. -/
  beginLexeme (s : σ) : σ
  /-- The characters taken since the lexeme began, less those given back. -/
  lexeme (s : σ) : List Char
  /-- Where the lexeme starts. -/
  lexemeStart (s : σ) : Location
  /-- Where the character taken last stands, or the end of input once it is reached. -/
  here (s : σ) : Location
  remaining (s : σ) : Nat
  remaining_next_some {skipFormat : Bool} {s s' : σ} {c : Char} :
    next skipFormat s = (.ok (some c), s') → remaining s' < remaining s
  remaining_next {skipFormat : Bool} {s s' : σ} {answer : Except ReadFailure (Option Char)} :
    next skipFormat s = (answer, s') → remaining s' ≤ remaining s
  remaining_putBack (c : Char) (s : σ) : remaining (putBack c s) ≤ remaining s + 1
  remaining_beginLexeme (s : σ) : remaining (beginLexeme s) ≤ remaining s

namespace CharSource

variable {σ : Type} [CharSource σ]

/-- Gives back several characters, the first of the list first. -/
def putBackAll (cs : List Char) (s : σ) : σ := cs.foldl (fun s c => putBack c s) s

theorem remaining_putBackAll (cs : List Char) (s : σ) :
    remaining (putBackAll cs s) ≤ remaining s + cs.length := by
  induction cs generalizing s with
  | nil => exact Nat.le_refl _
  | cons c cs ih =>
    have first := remaining_putBack c s
    have others := ih (putBack c s)
    simp only [putBackAll, List.foldl_cons, List.length_cons] at *
    omega

/-- The next character, which stays in the source. -/
def peek (s : σ) : Except ReadFailure (Option Char) × σ :=
  match next false s with
  | (.ok (some c), s') => (.ok (some c), putBack c s')
  | other => other

/-- The next character that is neither whitespace nor a format control nor NUL. The lexeme begins
at it. -/
def nextSignificant (s : σ) : Except ReadFailure (Option Char) × σ :=
  match _taken : next true (beginLexeme s) with
  | (.ok (some c), s') =>
    if c = '\x00' || Text.isWhitespace c || Text.isFormatControl c then nextSignificant s'
    else (.ok (some c), s')
  | other => other
termination_by remaining s
decreasing_by exact Nat.lt_of_lt_of_le (remaining_next_some _taken) (remaining_beginLexeme s)

theorem remaining_nextSignificant {s s' : σ} {c : Char}
    (found : nextSignificant s = (.ok (some c), s')) : remaining s' < remaining s := by
  fun_induction nextSignificant s with
  | case1 s d s'' taken _ ih =>
    exact Nat.lt_trans (ih found)
      (Nat.lt_of_lt_of_le (remaining_next_some taken) (remaining_beginLexeme s))
  | case2 s d s'' taken _ =>
    cases found
    exact Nat.lt_of_lt_of_le (remaining_next_some taken) (remaining_beginLexeme s)
  | case3 s none_ => exact absurd found (none_ c s')

end CharSource
end EcmaLex
