import EcmaLex.Comment
import EcmaLex.Identifier
import EcmaLex.Literal.NumericLiteral
import EcmaLex.Literal.StringLiteral
import EcmaLex.Token

/-!
One token from a character source. The first significant character chooses the recogniser. Comments
are passed over, except that a block comment with a line terminator in it is a line break. Every
token but the end of input uses up characters.
-/
namespace EcmaLex
open Text CharSource

/-- A kind and the place it is reported at. -/
structure Placed where
  kind : TokenKind
  loc : Location
  deriving DecidableEq, Repr

namespace Placed

def ofString (start : Location) : StringOutcome → Placed
  | .literal value => ⟨.string (String.ofList value), start⟩
  | .malformedEscape loc => ⟨.error .malformedEscapeSequence, loc⟩
  | .unterminated => ⟨.error .unterminatedString, start⟩

def ofNumber (start : Location) : NumberOutcome → Placed
  | .literal value => ⟨.number value, start⟩
  | .malformed => ⟨.error .malformedNumericLiteral, start⟩

def ofIdentifier (start : Location) : IdentifierOutcome → Placed
  | .name text => ⟨.name (String.ofList text), start⟩
  | .word w => ⟨.word w, start⟩
  | .malformedEscape loc => ⟨.error .malformedEscapeSequence, loc⟩

def ofPunctuator (start : Location) : Option Punctuator → Placed
  | some p => ⟨.punctuator p, start⟩
  | none => ⟨.error .unrecognizedCharacter, start⟩

/-- A block comment on one line is no token. -/
def ofBlockComment? (start : Location) : CommentEnd → Option Placed
  | .unterminated => some ⟨.error .unterminatedComment, start⟩
  | .closed true => some ⟨.eol, start⟩
  | .closed false => none

end Placed

variable {σ : Type} [CharSource σ]

/-- The answer of a recogniser, in other terms. -/
def mapAnswer {α β : Type} (f : α → β) (answer : Except ReadFailure α × σ) :
    Except ReadFailure β × σ :=
  (answer.1.map f, answer.2)

def scanOperator (first : Char) (start : Location) (s : σ) : Except ReadFailure Placed × σ :=
  mapAnswer (.ofPunctuator start) (scanPunctuator first s)

theorem remaining_peek (s : σ) : remaining (peek s).2 ≤ remaining s := by
  unfold peek
  split
  · rename_i c s' taken
    have := remaining_next_some taken
    have := remaining_putBack c s'
    simp only
    omega
  · rename_i other _
    have taken : next false s = ((next false s).1, (next false s).2) := rfl
    exact remaining_next taken

inductive Solidus where
  | lineComment
  | blockComment
  | operator
  deriving DecidableEq, Repr

/-- Decides what a solidus begins. A character that opens no comment goes back. -/
def afterSolidus (s : σ) : Except ReadFailure Solidus × σ :=
  match next false s with
  | (.error cause, s) => (.error cause, s)
  | (.ok none, s) => (.ok .operator, s)
  | (.ok (some c), s) =>
    if c = '/' then (.ok .lineComment, s)
    else if c = '*' then (.ok .blockComment, s)
    else (.ok .operator, putBack c s)

theorem remaining_afterSolidus (s : σ) : remaining (afterSolidus s).2 ≤ remaining s := by
  unfold afterSolidus
  split
  · rename_i taken
    exact remaining_next taken
  · rename_i taken
    exact remaining_next taken
  · rename_i c s' taken
    have := remaining_next_some taken
    have := remaining_putBack c s'
    repeat' split
    all_goals simp only; omega

/-- Reads on after a solidus; `none` if a comment was passed over. -/
def scanSolidus (start : Location) (s : σ) : Except ReadFailure (Option Placed) × σ :=
  match afterSolidus s with
  | (.error cause, s) => (.error cause, s)
  | (.ok .operator, s) => mapAnswer some (scanOperator '/' start s)
  | (.ok .lineComment, s) => mapAnswer (fun _ => none) (lineComment.run () s)
  | (.ok .blockComment, s) => mapAnswer (Placed.ofBlockComment? start) (blockComment.run {} s)

theorem remaining_scanSolidus (start : Location) (s : σ) :
    remaining (scanSolidus start s).2 ≤ remaining s := by
  have decided := remaining_afterSolidus s
  unfold scanSolidus
  split <;> rename_i taken <;> rw [taken] at decided
  · exact decided
  · exact Nat.le_trans (remaining_scanPunctuator '/' _) decided
  · exact Nat.le_trans (remaining_lineComment _) decided
  · exact Nat.le_trans (remaining_blockComment {} _) decided

variable [Library]

def scanNumber (mode : Mode) (first : Char) (start : Location) (s : σ) :
    Except ReadFailure Placed × σ :=
  mapAnswer (.ofNumber start) (numberRecognizer.run (NumberRecognizer.start first mode) s)

/-- The token that begins with a character already taken, which is no line terminator and begins no
comment. -/
def scanFrom (mode : Mode) (first : Char) (start : Location) (s : σ) :
    Except ReadFailure Placed × σ :=
  if first = '\x22' ∨ first = '\x27' then
    mapAnswer (.ofString start) (stringRecognizer.run (.start first mode) s)
  else if isDecimalDigit first then scanNumber mode first start s
  else if first = '.' then
    match peek s with
    | (.error cause, s) => (.error cause, s)
    | (.ok follower, s) =>
      if follower.any isDecimalDigit then scanNumber mode first start s
      else scanOperator first start s
  else if first = '\\' ∨ isIdentifierStart first then
    mapAnswer (.ofIdentifier start)
      ((identifierRecognizer mode).resume IdentifierRecognizer.start first s)
  else scanOperator first start s

theorem remaining_scanFrom (mode : Mode) (first : Char) (start : Location) (s : σ) :
    remaining (scanFrom mode first start s).2 ≤ remaining s := by
  unfold scanFrom
  split
  · exact remaining_stringRecognizer _ s
  · split
    · exact remaining_numberRecognizer _ s
    · split
      · have looked := remaining_peek s
        split
        · rename_i peeked
          simpa [peeked] using looked
        · rename_i s' peeked
          rw [peeked] at looked
          refine Nat.le_trans ?_ looked
          split
          · exact remaining_numberRecognizer _ s'
          · exact remaining_scanPunctuator first s'
      · split
        · rename_i begins
          exact remaining_resume_identifier s begins
        · exact remaining_scanPunctuator first s

/-- The next token, or `none` if a comment was passed over. -/
def scanOnce (mode : Mode) (s : σ) : Except ReadFailure (Option Placed) × σ :=
  match nextSignificant s with
  | (.error cause, s) => (.error cause, s)
  | (.ok none, s) => (.ok (some ⟨.eof, lexemeStart s⟩), s)
  | (.ok (some first), s) =>
    let start := lexemeStart s
    if first = '\n' then (.ok (some ⟨.eol, start⟩), s)
    else if first = '/' then scanSolidus start s
    else mapAnswer some (scanFrom mode first start s)

theorem remaining_scanOnce {mode : Mode} {s s' : σ} {p : Option Placed}
    (scanned : scanOnce mode s = (.ok p, s')) (more : p.all fun p => p.kind ≠ .eof) :
    remaining s' < remaining s := by
  unfold scanOnce at scanned
  split at scanned
  · cases scanned
  · cases scanned; simp at more
  · rename_i first s₁ found
    refine Nat.lt_of_le_of_lt ?_ (remaining_nextSignificant found)
    split at scanned
    · cases scanned; exact Nat.le_refl _
    · split at scanned
      · simpa [scanned] using remaining_scanSolidus (lexemeStart s₁) s₁
      · rw [← (Prod.mk.inj scanned).2]
        exact remaining_scanFrom mode first (lexemeStart s₁) s₁

def scan (mode : Mode) (s : σ) : Except ReadFailure Placed × σ :=
  match _scanned : scanOnce mode s with
  | (.error cause, s) => (.error cause, s)
  | (.ok (some p), s) => (.ok p, s)
  | (.ok none, s) => scan mode s
termination_by remaining s
decreasing_by exact remaining_scanOnce _scanned rfl

theorem remaining_scan {mode : Mode} {s s' : σ} {p : Placed}
    (scanned : scan mode s = (.ok p, s')) (more : p.kind ≠ .eof) : remaining s' < remaining s := by
  fun_induction scan mode s with
  | case1 => cases scanned
  | case2 s p' s₁ once =>
    cases scanned
    exact remaining_scanOnce once (by simpa using more)
  | case3 s s₁ once ih => exact Nat.lt_trans (ih scanned) (remaining_scanOnce once rfl)

end EcmaLex
