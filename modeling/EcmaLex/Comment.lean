import EcmaLex.Recognizer

/-!
Comments. A line comment ends before its line terminator. A block comment is remembered for one thing
only, whether a line terminator occurs in it, for then it counts as a line break. Format controls in
a comment are invisible, also between the two characters that close it.
-/
namespace EcmaLex

inductive CommentEnd where
  | closed (crossedLine : Bool)
  | unterminated
  deriving DecidableEq, Repr

/-- Reads the rest of a comment after `//`. -/
def lineComment : Recognizer Unit CommentEnd where
  skipFormat := true
  step _ c _ := if c = '\n' then .stop [c] (.closed false) else .more ()
  atEnd _ := ([], .closed false)

structure BlockState where
  crossedLine : Bool := false
  /-- The character before is a star. -/
  starred : Bool := false
  deriving DecidableEq, Repr

/-- Reads the rest of a comment after `/*`. -/
def blockComment : Recognizer BlockState CommentEnd where
  skipFormat := true
  step b c _ :=
    if b.starred && c = '/' then .stop [] (.closed b.crossedLine)
    else .more { crossedLine := b.crossedLine || c = '\n', starred := c = '*' }
  atEnd _ := ([], .unterminated)

section
open CharSource

variable {σ : Type} [CharSource σ]

theorem remaining_lineComment (s : σ) : remaining (lineComment.run () s).2 ≤ remaining s := by
  refine Recognizer.remaining_run lineComment (fun _ => 0) ?_ ?_ ?_ () s
  · simp
  · intro state c loc back result stepped
    simp only [lineComment] at stepped
    split at stepped <;> cases stepped
    exact Nat.le_refl _
  · simp [lineComment]

theorem remaining_blockComment (b : BlockState) (s : σ) :
    remaining (blockComment.run b s).2 ≤ remaining s := by
  refine Recognizer.remaining_run blockComment (fun _ => 0) ?_ ?_ ?_ b s
  · simp
  · intro state c loc back result stepped
    simp only [blockComment] at stepped
    split at stepped <;> cases stepped
    exact Nat.zero_le _
  · simp [blockComment]

end
end EcmaLex
