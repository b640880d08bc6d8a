import EcmaLex.Comment
import EcmaLex.Proofs.Grammar.Trivia
import EcmaLex.Proofs.Reading.Run

/-!
Comments are read up to where they end as text: a line comment at the end of its line, a block comment
where it closes, or at the end of input.
-/
namespace EcmaLex
open Text

variable {t : Tape} {mark : Mark} {read : List Mark}

theorem dropped_isFormatControl {skipFormat : Bool} (passed : Tape.dropped skipFormat mark = true) :
    isFormatControl mark.1 = true := by
  unfold Tape.dropped at passed
  exact (Bool.and_eq_true_iff.1 passed).2

theorem dropped_ne_lineFeed {skipFormat : Bool} (passed : Tape.dropped skipFormat mark = true) :
    mark.1 ≠ '\n' := by
  intro feed
  have format := dropped_isFormatControl passed
  rw [feed] at format
  exact absurd format (by decide)

theorem lineComment_rule :
    lineComment.Rule (fun _ read => '\n' ∉ marked read)
      (fun _ slice after => '\n' ∉ marked slice ∧
        ∀ c, (marked after).head? = some c → c = '\n') where
  drop := by
    intro _ read mark plain passed
    simp [plain, (dropped_ne_lineFeed passed).symm]
  more := by
    intro _ read c loc _ plain _ stepped
    simp only [lineComment] at stepped
    split at stepped
    · cases stepped
    · rename_i other
      simpa [plain] using Ne.symm other
  stop := by
    intro _ read c loc back result after plain kept stepped
    simp only [lineComment] at stepped
    split at stepped <;> cases stepped
    rename_i feed
    exact .last kept ⟨plain, by rintro d ⟨rfl⟩; exact feed⟩
  atEnd plain := .all ⟨plain, by simp⟩

theorem lineComment_tape (t : Tape) :
    ∃ result body t', lineComment.run () t = (.ok result, t') ∧ t.Took true body t' ∧
      '\n' ∉ marked body ∧ ∀ c, (marked t'.ahead).head? = some c → c = '\n' :=
  lineComment_rule.run (by simp) (Tape.Took.refl true t)

/-- What the state of a block comment says about its text so far. -/
structure BlockState.Reads (b : BlockState) (body : List Char) : Prop where
  opened : OpenComment body
  crossedLine : b.crossedLine = true ↔ '\n' ∈ body
  starred : b.starred = true ↔ (visible body).getLast? = some '*'

/-- What the end of a block comment says about its text and what lies ahead. -/
def CommentEnd.Ended (body : List Char) (after : List Mark) : CommentEnd → Prop
  | .closed crossedLine => ClosedComment body ∧ (crossedLine = true ↔ '\n' ∈ body)
  | .unterminated => OpenComment body ∧ after = []

theorem BlockState.Reads.push {b : BlockState} {body : List Char} {c : Char} (reads : b.Reads body)
    (plain : isFormatControl c = false) (goes : ¬(b.starred = true ∧ c = '/')) :
    BlockState.Reads { crossedLine := b.crossedLine || c = '\n', starred := c = '*' } (body ++ [c]) where
  opened := by
    apply reads.opened.push
    intro ends
    obtain ⟨solidus, star⟩ := (endsComment_visible plain).1 ends
    exact goes ⟨reads.starred.2 star, solidus⟩
  crossedLine := by
    rw [List.mem_append, ← reads.crossedLine]
    simp [eq_comm (a := c)]
  starred := by simp [visible, plain]

theorem blockComment_rule :
    blockComment.Rule (fun b read => b.Reads (marked read))
      (fun result slice after => result.Ended (marked slice) after) where
  drop := by
    intro b read mark reads passed
    have format := dropped_isFormatControl passed
    have same : visible (marked (read ++ [mark])) = visible (marked read) := by simp [visible, format]
    constructor
    · rw [marked_append]
      apply reads.opened.push
      rw [endsComment_format format]
      exact reads.opened _ (List.prefix_refl _)
    · rw [reads.crossedLine]
      simp [(dropped_ne_lineFeed passed).symm]
    · rw [same, reads.starred]
  more := by
    intro b read c loc b' reads kept stepped
    have plain : isFormatControl c = false := by simpa [Tape.dropped, blockComment] using kept
    simp only [blockComment] at stepped
    split at stepped <;> cases stepped
    rename_i goes
    rw [marked_append]
    exact reads.push plain (by simpa using goes)
  stop := by
    intro b read c loc back result after reads kept stepped
    have plain : isFormatControl c = false := by simpa [Tape.dropped, blockComment] using kept
    simp only [blockComment] at stepped
    split at stepped <;> cases stepped
    rename_i closes
    obtain ⟨star, rfl⟩ : b.starred = true ∧ c = '/' := by simpa using closes
    apply Recognizer.Stops.all
    rw [marked_append]
    constructor
    · exact reads.opened.close ((endsComment_visible plain).2 ⟨rfl, reads.starred.1 star⟩)
    · rw [reads.crossedLine]
      simp
  atEnd reads := .all ⟨reads.opened, rfl⟩

theorem blockComment_tape (t : Tape) :
    ∃ result body t', blockComment.run {} t = (.ok result, t') ∧ t.Took true body t' ∧
      result.Ended (marked body) t'.ahead := by
  have start : BlockState.Reads {} (marked []) := ⟨.nil, by simp, by simp [visible]⟩
  exact blockComment_rule.run start (Tape.Took.refl true t)

end EcmaLex
