import EcmaLex.Proofs.Text.TrackedLines

/-!
The tracker splits a text into lines exactly. Every line terminator is handed out once, as a line feed in the
place of its first character, and nothing else is lost, added or moved (`tracker_tracksLines`).
-/
namespace EcmaLex
open Text

namespace LineTracker

/-- The answers to a character between two parts of a text that begins at this line. -/
inductive AnswersIn (startLine : UInt32) (before : List Char) (c : Char) (rest : List Char) : Advance → Prop
  /-- The line feed of a carriage return pair. -/
  | absorbed : before.getLast? = some '\r' → c = '\n' → AnswersIn startLine before c rest .absorbed
  | char {opensLine : Bool} : ¬(before.getLast? = some '\r' ∧ c = '\n') →
      (opensLine = true ↔ BeginsLine before c rest) →
      AnswersIn startLine before c rest (.char (if isLineTerminator c then '\n' else c)
        (Location.locate startLine (normalize before)) opensLine)

/-- What a tracker that starts at this line makes of the raw characters of a text. -/
structure TracksLines (startLine : UInt32) (text : List Char) : Prop where
  length : ((start startLine).answers text).length = text.length
  answer : ∀ before c rest, text = before ++ c :: rest → ∃ answer,
    ((start startLine).answers text)[before.length]? = some answer ∧ AnswersIn startLine before c rest answer
  /-- Together the answers are the normalized text, with every character in its place. -/
  marks : ((start startLine).answers text).filterMap Advance.mark? = located ⟨startLine, 0⟩ (normalize text)
  nothing : text = [] → ((start startLine).behind text).line = startLine
  /-- The tracker is on the line of the last character, also if that ends the line. -/
  line : ∀ earlier current, lines text = earlier ++ [current] →
    ((start startLine).behind text).line = startLine + UInt32.ofNat earlier.length
  /-- The end of input closes a line terminator at the end. -/
  finish : ((start startLine).behind text).finish.line =
    ((start startLine).behind text).line + if text.getLast?.any isLineTerminator then 1 else 0
  finish_location : ((start startLine).behind text).finish.location =
    Location.locate startLine (normalize text)
  finish_finish : ((start startLine).behind text).finish.finish = ((start startLine).behind text).finish
  /-- While lines and columns fit their words, the numbers of a place are those of the text before it. -/
  numbers : Location.Numbered startLine (normalize text) → ∀ part, part <+: normalize text →
    (Location.locate startLine part).line.toNat = startLine.toNat + part.count '\n' ∧
      (Location.locate startLine part).column.toNat = (part.reverse.takeWhile (· ≠ '\n')).length

theorem advance_answersIn (startLine : UInt32) (before : List Char) (c : Char) (rest : List Char) :
    AnswersIn startLine before c rest (((start startLine).behind before).advance c).1 := by
  have waits := behind_pending startLine before
  have opens : (((start startLine).behind before).advance c).1.opensLine = true ↔ BeginsLine before c rest :=
    (advance_opensLine waits c).trans beginsLine_iff.symm
  rw [advance_answer, behind_location] at *
  split at opens
  · rename_i pair
    rw [if_pos pair]
    exact .absorbed ((pending_return waits).1 pair.1) pair.2
  · rename_i other
    rw [if_neg other]
    exact .char (fun pair => other ⟨(pending_return waits).2 pair.1, pair.2⟩) opens

end LineTracker

open LineTracker

/-- Whatever raw characters are fed to a tracker, it splits them into lines exactly. -/
theorem tracker_tracksLines (startLine : UInt32) (text : List Char) : TracksLines startLine text where
  length := length_answers _ _
  answer := by
    rintro before c rest rfl
    exact ⟨_, answers_getElem? _ before c rest, advance_answersIn startLine before c rest⟩
  marks := (marks_answers _ _).trans (marks_start startLine text).1
  nothing := by
    rintro rfl
    rfl
  line := by
    intro earlier current split
    rw [behind_line, split, List.length_append, List.length_singleton, Nat.add_sub_cancel]
  finish := by rw [finish_line, pending_isSome (behind_pending startLine text)]
  finish_location := behind_location startLine text
  finish_finish := finish_finish _
  numbers := fun numbered _ => numbered.toNat_locate

example : (start 1).answers ['\r', '\r', '\n', 'a'] =
    [.char '\n' ⟨1, 0⟩ false, .char '\n' ⟨2, 0⟩ true, .absorbed, .char 'a' ⟨3, 0⟩ true] := by
  decide

end EcmaLex
