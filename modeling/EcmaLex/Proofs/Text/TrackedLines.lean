import EcmaLex.Proofs.Text.LineTerminators
import EcmaLex.Proofs.Text.Lines

/-!
What the tracker answers to the raw characters of a text. Where it stands behind a text can be told from the
text alone: from the number of its lines, from its last character, and from where the normalized text ends.
-/
namespace EcmaLex
open Text

namespace LineTracker

/-- The character opens a line. -/
def Advance.opensLine : Advance → Bool
  | .absorbed => false
  | .char _ _ opensLine => opensLine

/-- The character that is handed out, with its place. -/
def Advance.mark? : Advance → Option Mark
  | .absorbed => none
  | .char c loc _ => some (c, loc)

/-- The answers to the raw characters of a text, one for each. -/
def answers : LineTracker → List Char → List Advance
  | _, [] => []
  | t, raw :: text => (t.advance raw).1 :: (t.advance raw).2.answers text

/-- The tracker behind a text. -/
def behind (t : LineTracker) (text : List Char) : LineTracker :=
  text.foldl (fun t raw => (t.advance raw).2) t

variable {t : LineTracker} {text before rest : List Char} {c : Char} {line : UInt32}

theorem behind_push (t : LineTracker) (text : List Char) (c : Char) :
    t.behind (text ++ [c]) = ((t.behind text).advance c).2 := by
  rw [behind, List.foldl_append]
  rfl

theorem length_answers (t : LineTracker) (text : List Char) : (t.answers text).length = text.length := by
  induction text generalizing t with
  | nil => rfl
  | cons raw text ih => exact congrArg (· + 1) (ih _)

/-- The answer to a character depends on what stands before it. -/
theorem answers_getElem? (t : LineTracker) (before : List Char) (c : Char) (rest : List Char) :
    (t.answers (before ++ c :: rest))[before.length]? = some ((t.behind before).advance c).1 := by
  induction before generalizing t with
  | nil => rfl
  | cons raw before ih => exact ih (t.advance raw).2

theorem marks_answers (t : LineTracker) (text : List Char) :
    (t.answers text).filterMap Advance.mark? = t.marks text := by
  induction text generalizing t with
  | nil => rfl
  | cons raw text ih =>
    rw [answers, marks]
    rcases t.advance raw with ⟨_ | ⟨c, loc, opensLine⟩, t'⟩
    · exact ih t'
    · exact congrArg ((c, loc) :: ·) (ih t')

theorem ending_behind (t : LineTracker) (text : List Char) : t.ending text = (t.behind text).finish.location := by
  induction text generalizing t with
  | nil => rfl
  | cons raw text ih => exact ih _

theorem finish_of_none (inside : t.pending = none) : t.finish = t := by
  rw [finish, inside]

theorem finish_of_some (waits : t.pending = some c) : t.finish = t.openLine := by
  rw [finish, waits]

theorem finish_line (t : LineTracker) : t.finish.line = t.line + if t.pending.isSome then 1 else 0 := by
  cases pending : t.pending with
  | none =>
    rw [finish_of_none pending]
    exact (UInt32.add_zero _).symm
  | some e =>
    rw [finish_of_some pending]
    rfl

theorem finish_finish (t : LineTracker) : t.finish.finish = t.finish := by
  cases pending : t.pending with
  | none =>
    have same := finish_of_none pending
    rw [same, same]
  | some e =>
    rw [finish_of_some pending]
    rfl

/-- What the tracker makes of a character that it places. -/
theorem place_answer (t : LineTracker) (c : Char) (opensLine : Bool) :
    (t.place c opensLine).1 = .char (if isLineTerminator c then '\n' else c) t.location opensLine := by
  unfold place
  split <;> rfl

theorem place_pending (inside : t.pending = none) (text : List Char) (c : Char) (opensLine : Bool) :
    (t.place c opensLine).2.pending = (text ++ [c]).getLast?.filter isLineTerminator := by
  rw [List.getLast?_concat, place]
  by_cases ends : isLineTerminator c = true
  · simp [ends, Option.filter]
  · simp [ends, inside, Option.filter]

theorem place_line (t : LineTracker) (c : Char) (opensLine : Bool) : (t.place c opensLine).2.line = t.line := by
  unfold place
  split <;> rfl

/-- The tracker waits to close the line of the last character. -/
theorem advance_pending (t : LineTracker) (text : List Char) (c : Char) :
    (t.advance c).2.pending = (text ++ [c]).getLast?.filter isLineTerminator := by
  unfold advance
  split
  · rename_i inside
    exact place_pending inside text c false
  · split
    · rename_i pair
      rw [pair.2, List.getLast?_concat]
      rfl
    · exact place_pending rfl text c true

/-- The answer to a character. It is placed where the tracker would stand at the end of input. -/
theorem advance_answer (t : LineTracker) (c : Char) :
    (t.advance c).1 = if t.pending = some '\r' ∧ c = '\n' then .absorbed
      else .char (if isLineTerminator c then '\n' else c) t.finish.location t.pending.isSome := by
  cases pending : t.pending with
  | none =>
    rw [advance, pending, finish_of_none pending, if_neg (by simp)]
    exact place_answer t c false
  | some e =>
    rw [advance, pending, finish_of_some pending]
    simp only [Option.some.injEq]
    split
    · rfl
    · exact place_answer t.openLine c true

theorem pending_return (waits : t.pending = text.getLast?.filter isLineTerminator) :
    t.pending = some '\r' ↔ text.getLast? = some '\r' := by
  rw [waits, Option.filter_eq_some_iff]
  exact and_iff_left rfl

theorem pending_isSome (waits : t.pending = text.getLast?.filter isLineTerminator) :
    t.pending.isSome = text.getLast?.any isLineTerminator := by
  rw [waits, Option.isSome_filter]

/-- A character opens a line if it does not stand on the line before it. -/
theorem advance_opensLine (waits : t.pending = text.getLast?.filter isLineTerminator) (c : Char) :
    (t.advance c).1.opensLine = true ↔ ∃ a, text.getLast? = some a ∧ onOneLine a c = false := by
  rw [advance_answer]
  split
  · rename_i pair
    refine iff_of_false (by simp [Advance.opensLine]) ?_
    rintro ⟨a, last, apart⟩
    cases ((pending_return waits).1 pair.1).symm.trans last
    rw [pair.2] at apart
    cases apart
  · rename_i other
    rw [Advance.opensLine, pending_isSome waits, Option.any_eq_true]
    refine exists_congr fun a => and_congr_right fun last => ?_
    have apart : ¬(a = '\r' ∧ c = '\n') := by
      rintro ⟨rfl, rfl⟩
      exact other ⟨(pending_return waits).2 last, rfl⟩
    simpa [onOneLine] using fun _ => not_and.1 apart

theorem advance_line (t : LineTracker) (c : Char) :
    (t.advance c).2.line = t.line + if (t.advance c).1.opensLine then 1 else 0 := by
  unfold advance
  split
  · rw [place_line, place_answer]
    exact (UInt32.add_zero _).symm
  · split
    · exact (UInt32.add_zero _).symm
    · rw [place_line, place_answer]
      rfl

/-- A character that opens a line comes behind the lines so far. -/
theorem lines_of_opens (waits : t.pending = text.getLast?.filter isLineTerminator)
    (opens : (t.advance c).1.opensLine = true) : text ≠ [] ∧ lines (text ++ [c]) = lines text ++ [[c]] := by
  obtain ⟨a, last, apart⟩ := (advance_opensLine waits c).1 opens
  refine ⟨?_, lines_begin ?_⟩
  · rintro rfl
    cases last
  · rintro b found
    cases last.symm.trans found
    exact apart

/-- Any other character goes on with the last of them. -/
theorem lines_of_stays (waits : t.pending = text.getLast?.filter isLineTerminator)
    (stays : (t.advance c).1.opensLine = false) (some_ : text ≠ []) :
    ∃ front line, lines text = front ++ [line] ∧ lines (text ++ [c]) = front ++ [line ++ [c]] := by
  have last := List.getLast?_eq_some_getLast some_
  obtain ⟨front, line, split, ends⟩ := exists_split last
  refine ⟨front, line, split, lines_goOn split ends ?_⟩
  by_contra apart
  have opens := (advance_opensLine waits c).2 ⟨_, last, eq_false_of_ne_true apart⟩
  cases opens.symm.trans stays

theorem advance_lastLine (waits : t.pending = text.getLast?.filter isLineTerminator) (c : Char) :
    lastLine (text ++ [c]) = (if (t.advance c).1.opensLine then [] else lastLine text) ++ [c] := by
  cases opens : (t.advance c).1.opensLine with
  | true => exact lastLine_of_split (lines_of_opens waits opens).2
  | false =>
    by_cases none_ : text = []
    · rw [none_]
      rfl
    · obtain ⟨front, line, split, longer⟩ := lines_of_stays waits opens none_
      rw [lastLine_of_split split]
      exact lastLine_of_split longer

theorem behind_pending (line : UInt32) (text : List Char) :
    ((start line).behind text).pending = text.getLast?.filter isLineTerminator := by
  rcases List.eq_nil_or_concat text with rfl | ⟨text, c, rfl⟩
  · rfl
  · rw [List.concat_eq_append, behind_push]
    exact advance_pending _ text c

/-- The next line terminator aside, the tracker stands where the normalized text ends. -/
theorem behind_location (line : UInt32) (text : List Char) :
    ((start line).behind text).finish.location = Location.locate line (normalize text) := by
  rw [← ending_behind, (marks_start line text).2, Location.past_start]

/-- The tracker stands on the line of the last character. -/
theorem behind_line (line : UInt32) (text : List Char) :
    ((start line).behind text).line = line + UInt32.ofNat ((lines text).length - 1) := by
  induction text using List.reverseRecOn with
  | nil => exact (UInt32.add_zero _).symm
  | append_singleton text c ih =>
    have waits := behind_pending line text
    rw [behind_push, advance_line, ih]
    by_cases none_ : text = []
    · have stays : ¬(((start line).behind text).advance c).1.opensLine = true :=
        fun opens => (lines_of_opens waits opens).1 none_
      rw [if_neg stays, none_]
      exact UInt32.add_zero _
    · have some_ := List.length_pos_iff.2 (lines_ne_nil none_)
      have counted : (lines text).length + 1 - 1 = (lines text).length - 1 + 1 := by omega
      cases opens : (((start line).behind text).advance c).1.opensLine with
      | true =>
        rw [(lines_of_opens waits opens).2, if_pos rfl, List.length_append, List.length_singleton,
          counted, UInt32.ofNat_add, ← UInt32.add_assoc]
        rfl
      | false =>
        obtain ⟨front, current, split, longer⟩ := lines_of_stays waits opens none_
        rw [longer, split]
        simp

end LineTracker
end EcmaLex
