import EcmaLex.SourceWindow
import EcmaLex.CharSource

/-!
Characters with their locations, read through a window and given back without limit. A character
given back keeps its location, and handing it out again does not move the tracker.
-/
namespace EcmaLex
open Text

structure SourceBuffer where
  window : SourceWindow
  tracker : LineTracker
  /-- Characters given back, the next one to hand out first. -/
  pushback : List (Char × Location) := []
  /-- Characters of the current lexeme, newest first. -/
  taken : List (Char × Location) := []
  last : Location

namespace SourceBuffer

/-- A capacity of no characters is widened to one. -/
def ofReader (reader : ByteReader) (capacity : Nat) (startLine : UInt32) : SourceBuffer where
  window := { reader, capacity := max capacity 1, capacity_pos := by omega }
  tracker := .start startLine
  last := ⟨startLine, 0⟩

def handOut (c : Char) (loc : Location) (b : SourceBuffer) : SourceBuffer :=
  { b with taken := (c, loc) :: b.taken, last := loc }

/-- At the end of input the last terminator closes its line. -/
def reachEnd (b : SourceBuffer) : SourceBuffer :=
  { b with tracker := b.tracker.finish, last := b.tracker.finish.location }

def place (b : SourceBuffer) (window : SourceWindow) (tracker : LineTracker) (opensLine : Bool) :
    SourceBuffer :=
  { b with window := if opensLine then window.beginLine else window, tracker }

def remaining (b : SourceBuffer) : Nat := b.pushback.length + b.window.remaining

theorem handOut_remaining (c : Char) (loc : Location) (b : SourceBuffer) :
    (handOut c loc b).remaining = b.remaining := rfl

theorem place_remaining (b : SourceBuffer) (window : SourceWindow) (tracker : LineTracker)
    (opensLine : Bool) :
    (b.place window tracker opensLine).remaining = b.pushback.length + window.remaining := by
  cases opensLine <;> rfl

/-- The next character, with every line terminator as a line feed. Characters given back come
first. With `skipFormat` format controls are dropped. -/
def next (skipFormat : Bool) (b : SourceBuffer) : Except ReadFailure (Option Char) × SourceBuffer :=
  match _given : b.pushback with
  | (c, loc) :: pushback =>
    if skipFormat && isFormatControl c then next skipFormat { b with pushback }
    else (.ok (some c), handOut c loc { b with pushback })
  | [] =>
    match _took : b.window.take with
    | (.error cause, window) => (.error cause, { b with window })
    | (.ok none, window) => (.ok none, reachEnd { b with window })
    | (.ok (some raw), window) =>
      match b.tracker.advance raw with
      | (.absorbed, tracker) => next skipFormat { b with window, tracker }
      | (.char c loc opensLine, tracker) =>
        if skipFormat && isFormatControl c then next skipFormat (b.place window tracker opensLine)
        else (.ok (some c), handOut c loc (b.place window tracker opensLine))
termination_by b.remaining
decreasing_by
  · simp [remaining, _given]
  · exact Nat.add_lt_add_left (SourceWindow.take_remaining_some _took) _
  · rw [place_remaining]
    exact Nat.add_lt_add_left (SourceWindow.take_remaining_some _took) _

/-- Gives a character back. It keeps the location it was handed out with; once the lexeme is empty
only the location handed out last is known. -/
def putBack (c : Char) (b : SourceBuffer) : SourceBuffer :=
  match b.taken with
  | (_, loc) :: taken => { b with taken, pushback := (c, loc) :: b.pushback }
  | [] => { b with pushback := (c, b.last) :: b.pushback }

def beginLexeme (b : SourceBuffer) : SourceBuffer := { b with taken := [] }

def lexeme (b : SourceBuffer) : List Char := b.taken.reverse.map Prod.fst

def lexemeStart (b : SourceBuffer) : Location :=
  match b.taken.getLast? with
  | some (_, loc) => loc
  | none => b.last

def lineNumber (b : SourceBuffer) : UInt32 := b.tracker.line

theorem next_remaining {skipFormat : Bool} {b b' : SourceBuffer}
    {answer : Except ReadFailure (Option Char)} (took : b.next skipFormat = (answer, b')) :
    b'.remaining ≤ b.remaining ∧ (∀ c, answer = .ok (some c) → b'.remaining < b.remaining) := by
  fun_induction next skipFormat b with
  | case1 b c loc pushback given _ ih =>
    have smaller : remaining { b with pushback } < b.remaining := by simp [remaining, given]
    exact ⟨Nat.le_trans (ih took).1 (Nat.le_of_lt smaller),
      fun c eq => Nat.lt_trans ((ih took).2 c eq) smaller⟩
  | case2 b c loc pushback given _ =>
    have smaller : remaining { b with pushback } < b.remaining := by simp [remaining, given]
    cases took
    exact ⟨Nat.le_of_lt smaller, fun _ _ => smaller⟩
  | case3 b _ cause window taken =>
    cases took
    exact ⟨Nat.add_le_add_left (SourceWindow.take_remaining taken) _, fun _ eq => nomatch eq⟩
  | case4 b _ window taken =>
    cases took
    exact ⟨Nat.add_le_add_left (SourceWindow.take_remaining taken) _, fun _ eq => nomatch eq⟩
  | case5 b _ raw window taken tracker _ ih =>
    have smaller : remaining { b with window, tracker } < b.remaining :=
      Nat.add_lt_add_left (SourceWindow.take_remaining_some taken) _
    exact ⟨Nat.le_trans (ih took).1 (Nat.le_of_lt smaller),
      fun c eq => Nat.lt_trans ((ih took).2 c eq) smaller⟩
  | case6 b _ raw window taken c loc opensLine tracker _ _ ih =>
    have smaller : (b.place window tracker opensLine).remaining < b.remaining := by
      rw [place_remaining]
      exact Nat.add_lt_add_left (SourceWindow.take_remaining_some taken) _
    exact ⟨Nat.le_trans (ih took).1 (Nat.le_of_lt smaller),
      fun c eq => Nat.lt_trans ((ih took).2 c eq) smaller⟩
  | case7 b _ raw window taken c loc opensLine tracker _ _ =>
    have smaller : (b.place window tracker opensLine).remaining < b.remaining := by
      rw [place_remaining]
      exact Nat.add_lt_add_left (SourceWindow.take_remaining_some taken) _
    cases took
    rw [handOut_remaining]
    exact ⟨Nat.le_of_lt smaller, fun _ _ => smaller⟩

instance : CharSource SourceBuffer where
  next := next
  putBack := putBack
  beginLexeme := beginLexeme
  lexeme := lexeme
  lexemeStart := lexemeStart
  here := last
  remaining := remaining
  remaining_next_some took := (next_remaining took).2 _ rfl
  remaining_next took := (next_remaining took).1
  remaining_putBack c b := by
    unfold putBack
    split <;> simp only [remaining, List.length_cons] <;> omega
  remaining_beginLexeme _ := Nat.le_refl _

end SourceBuffer
end EcmaLex
