import EcmaLex.Proofs.Source.Windows
import EcmaLex.Proofs.Source.WindowText

/-!
Input that fails. A window over it hands out the characters that the bytes before the failure hold for
certain, and then the failure. A window over any continuation of these bytes hands out the same
characters first (`breaksInside_simulation`).
-/
namespace EcmaLex
open Text

/-- A script delivers these bytes, in pieces of any size and with interruptions anywhere, and then a read
fails. What would follow the failure does not matter. -/
inductive BreaksOff : List Delivery → List UInt8 → Prop
  | failure (cause : ReadFailure) (rest : List Delivery) : BreaksOff (.failure cause :: rest) []
  | piece {script bytes} (piece : List UInt8) :
      BreaksOff script bytes → BreaksOff (.piece piece :: script) (piece ++ bytes)
  | interrupted {script bytes} : BreaksOff script bytes → BreaksOff (.interrupted :: script) bytes

/-- The answer to a read with room is the failure, or a first part of the bytes, or an interruption. -/
theorem BreaksOff.deliver {script : List Delivery} {bytes : List UInt8} (breaks : BreaksOff script bytes)
    {room : Nat} (roomy : 0 < room) :
    (∃ cause, (ByteReader.deliver room script).1 = .failed cause ∧ bytes = []) ∨
      (∃ byte part more, (ByteReader.deliver room script).1 = .bytes (byte :: part) ∧
        bytes = (byte :: part) ++ more ∧ BreaksOff (ByteReader.deliver room script).2 more) ∨
      (ByteReader.deliver room script).1 = .interrupted ∧
        BreaksOff (ByteReader.deliver room script).2 bytes := by
  induction breaks with
  | failure cause rest => exact .inl ⟨cause, rfl, rfl⟩
  | interrupted rest ih => exact .inr (.inr ⟨rfl, rest⟩)
  | @piece script bytes piece rest ih =>
    cases piece with
    | nil => simpa only [ByteReader.deliver, List.nil_append] using ih
    | cons byte tail => exact .inr (.inl (ByteReader.deliver_piece roomy rest (.piece · rest) byte tail))

namespace SourceWindow

/-- This text is what a window hands out before its input fails. -/
structure Breaks (w : SourceWindow) (text : List Char) : Prop extends Sound w where
  running : w.exhausted = false
  text : ∃ bytes, BreaksOff w.reader.script bytes ∧
    text = w.unread ++ Utf8.completed (w.undecoded ++ bytes)

variable {w v w' : SourceWindow} {text : List Char}

theorem Breaks.ofReader {reader : ByteReader} {bytes : List UInt8}
    (breaks : BreaksOff reader.script bytes) (capacity : Nat) (capacity_pos : 0 < capacity) :
    Breaks { reader, capacity, capacity_pos } (Utf8.completed bytes) where
  lineStart_le := Nat.le_refl _
  cursor_le := Nat.le_refl _
  kept_back := Utf8.decode_nil
  running := rfl
  text := ⟨bytes, breaks, rfl⟩

theorem Sound.receive_breaks {bytes more : List UInt8} (sound : w.Sound) (running : w.exhausted = false)
    (breaks : BreaksOff w.reader.script more) :
    (w.receive bytes).Breaks (w.unread ++ Utf8.completed (w.undecoded ++ (bytes ++ more))) := by
  obtain ⟨log, same⟩ := receive_eq w bytes
  refine ⟨sound.receive bytes, ?_, more, ?_, ?_⟩
  · simpa [same] using running
  · simpa [same] using breaks
  · rw [sound.receive_unread, ← List.append_assoc w.undecoded, Utf8.completed_append,
      List.append_assoc, same]

theorem Breaks.readOnce (breaks : w.Breaks text) (room : w.chars.size < w.capacity) :
    w.readOnce.1 = .ok true ∧ w.readOnce.2.Breaks text ∨
      (∃ cause, w.readOnce.1 = .error cause) ∧ text = w.unread := by
  have sound (reader : ByteReader) : Sound { w with reader } :=
    ⟨breaks.lineStart_le, breaks.cursor_le, breaks.kept_back⟩
  obtain ⟨bytes, off, rfl⟩ := breaks.text
  unfold SourceWindow.readOnce ByteReader.read
  obtain ⟨cause, answer, rfl⟩ | ⟨byte, part, more, answer, rfl, rest⟩ | ⟨answer, rest⟩ :=
    off.deliver (Nat.sub_pos_of_lt room)
  · simp only [answer, accept]
    refine .inr ⟨⟨cause, rfl⟩, ?_⟩
    rw [List.append_nil, Utf8.completed, breaks.kept_back]
    exact List.append_nil _
  · simp only [answer]
    exact .inl ⟨rfl, (sound _).receive_breaks breaks.running rest⟩
  · simp only [answer, accept]
    exact .inl ⟨trivial, sound _, breaks.running, bytes, rest, rfl⟩

/-- A refill leaves the text as it was, and it fails only if nothing is left besides the characters in
the window. -/
theorem Breaks.fill (breaks : w.Breaks text) :
    w.fill.1 = .ok true ∧ w.fill.2.Breaks text ∨
      (∃ cause, w.fill.1 = .error cause) ∧ text = w.unread := by
  have made : w.makeRoom.Breaks text := by
    refine ⟨breaks.makeRoom, ?_, ?_⟩
    · rw [makeRoom_exhausted, breaks.running]
    · rw [breaks.makeRoom_unread, makeRoom_undecoded, makeRoom_reader]
      exact breaks.text
  rw [SourceWindow.fill, if_neg (by simp [breaks.running]), ← breaks.makeRoom_unread]
  exact made.readOnce (makeRoom_room w)

/-- The characters of the text come one by one, and then the failure. -/
theorem Breaks.take (breaks : w.Breaks text) :
    (∃ c rest, text = c :: rest ∧ w.take.1 = .ok (some c) ∧ w.take.2.Breaks rest) ∨
      text = [] ∧ ∃ cause, w.take.1 = .error cause := by
  fun_induction SourceWindow.take w with
  | case1 w c found =>
    obtain ⟨inside, split⟩ := unread_eq_cons found
    obtain ⟨bytes, off, rfl⟩ := breaks.text
    rw [split]
    have sound : Sound { w with cursor := w.cursor + 1 } :=
      ⟨Nat.le_succ_of_le breaks.lineStart_le, inside, breaks.kept_back⟩
    exact .inl ⟨c, _, rfl, rfl, sound, breaks.running, bytes, off, rfl⟩
  | case2 w none_ cause w' filled =>
    have refilled := breaks.fill
    simp only [filled] at refilled
    obtain ⟨other, _⟩ | ⟨_, same⟩ := refilled
    · cases other
    · exact .inr ⟨same.trans (unread_eq_nil none_), cause, rfl⟩
  | case3 w none_ w' filled =>
    have refilled := breaks.fill
    simp [filled] at refilled
  | case4 w none_ w' filled ih =>
    have refilled := breaks.fill
    simp only [filled] at refilled
    obtain ⟨_, breaks'⟩ | ⟨⟨_, other⟩, _⟩ := refilled
    · exact ih breaks'
    · cases other

theorem Breaks.take_ok (breaks : w.Breaks text) {answer : Option Char} (took : w.take.1 = .ok answer) :
    ∃ c rest, answer = some c ∧ text = c :: rest ∧ w.take.2.Breaks rest := by
  obtain ⟨c, rest, split, taken, breaks'⟩ | ⟨_, cause, failed⟩ := breaks.take
  · cases took.symm.trans taken
    exact ⟨c, rest, rfl, split, breaks'⟩
  · cases took.symm.trans failed

theorem Breaks.beginLine (breaks : w.Breaks text) : w.beginLine.Breaks text :=
  ⟨breaks.toSound.beginLine, breaks.running, breaks.text⟩

theorem Breaks.clearLog (breaks : w.Breaks text) : { w with log := [] }.Breaks text :=
  ⟨breaks.toSound.clearLog, breaks.running, breaks.text⟩

/-- The first window breaks off inside the text of the second. -/
def BreaksInside (w v : SourceWindow) : Prop := ∃ text more, w.Breaks text ∧ v.Holds (text ++ more)

/-- Both windows break off after the same text. -/
def BreakAlike (w v : SourceWindow) : Prop := ∃ text, w.Breaks text ∧ v.Breaks text

theorem breaksInside_simulation : WindowSimulation BreaksInside where
  take := by
    rintro w v ⟨text, more, breaks, holds⟩ answer took
    obtain ⟨c, rest, rfl, rfl, breaks'⟩ := breaks.take_ok took
    obtain ⟨handed, holds'⟩ := holds.take
    exact ⟨handed, rest, more, breaks', holds'⟩
  beginLine := fun ⟨text, more, breaks, holds⟩ => ⟨text, more, breaks.beginLine, holds.beginLine⟩
  clearLog := fun ⟨text, more, breaks, holds⟩ => ⟨text, more, breaks.clearLog, holds.clearLog⟩

theorem breakAlike_simulation : WindowSimulation BreakAlike where
  take := by
    rintro w v ⟨text, first, second⟩ answer took
    obtain ⟨c, rest, rfl, rfl, first'⟩ := first.take_ok took
    obtain ⟨_, _, split, handed, second'⟩ | ⟨none_, _⟩ := second.take
    · cases split
      exact ⟨handed, rest, first', second'⟩
    · cases none_
  beginLine := fun ⟨text, first, second⟩ => ⟨text, first.beginLine, second.beginLine⟩
  clearLog := fun ⟨text, first, second⟩ => ⟨text, first.clearLog, second.clearLog⟩

end SourceWindow
end EcmaLex
