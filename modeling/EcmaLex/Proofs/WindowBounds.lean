import EcmaLex.Proofs.Source.ReadHead

/-!
The window of a buffer is never too large, and its indices stand in order. What it drops to make room is read
and belongs to finished lines.
-/
namespace EcmaLex
open Text SourceWindow

/-- What a window is in a buffer over an input with this text. -/
structure InBounds (text : List Char) (h : WindowHistory) (w : SourceWindow) : Prop where
  lineStart_le : w.lineStart ≤ w.cursor
  cursor_le : w.cursor ≤ w.chars.size
  size_le : w.chars.size ≤ w.capacity + 1
  /-- The characters moved into the window are the first of the text. -/
  front : h.moved <+: text
  moved : h.moved = h.handed ++ w.unread
  suffix : w.chars.toList <:+ h.moved
  /-- The current line is the one of the character handed out last, from its first character on. -/
  line : w.chars.toList.drop w.lineStart = lastLine h.handed ++ w.unread
  /-- That line is a line of the text, and it begins there where it does in the text. -/
  current : h.handed ≠ [] → ∃ earlier whole later, lines text = earlier ++ whole :: later ∧
    h.handed = earlier.flatten ++ lastLine h.handed ∧ lastLine h.handed <+: whole
  /-- The finished lines can be dropped. -/
  reclaim : w.reclaim.unread = w.unread ∧ w.reclaim.chars.toList = lastLine h.handed ++ w.unread
  room : w.makeRoom.chars.size < w.makeRoom.capacity
  /-- The character taken last, which may begin a line, is the one before the cursor. -/
  took : ∀ c w', w.take = (.ok (some c), w') → 0 < w'.cursor

theorem SourceWindow.cursor_of_take {w w' : SourceWindow} {c : Char} (took : w.take = (.ok (some c), w')) :
    0 < w'.cursor := by
  have taken : Taken (fun _ => True) w.take := taken_of_refill (fun _ _ => trivial) trivial
  rw [took] at taken
  cases taken with
  | handed _ found => exact Nat.succ_pos _

theorem HeadState.inBounds {text : List Char} {h : WindowHistory} {w : SourceWindow} {t : LineTracker}
    (state : HeadState text h w t) : InBounds text h w where
  lineStart_le := state.sound.lineStart_le
  cursor_le := state.sound.cursor_le
  size_le := state.size_le
  front := state.front
  moved := state.moved
  suffix := state.suffix
  line := state.line
  current := by
    intro some_
    obtain ⟨raw, _, rfl⟩ := state.held
    obtain ⟨earlier, whole, later, split, same, front⟩ := lines_append some_ raw
    exact ⟨earlier, whole, later, split, text_of_split same, front⟩
  reclaim := ⟨reclaim_unread state.sound.lineStart_le, w.reclaim_chars.trans state.line⟩
  room := w.makeRoom_room
  took _ _ := cursor_of_take

/-- Whatever is asked of a new buffer, whether its reads fail or not, its window stays in bounds. -/
theorem window_inBounds (reader : ByteReader) (capacity : Nat) (line : UInt32) (calls : List SourceBuffer.Call) :
    let b := (SourceBuffer.ofReader reader capacity line).called calls
    (∃ h, HeadRun reader (max capacity 1) line True h b.window b.tracker) ∧
      ∀ h, HeadRun reader (max capacity 1) line True h b.window b.tracker →
        InBounds (Utf8.lossy (ByteReader.contents reader.script)) h b.window := by
  intro b
  constructor
  · have opened := SourceBuffer.Runs.ofReader reader capacity line True
    exact opened.called fun _ => trivial
  · intro h run
    exact run.state.inBounds

/-- A beginning of a sequence that the next byte does not continue leaves the window one past its capacity.
The character behind it is unread, and the read after that fails. -/
theorem window_inBounds_past :
    let reader : ByteReader := { script := [.piece [0xC3], .piece [0x61], .failure ⟨"", ""⟩] }
    let b := (SourceBuffer.ofReader reader 0 1).called [.next false]
    b.window.chars.size = b.window.capacity + 1 ∧
      ∃ h, HeadRun reader 1 1 True h b.window b.tracker ∧
        InBounds (Utf8.lossy (ByteReader.contents reader.script)) h b.window := by
  intro reader b
  obtain ⟨⟨h, run⟩, bounds⟩ := window_inBounds reader 0 1 [.next false]
  exact ⟨by decide +kernel, h, run, bounds h run⟩

end EcmaLex
