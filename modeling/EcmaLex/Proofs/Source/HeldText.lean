import EcmaLex.Proofs.Source.Mended

/-!
The raw characters that a window over any reader will hand out, whether its reads fail or not. A read that
fails leaves them as they were, and its failure is one of the script (`Held.take_error`, `FailsAs.take_error`).
-/
namespace EcmaLex
open Text

namespace SourceWindow

variable {w w' : SourceWindow} {cause : ReadFailure} {text : List Char} {script : List Delivery}

/-- The raw characters still to be taken are this text, however many of the reads in between fail. -/
def Held (w : SourceWindow) (text : List Char) : Prop := ∃ v, Mends w v ∧ v.Holds text

theorem Held.ofReader (reader : ByteReader) (capacity : Nat) (capacity_pos : 0 < capacity) :
    Held { reader, capacity, capacity_pos } (Utf8.lossy (ByteReader.contents reader.script)) :=
  ⟨_, ⟨{ script := ByteReader.mended reader.script }, rfl, rfl⟩,
    .ofReader (ByteReader.delivers_mended _) capacity capacity_pos⟩

theorem Held.sound (held : w.Held text) : w.Sound := by
  obtain ⟨_, ⟨_, _, rfl⟩, holds⟩ := held
  exact ⟨holds.lineStart_le, holds.cursor_le, holds.kept_back⟩

theorem Held.unread_prefix (held : w.Held text) : w.unread <+: text := by
  obtain ⟨_, ⟨_, _, rfl⟩, holds⟩ := held
  obtain ⟨bytes, _, rfl⟩ := holds.text
  exact List.prefix_append _ _

theorem Held.hand {c : Char} (held : w.Held text) (found : w.chars[w.cursor]? = some c) :
    ∃ rest, text = c :: rest ∧ { w with cursor := w.cursor + 1 }.Held rest := by
  obtain ⟨v, mends, holds⟩ := held
  obtain ⟨rest, split, holds'⟩ := holds.take_char (take_held (mends.next?.trans found))
  exact ⟨rest, split, _, mends.hand, holds'⟩

theorem Held.beginLine (held : w.Held text) : w.beginLine.Held text := by
  obtain ⟨v, mends, holds⟩ := held
  exact ⟨_, mends.beginLine, holds.beginLine⟩

theorem Held.clearLog (held : w.Held text) : { w with log := [] }.Held text := by
  obtain ⟨v, mends, holds⟩ := held
  exact ⟨_, mends.clearLog, holds.clearLog⟩

/-- A read that fails leaves the text as it was. -/
theorem Held.fill_error (held : w.Held text) (failed : w.fill = (.error cause, w')) : w'.Held text := by
  obtain ⟨_, ⟨reader, script, rfl⟩, holds⟩ := held
  obtain ⟨running, rest, read, rfl⟩ := SourceWindow.fill_error failed
  have delivered := ByteReader.deliver_of_read read
  have room := holds.makeRoom
  rw [makeRoom_withReader] at room
  obtain ⟨bytes, awaits, split⟩ := room.text
  have exhausted : (w.makeRoom.withReader reader).exhausted = false := w.makeRoom_exhausted.trans running
  rw [Awaits, if_neg (by simp [exhausted])] at awaits
  change Delivers reader.script bytes at awaits
  rw [script] at awaits
  refine ⟨_, ⟨{ script := ByteReader.mended rest.script }, rfl, rfl⟩, ?_, bytes, ?_, split⟩
  · exact ⟨room.lineStart_le, room.cursor_le, room.kept_back⟩
  · rw [Awaits, if_neg (by simpa [withReader] using exhausted)]
    exact ByteReader.delivers_of_failed delivered awaits

theorem Held.fill (held : w.Held text) : w.fill.2.Held text := by
  rcases filled : w.fill with ⟨cause | more, w'⟩
  · exact held.fill_error filled
  · obtain ⟨v, mends, holds⟩ := held
    obtain ⟨v', answer, related⟩ := mends.fill.confirms.answer filled
    have refilled := holds.fill.1
    rw [answer] at refilled
    exact ⟨v', related, refilled⟩

theorem Held.take_error (held : w.Held text) (failed : w.take = (.error cause, w')) : w'.Held text := by
  fun_induction SourceWindow.take w with
  | case1 w c found => cases failed
  | case2 w none_ cause' w'' filled =>
    cases failed
    exact held.fill_error filled
  | case3 w none_ w'' filled => cases failed
  | case4 w none_ w'' filled ih =>
    have refilled := held.fill
    rw [filled] at refilled
    exact ih refilled failed

/-- A window hands out its text, character by character, and then the end of input. -/
theorem Held.take_ok {answer : Option Char} (held : w.Held text) (took : w.take = (.ok answer, w')) :
    answer = text.head? ∧ w'.Held text.tail := by
  obtain ⟨v, mends, holds⟩ := held
  obtain ⟨v', taken, related⟩ := mends.take.confirms.answer took
  have handed := holds.take
  rw [taken] at handed
  exact ⟨Except.ok.inj handed.1, v', related, handed.2⟩

/-- All failures that the reader still has in store are in this script. -/
def FailsAs (script : List Delivery) (w : SourceWindow) : Prop :=
  ∀ cause, .failure cause ∈ w.reader.script → .failure cause ∈ script

theorem FailsAs.fill (fails : w.FailsAs script) : w.fill.2.FailsAs script := by
  by_cases exhausted : w.exhausted = true
  · rw [fill_exhausted exhausted]
    exact fails
  · rcases delivered : ByteReader.deliver w.room w.reader.script with ⟨result, rest⟩
    rw [fill_running (eq_false_of_ne_true exhausted) (ByteReader.read_of_deliver delivered)]
    intro cause among
    exact fails cause (ByteReader.failures_of_deliver delivered among)

theorem failsAs_invariant (script : List Delivery) : Invariant (FailsAs script) where
  fill fails := fails.fill
  hand fails _ := fails
  beginLine fails := fails
  collect fails := fails

theorem FailsAs.take_error (fails : w.FailsAs script)
    (failed : w.take = (.error cause, w')) : .failure cause ∈ script := by
  fun_induction SourceWindow.take w with
  | case1 w c found => cases failed
  | case2 w none_ cause' w'' filled =>
    cases failed
    obtain ⟨_, rest, read, _⟩ := SourceWindow.fill_error filled
    exact fails cause (ByteReader.failure_of_deliver (ByteReader.deliver_of_read read))
  | case3 w none_ w'' filled => cases failed
  | case4 w none_ w'' filled ih =>
    have refilled := fails.fill
    rw [filled] at refilled
    exact ih refilled failed

end SourceWindow

namespace SourceBuffer

theorem failure_of_next {skipFormat : Bool} {b b' : SourceBuffer} {cause : ReadFailure}
    {script : List Delivery} (fails : b.window.FailsAs script) (failed : b.next skipFormat = (.error cause, b')) :
    .failure cause ∈ script := by
  have inv := SourceWindow.failsAs_invariant script
  fun_induction SourceBuffer.next skipFormat b with
  | case1 b c loc pushback given passed ih => exact ih fails failed
  | case2 b c loc pushback given kept => cases failed
  | case3 b given cause' window took =>
    cases failed
    exact fails.take_error took
  | case4 b given window took => cases failed
  | case5 b given raw window took tracker advanced ih =>
    have taken := inv.take fails
    rw [took] at taken
    exact ih taken failed
  | case6 b given raw window took c loc opensLine tracker advanced passed ih =>
    have taken := inv.take fails
    rw [took] at taken
    exact ih (place_window inv taken tracker opensLine) failed
  | case7 b given raw window took c loc opensLine tracker advanced kept => cases failed

end SourceBuffer
end EcmaLex
