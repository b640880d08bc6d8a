import EcmaLex.Proofs.Source.Simulation
import EcmaLex.Proofs.Source.Tape
import EcmaLex.Proofs.Source.WindowText
import EcmaLex.SourceBuffer

/-!
A source buffer behaves like a tape: like the whole text with its places, read from the front. Windows,
refills, held-back bytes and pending terminators are not to be seen through its operations
(`SourceBuffer.simulation`).
-/
namespace EcmaLex
open Text

namespace SourceBuffer

/-- What a buffer will hand out is what lies ahead on the tape: the characters given back, and then the
raw characters of its window as its tracker will place them. -/
structure OnTape (b : SourceBuffer) (raw : List Char) (t : Tape) : Prop where
  holds : b.window.Holds raw
  ahead : t.ahead = b.pushback ++ b.tracker.marks raw
  taken : t.taken = b.taken
  last : t.last = b.last
  ending : t.ending = b.tracker.ending raw

/-- The buffer and the tape are at the same point of the same text. -/
def Follows (b : SourceBuffer) (t : Tape) : Prop := ∃ raw, b.OnTape raw t

theorem Follows.ofReader {reader : ByteReader} {bytes : List UInt8}
    (delivers : Delivers reader.script bytes) (capacity : Nat) (startLine : UInt32) :
    (ofReader reader capacity startLine).Follows
      (.ofText startLine (normalize (Utf8.lossy bytes))) :=
  ⟨Utf8.lossy bytes, .ofReader delivers _ _, (LineTracker.marks_start _ _).1.symm, rfl, rfl,
    (LineTracker.marks_start _ _).2.symm⟩

theorem OnTape.place {b : SourceBuffer} {raw : Char} {text : List Char} {t : Tape}
    (onTape : b.OnTape (raw :: text) t) {window : SourceWindow} (holds : window.Holds text)
    {c : Char} {loc : Location} {opensLine : Bool} {tracker : LineTracker}
    (advanced : b.tracker.advance raw = (.char c loc opensLine, tracker)) (given : b.pushback = []) :
    t.ahead = (c, loc) :: tracker.marks text ∧
      (b.place window tracker opensLine).OnTape text { t with ahead := tracker.marks text } := by
  have ahead := onTape.ahead
  have ending := onTape.ending
  rw [given, List.nil_append, LineTracker.marks, advanced] at ahead
  rw [LineTracker.ending, advanced] at ending
  refine ⟨ahead, ?_, by simp [SourceBuffer.place, given], onTape.taken, onTape.last, ending⟩
  cases opensLine with
  | false => exact holds
  | true => exact holds.beginLine

theorem OnTape.handOut {b : SourceBuffer} {raw : List Char} {t : Tape} (onTape : b.OnTape raw t)
    (c : Char) (loc : Location) :
    (b.handOut c loc).OnTape raw { t with taken := (c, loc) :: t.taken, last := loc } :=
  ⟨onTape.holds, onTape.ahead, congrArg _ onTape.taken, rfl, onTape.ending⟩

theorem OnTape.next {b : SourceBuffer} {raw : List Char} {t : Tape} (onTape : b.OnTape raw t)
    (skipFormat : Bool) : Agree Follows (b.next skipFormat) (CharSource.next skipFormat t) := by
  fun_induction SourceBuffer.next skipFormat b generalizing raw t with
  | case1 b c loc pushback given passed ih =>
    have ahead := onTape.ahead
    rw [given, List.cons_append] at ahead
    rw [Tape.next_dropped ahead passed]
    exact ih ⟨onTape.holds, rfl, onTape.taken, onTape.last, onTape.ending⟩
  | case2 b c loc pushback given kept =>
    have ahead := onTape.ahead
    rw [given] at ahead
    rw [Tape.next_kept ahead (eq_false_of_ne_true kept)]
    have rest : { b with pushback }.OnTape raw { t with ahead := pushback ++ b.tracker.marks raw } :=
      ⟨onTape.holds, rfl, onTape.taken, onTape.last, onTape.ending⟩
    exact ⟨rfl, raw, rest.handOut c loc⟩
  | case3 b given cause window took => exact absurd took onTape.holds.take_error
  | case4 b given window took =>
    obtain ⟨rfl, holds⟩ := onTape.holds.take_end took
    have ahead := onTape.ahead
    rw [given] at ahead
    rw [Tape.next_end (by simp [ahead, LineTracker.marks])]
    refine ⟨rfl, [], holds, ?_, onTape.taken, onTape.ending, ?_⟩
    · simp [reachEnd, given, LineTracker.marks]
    · exact onTape.ending.trans b.tracker.ending_finish.symm
  | case5 b given c window took tracker advanced ih =>
    obtain ⟨text, rfl, holds⟩ := onTape.holds.take_char took
    refine ih ⟨holds, ?_, onTape.taken, onTape.last, ?_⟩
    · rw [onTape.ahead, LineTracker.marks, advanced]
    · rw [onTape.ending, LineTracker.ending, advanced]
  | case6 b given raw' window took c loc opensLine tracker advanced passed ih =>
    obtain ⟨text, rfl, holds⟩ := onTape.holds.take_char took
    obtain ⟨ahead, placed⟩ := onTape.place holds advanced given
    rw [Tape.next_dropped ahead passed]
    exact ih placed
  | case7 b given raw' window took c loc opensLine tracker advanced kept =>
    obtain ⟨text, rfl, holds⟩ := onTape.holds.take_char took
    obtain ⟨ahead, placed⟩ := onTape.place holds advanced given
    rw [Tape.next_kept ahead (eq_false_of_ne_true kept)]
    exact ⟨rfl, text, placed.handOut c loc⟩

/-- A buffer answers every operation as the tape does that it follows. -/
theorem simulation : Simulation Follows where
  next := fun ⟨_, onTape⟩ skipFormat => onTape.next skipFormat
  putBack := by
    rintro b t ⟨raw, onTape⟩ c
    refine ⟨raw, ?_⟩
    change (b.putBack c).OnTape raw (t.putBack c)
    unfold SourceBuffer.putBack Tape.putBack
    rw [onTape.taken]
    cases b.taken with
    | nil =>
      exact ⟨onTape.holds, by simp [onTape.ahead, onTape.last], rfl, onTape.last, onTape.ending⟩
    | cons m taken =>
      exact ⟨onTape.holds, by simp [onTape.ahead], rfl, onTape.last, onTape.ending⟩
  beginLexeme := fun ⟨raw, onTape⟩ =>
    ⟨raw, onTape.holds, onTape.ahead, rfl, onTape.last, onTape.ending⟩
  lexeme := by
    rintro b t ⟨raw, onTape⟩
    change b.lexeme = marked t.taken.reverse
    rw [onTape.taken]
    rfl
  lexemeStart := by
    rintro b t ⟨raw, onTape⟩
    change b.lexemeStart = t.lexemeStart
    unfold SourceBuffer.lexemeStart Tape.lexemeStart
    rw [onTape.taken, onTape.last]
    rfl
  here := fun ⟨_, onTape⟩ => onTape.last.symm

end SourceBuffer
end EcmaLex
