import EcmaLex.Proofs.Source.Simulation
import EcmaLex.SourceBuffer

/-!
A source buffer sees its input only by taking characters from its window. So what one window confirms
of another, a buffer over the one confirms of the same buffer over the other
(`WindowSimulation.partialSimulation`).
-/
namespace EcmaLex
open Text

/-- The second of two related windows hands out what the first does, as long as the first does not fail.
Where the lines begin and what has been reported does not matter. -/
structure WindowSimulation (Q : SourceWindow → SourceWindow → Prop) : Prop where
  take {w v} : Q w v → Confirms Q w.take v.take
  beginLine {w v} : Q w v → Q w.beginLine v.beginLine
  clearLog {w v} : Q w v → Q { w with log := [] } { v with log := [] }

namespace SourceBuffer

section
variable {skipFormat : Bool} {b : SourceBuffer} {window : SourceWindow}

theorem next_given {c : Char} {loc : Location} {pushback : List (Char × Location)}
    (given : b.pushback = (c, loc) :: pushback) :
    b.next skipFormat =
      if skipFormat && isFormatControl c then next skipFormat { b with pushback }
      else (.ok (some c), handOut c loc { b with pushback }) := by
  rw [next]
  split <;> simp_all

theorem next_end (given : b.pushback = []) (took : b.window.take = (.ok none, window)) :
    b.next skipFormat = (.ok none, reachEnd { b with window }) := by
  rw [next]
  split <;> simp_all
  split <;> simp_all

theorem next_raw {raw : Char} (given : b.pushback = [])
    (took : b.window.take = (.ok (some raw), window)) :
    b.next skipFormat =
      match b.tracker.advance raw with
      | (.absorbed, tracker) => next skipFormat { b with window, tracker }
      | (.char c loc opensLine, tracker) =>
        if skipFormat && isFormatControl c then next skipFormat (b.place window tracker opensLine)
        else (.ok (some c), handOut c loc (b.place window tracker opensLine)) := by
  rw [next]
  split
  · simp_all
  · split
    · rename_i found
      cases took.symm.trans found
    · rename_i found
      cases took.symm.trans found
    · rename_i found
      cases took.symm.trans found
      rfl

end

variable {Q : SourceWindow → SourceWindow → Prop} {b d : SourceBuffer} {v window : SourceWindow}

/-- The same buffer over a related window. -/
def Over (Q : SourceWindow → SourceWindow → Prop) (b d : SourceBuffer) : Prop :=
  ∃ v, Q b.window v ∧ d = { b with window := v }

theorem Over.handOut (above : Over Q b d) (c : Char) (loc : Location) :
    Over Q (b.handOut c loc) (d.handOut c loc) := by
  obtain ⟨v, related, rfl⟩ := above
  exact ⟨v, related, rfl⟩

theorem Over.place (sim : WindowSimulation Q) (related : Q window v) (old : SourceWindow)
    (tracker : LineTracker) (opensLine : Bool) :
    Over Q (b.place window tracker opensLine) ({ b with window := old }.place v tracker opensLine) := by
  cases opensLine with
  | false => exact ⟨v, related, rfl⟩
  | true => exact ⟨v.beginLine, sim.beginLine related, rfl⟩

theorem Over.putBack (above : Over Q b d) (c : Char) : Over Q (b.putBack c) (d.putBack c) := by
  obtain ⟨v, related, rfl⟩ := above
  unfold SourceBuffer.putBack
  cases b.taken with
  | nil => exact ⟨v, related, rfl⟩
  | cons m taken => exact ⟨v, related, rfl⟩

theorem Over.next (sim : WindowSimulation Q) (above : Over Q b d) (skipFormat : Bool) :
    Confirms (Over Q) (b.next skipFormat) (d.next skipFormat) := by
  fun_induction SourceBuffer.next skipFormat b generalizing d with
  | case1 b c loc pushback given passed ih =>
    obtain ⟨v, related, rfl⟩ := above
    rw [next_given (b := { b with window := v }) given, if_pos passed]
    exact ih ⟨v, related, rfl⟩
  | case2 b c loc pushback given kept =>
    obtain ⟨v, related, rfl⟩ := above
    rw [next_given (b := { b with window := v }) given, if_neg kept]
    have rest : Over Q { b with pushback } { b with window := v, pushback } := ⟨v, related, rfl⟩
    exact .ok (rest.handOut c loc) (some c)
  | case3 b given cause window took => exact .error cause _
  | case4 b given window took =>
    obtain ⟨v, related, rfl⟩ := above
    obtain ⟨v', took', related'⟩ := (sim.take related).answer took
    rw [next_end (b := { b with window := v }) given took']
    exact .ok ⟨v', related', rfl⟩ none
  | case5 b given raw window took tracker advanced ih =>
    obtain ⟨v, related, rfl⟩ := above
    obtain ⟨v', took', related'⟩ := (sim.take related).answer took
    rw [next_raw (b := { b with window := v }) given took', advanced]
    exact ih ⟨v', related', rfl⟩
  | case6 b given raw window took c loc opensLine tracker advanced passed ih =>
    obtain ⟨v, related, rfl⟩ := above
    obtain ⟨v', took', related'⟩ := (sim.take related).answer took
    rw [next_raw (b := { b with window := v }) given took', advanced]
    simp only [passed, if_true]
    exact ih (.place sim related' v tracker opensLine)
  | case7 b given raw window took c loc opensLine tracker advanced kept =>
    obtain ⟨v, related, rfl⟩ := above
    obtain ⟨v', took', related'⟩ := (sim.take related).answer took
    rw [next_raw (b := { b with window := v }) given took', advanced]
    simp only [kept]
    exact .ok ((Over.place sim related' v tracker opensLine).handOut c loc) (some c)

end SourceBuffer

/-- What a window confirms of another carries over to the buffers above them. -/
theorem WindowSimulation.partialSimulation {Q : SourceWindow → SourceWindow → Prop}
    (sim : WindowSimulation Q) : PartialSimulation (SourceBuffer.Over Q) where
  next above skipFormat := above.next sim skipFormat
  putBack above c := above.putBack c
  beginLexeme := fun ⟨v, related, same⟩ => ⟨v, related, same ▸ rfl⟩
  lexeme := fun ⟨_, _, same⟩ => same ▸ rfl
  lexemeStart := fun ⟨_, _, same⟩ => same ▸ rfl
  here := fun ⟨_, _, same⟩ => same ▸ rfl

end EcmaLex
