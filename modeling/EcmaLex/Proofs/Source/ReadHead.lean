import EcmaLex.Proofs.Source.HeldText
import EcmaLex.Proofs.Source.ScanInvariants
import EcmaLex.Proofs.Text.TrackedLines
import EcmaLex.Proofs.Text.Utf8Sequences

/-!
The read head of a buffer: its window and its tracker. The tracker tells the window where lines begin, so
the window keeps the line of the character handed out last from its first character on (`HeadRun.state`).
-/
namespace EcmaLex
open Text

namespace SourceWindow

/-- Hands out a character that opens a line or does not. -/
def handOut (w : SourceWindow) (opensLine : Bool) : SourceWindow :=
  if opensLine then { w with cursor := w.cursor + 1 }.beginLine else { w with cursor := w.cursor + 1 }

end SourceWindow

/-- The windows and trackers that come from new ones over `reader`, with the history of the window. Unless
it may be refilled `anytime`, the window is refilled only once all of it is handed out. -/
inductive HeadRun (reader : ByteReader) (capacity : Nat) (line : UInt32) (anytime : Prop) :
    WindowHistory → SourceWindow → LineTracker → Prop
  | opened (capacity_pos : 0 < capacity) :
      HeadRun reader capacity line anytime {} { reader, capacity, capacity_pos } (.start line)
  | refill {h w t} : HeadRun reader capacity line anytime h w t → anytime ∨ w.chars[w.cursor]? = none →
      HeadRun reader capacity line anytime { h with moved := h.moved ++ w.arrivals } w.fill.2 t
  | hand {h w t c} : HeadRun reader capacity line anytime h w t → w.chars[w.cursor]? = some c →
      HeadRun reader capacity line anytime { h with handed := h.handed ++ [c] }
        (w.handOut (t.advance c).1.opensLine) (t.advance c).2
  | finish {h w t} : HeadRun reader capacity line anytime h w t → w.Ended →
      HeadRun reader capacity line anytime h w t.finish
  | collect {h w t} : HeadRun reader capacity line anytime h w t →
      HeadRun reader capacity line anytime { h with collected := h.collected ++ w.log.reverse }
        { w with log := [] } t

namespace SourceWindow

variable {P : SourceWindow → Prop} {w : SourceWindow}

/-- What taking a character comes to, if `P` is kept by refills. -/
inductive Taken (P : SourceWindow → Prop) : Except ReadFailure (Option Char) × SourceWindow → Prop
  | failed {w : SourceWindow} {cause : ReadFailure} : P w → Taken P (.error cause, w)
  | ended {w : SourceWindow} : P w → w.Ended → Taken P (.ok none, w)
  | handed {w : SourceWindow} {c : Char} : P w → w.chars[w.cursor]? = some c →
      Taken P (.ok (some c), { w with cursor := w.cursor + 1 })

theorem taken_of_refill (refill : ∀ {w : SourceWindow}, P w → w.chars[w.cursor]? = none → P w.fill.2)
    (before : P w) : Taken P w.take := by
  fun_induction take w with
  | case1 w c found => exact .handed before found
  | case2 w none_ cause w' filled =>
    have refilled := refill before none_
    rw [filled] at refilled
    exact .failed refilled
  | case3 w none_ w' filled =>
    have refilled := refill before none_
    rw [filled] at refilled
    exact .ended refilled (ended_of_fill none_ filled)
  | case4 w none_ w' filled ih =>
    have refilled := refill before none_
    rw [filled] at refilled
    exact ih refilled

end SourceWindow

namespace SourceBuffer

/-- The head of the buffer has come from a new one over `reader`. -/
def Runs (reader : ByteReader) (capacity : Nat) (line : UInt32) (anytime : Prop) (b : SourceBuffer) : Prop :=
  ∃ h, HeadRun reader capacity line anytime h b.window b.tracker

variable {reader : ByteReader} {capacity : Nat} {line : UInt32} {anytime : Prop} {b : SourceBuffer}

theorem Runs.ofReader (reader : ByteReader) (capacity : Nat) (line : UInt32) (anytime : Prop) :
    (ofReader reader capacity line).Runs reader (max capacity 1) line anytime :=
  ⟨{}, .opened (by omega)⟩

theorem Runs.taken (runs : b.Runs reader capacity line anytime) :
    SourceWindow.Taken (fun w => ∃ h, HeadRun reader capacity line anytime h w b.tracker) b.window.take :=
  SourceWindow.taken_of_refill (fun ⟨_, run⟩ none_ => ⟨_, run.refill (.inr none_)⟩) runs

theorem Runs.hand (runs : b.Runs reader capacity line anytime) {raw : Char} {window : SourceWindow}
    {a : LineTracker.Advance} {tracker : LineTracker} (took : b.window.take = (.ok (some raw), window))
    (advanced : b.tracker.advance raw = (a, tracker)) :
    (b.place window tracker a.opensLine).Runs reader capacity line anytime := by
  have taken := runs.taken
  rw [took] at taken
  cases taken with
  | handed run found =>
    obtain ⟨h, run⟩ := run
    have handed := run.hand found
    rw [advanced] at handed
    exact ⟨_, handed⟩

theorem Runs.next (runs : b.Runs reader capacity line anytime) (skipFormat : Bool) :
    (b.next skipFormat).2.Runs reader capacity line anytime := by
  fun_induction SourceBuffer.next skipFormat b with
  | case1 b c loc pushback given passed ih => exact ih runs
  | case2 b c loc pushback given kept => exact runs
  | case3 b given cause window took =>
    have taken := runs.taken
    rw [took] at taken
    cases taken with
    | failed run => exact run
  | case4 b given window took =>
    have taken := runs.taken
    rw [took] at taken
    cases taken with
    | ended run ended =>
      obtain ⟨h, run⟩ := run
      exact ⟨h, run.finish ended⟩
  | case5 b given raw window took tracker advanced ih => exact ih (runs.hand took advanced)
  | case6 b given raw window took c loc opensLine tracker advanced passed ih =>
    exact ih (runs.hand took advanced)
  | case7 b given raw window took c loc opensLine tracker advanced kept =>
    exact runs.hand took advanced

theorem runs_invariant (reader : ByteReader) (capacity : Nat) (line : UInt32) (anytime : Prop) :
    ScanInvariant (Runs reader capacity line anytime) where
  next runs skipFormat := runs.next skipFormat
  putBack := by
    intro b runs c
    change (b.putBack c).Runs reader capacity line anytime
    unfold SourceBuffer.putBack
    split <;> exact runs
  beginLexeme runs := runs

theorem Runs.call (runs : b.Runs reader capacity line anytime) {call : Call} (allowed : call = .fill → anytime) :
    (call.run b).Runs reader capacity line anytime := by
  have inv := runs_invariant reader capacity line anytime
  cases call with
  | next skipFormat => exact runs.next skipFormat
  | nextSignificant => exact inv.nextSignificant runs
  | putBack c => exact inv.putBack runs c
  | beginLexeme => exact runs
  | fill =>
    obtain ⟨h, run⟩ := runs
    exact ⟨_, run.refill (.inl (allowed rfl))⟩
  | collect =>
    obtain ⟨h, run⟩ := runs
    exact ⟨_, run.collect⟩

theorem Runs.called (runs : b.Runs reader capacity line anytime) {calls : List Call}
    (allowed : .fill ∈ calls → anytime) : (b.called calls).Runs reader capacity line anytime := by
  induction calls generalizing b with
  | nil => exact runs
  | cons call calls ih =>
    refine ih (runs.call ?_) fun later => allowed (.tail _ later)
    rintro rfl
    exact allowed (.head _)

end SourceBuffer

theorem ByteReader.byteCount_le_room (room : Nat) (script : List Delivery) :
    (deliver room script).1.byteCount ≤ room := by
  fun_induction deliver room script with
  | case1 => exact Nat.zero_le _
  | case2 rest ih => exact ih
  | case3 b tail rest left =>
    simp only [ReadResult.byteCount, List.length_take]
    omega
  | case4 rest => exact Nat.zero_le _
  | case5 rest => exact Nat.zero_le _
  | case6 cause rest => exact Nat.zero_le _

namespace SourceWindow

variable {w : SourceWindow}

theorem reclaim_chars (w : SourceWindow) : w.reclaim.chars.toList = w.chars.toList.drop w.lineStart := by
  rw [reclaim, Array.toList_extract, List.extract_eq_take_drop, List.take_of_length_le (by simp)]

/-- What a read delivers is added behind the characters in the window: as many characters as it has bytes,
and one at most. -/
theorem Sound.accept_adds (sound : w.Sound) (result : ReadResult) :
    ∃ (new : List Char) (undecoded : List UInt8) (exhausted : Bool) (log : List WindowEvent),
      (w.accept result).2 = { w with chars := w.chars ++ new.toArray, undecoded, exhausted, log } ∧
        new.length ≤ result.byteCount + 1 := by
  match result with
  | .interrupted => exact ⟨[], w.undecoded, w.exhausted, w.log, by simp [accept], Nat.zero_le _⟩
  | .failed cause => exact ⟨[], w.undecoded, w.exhausted, w.log, by simp [accept], Nat.zero_le _⟩
  | .bytes (byte :: bytes) =>
    obtain ⟨log, same⟩ := receive_eq w (byte :: bytes)
    refine ⟨_, _, w.exhausted, log, same, ?_⟩
    rw [Utf8.completed, List.length_map]
    exact Utf8.length_decode_held sound.kept_back (byte :: bytes)
  | .bytes [] =>
    unfold accept
    simp only
    split
    · exact ⟨[], w.undecoded, true, w.log, by simp, Nat.zero_le _⟩
    · exact ⟨[Utf8.replacement], [], true, .truncated w.undecoded.length :: w.log, by simp [breakOff],
        Nat.le_refl _⟩

theorem Sound.fill_adds (sound : w.Sound) (running : w.exhausted = false) :
    ∃ (new : List Char) (reader : ByteReader) (undecoded : List UInt8) (exhausted : Bool) (log : List WindowEvent),
      w.fill.2 = { w.makeRoom with
        reader, chars := w.makeRoom.chars ++ new.toArray, undecoded, exhausted, log } ∧
        w.arrivals = new ∧ w.makeRoom.chars.size + new.length ≤ w.makeRoom.capacity + 1 := by
  rcases delivered : ByteReader.deliver w.room w.reader.script with ⟨result, rest⟩
  obtain ⟨new, undecoded, exhausted, log, added, few⟩ := sound.makeRoom.accept_adds result
  have filled := congrArg Prod.snd (fill_running running (ByteReader.read_of_deliver delivered))
  rw [added] at filled
  refine ⟨new, _, undecoded, exhausted, log, filled, ?_, ?_⟩
  · rw [arrivals, if_neg (by simp [running]), filled]
    simp [withReader]
  · have bytes := ByteReader.byteCount_le_room w.room w.reader.script
    rw [delivered] at bytes
    have roomy := w.makeRoom_room
    simp only [room] at bytes
    omega

end SourceWindow

/-- What a window and its tracker are, with this history over an input with this text. -/
structure HeadState (text : List Char) (h : WindowHistory) (w : SourceWindow) (t : LineTracker) : Prop where
  held : ∃ raw, w.Held raw ∧ h.handed ++ raw = text
  size_le : w.chars.size ≤ w.capacity + 1
  moved : h.moved = h.handed ++ w.unread
  suffix : w.chars.toList <:+ h.moved
  line : w.chars.toList.drop w.lineStart = lastLine h.handed ++ w.unread
  waits : w.Ended ∨ t.pending = h.handed.getLast?.filter isLineTerminator

namespace HeadState
open SourceWindow

variable {text : List Char} {h : WindowHistory} {w : SourceWindow} {t : LineTracker} {c : Char}

theorem sound (state : HeadState text h w t) : w.Sound := by
  obtain ⟨raw, held, _⟩ := state.held
  exact held.sound

/-- The characters moved into the window are the first of the text. -/
theorem front (state : HeadState text h w t) : h.moved <+: text := by
  obtain ⟨raw, held, rfl⟩ := state.held
  rw [state.moved, List.prefix_append_right_inj]
  exact held.unread_prefix

theorem opened (reader : ByteReader) (capacity : Nat) (line : UInt32) (capacity_pos : 0 < capacity) :
    HeadState (Utf8.lossy (ByteReader.contents reader.script)) {} { reader, capacity, capacity_pos }
      (.start line) where
  held := ⟨_, .ofReader reader capacity capacity_pos, rfl⟩
  size_le := Nat.zero_le _
  moved := rfl
  suffix := List.suffix_rfl
  line := rfl
  waits := .inr rfl

/-- Making room drops nothing but finished lines. -/
theorem makeRoom (state : HeadState text h w t) :
    w.makeRoom.chars.toList <:+ h.moved ∧
      w.makeRoom.chars.toList.drop w.makeRoom.lineStart = lastLine h.handed ++ w.makeRoom.unread := by
  rw [state.sound.makeRoom_unread]
  obtain ⟨_, _, _, same | same⟩ := makeRoom_cases w <;> rw [same]
  · exact ⟨state.suffix, state.line⟩
  · have kept := w.reclaim_chars
    refine ⟨?_, ?_⟩
    · exact kept ▸ (List.drop_suffix _ _).trans state.suffix
    · exact kept ▸ state.line

theorem refill (state : HeadState text h w t) :
    HeadState text { h with moved := h.moved ++ w.arrivals } w.fill.2 t := by
  obtain ⟨raw, held, whole⟩ := state.held
  by_cases exhausted : w.exhausted = true
  · rw [fill_exhausted exhausted, arrivals, if_pos exhausted, List.append_nil]
    exact state
  · have running := eq_false_of_ne_true exhausted
    have sound := state.sound.makeRoom
    obtain ⟨new, reader, undecoded, ended, log, filled, arrived, few⟩ := state.sound.fill_adds running
    obtain ⟨suffix, line⟩ := state.makeRoom
    have unread : w.fill.2.unread = w.makeRoom.unread ++ new :=
      sound.unread_append (by rw [filled]) (by rw [filled])
    have refilled := held.fill
    rw [arrived]
    refine ⟨⟨raw, refilled, whole⟩, ?_, ?_, ?_, ?_, ?_⟩
    · rw [filled, Array.size_append, List.size_toArray]
      exact few
    · rw [unread, state.sound.makeRoom_unread, state.moved, List.append_assoc]
    · obtain ⟨earlier, split⟩ := suffix
      refine ⟨earlier, ?_⟩
      rw [filled, ← split]
      simp
    · have inside : w.makeRoom.lineStart ≤ w.makeRoom.chars.toList.length := by
        simpa using Nat.le_trans sound.lineStart_le sound.cursor_le
      rw [unread, ← List.append_assoc, ← line, filled]
      simp [List.drop_append_of_le_length inside]
    · refine .inr (state.waits.resolve_left fun ended => ?_)
      exact exhausted ended.exhausted

theorem hand (state : HeadState text h w t) (found : w.chars[w.cursor]? = some c) :
    HeadState text { h with handed := h.handed ++ [c] } (w.handOut (t.advance c).1.opensLine) (t.advance c).2 := by
  obtain ⟨raw, held, whole⟩ := state.held
  obtain ⟨rest, rfl, held'⟩ := held.hand found
  obtain ⟨_, unread⟩ := unread_eq_cons found
  have waits : t.pending = h.handed.getLast?.filter isLineTerminator :=
    state.waits.resolve_left fun ended => by simp [ended.drained] at found
  have pending := LineTracker.advance_pending t h.handed c
  have line := LineTracker.advance_lastLine waits c
  have moved : h.moved = (h.handed ++ [c]) ++ { w with cursor := w.cursor + 1 }.unread := by
    rw [state.moved, unread]
    simp
  have text : (h.handed ++ [c]) ++ rest = text := by
    rw [← whole]
    simp
  cases opens : (t.advance c).1.opensLine with
  | false =>
    rw [opens] at line
    refine ⟨⟨rest, held', text⟩, state.size_le, moved, state.suffix, ?_, .inr pending⟩
    change w.chars.toList.drop w.lineStart = _
    rw [state.line, unread, line]
    simp [handOut]
  | true =>
    rw [opens] at line
    refine ⟨⟨rest, held'.beginLine, text⟩, state.size_le, moved, state.suffix, ?_, .inr pending⟩
    change w.unread = _
    rw [unread, line]
    rfl

theorem finish (state : HeadState text h w t) (ended : w.Ended) : HeadState text h w t.finish :=
  ⟨state.held, state.size_le, state.moved, state.suffix, state.line, .inl ended⟩

theorem collect (state : HeadState text h w t) :
    HeadState text { h with collected := h.collected ++ w.log.reverse } { w with log := [] } t := by
  obtain ⟨raw, held, whole⟩ := state.held
  refine ⟨⟨raw, held.clearLog, whole⟩, state.size_le, state.moved, state.suffix, state.line, ?_⟩
  exact state.waits.imp_left fun ended => ⟨ended.exhausted, ended.drained⟩

end HeadState

theorem HeadRun.state {reader : ByteReader} {capacity : Nat} {line : UInt32} {anytime : Prop} {h : WindowHistory}
    {w : SourceWindow} {t : LineTracker} (run : HeadRun reader capacity line anytime h w t) :
    HeadState (Utf8.lossy (ByteReader.contents reader.script)) h w t := by
  induction run with
  | opened capacity_pos => exact .opened reader capacity line capacity_pos
  | refill _ _ ih => exact ih.refill
  | hand _ found ih => exact ih.hand found
  | finish _ ended ih => exact ih.finish ended
  | collect _ ih => exact ih.collect

end EcmaLex
