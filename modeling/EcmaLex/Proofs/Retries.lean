import EcmaLex.Proofs.Source.Mended

/-!
A failed call loses nothing. If each call that fails is made again until it succeeds, a buffer answers as it
does over the input without its failures (`insisted_mended`). Each failure uses up a read, so this ends.
-/
namespace EcmaLex

/-- An operation leaves no more reads to be made than there were, and fewer if it fails. -/
def Spends {α : Type} (before after : Nat) : Except ReadFailure α → Prop
  | .ok _ => after ≤ before
  | .error _ => after < before

namespace Spends

variable {α β : Type} {first second third : Nat} {answer : Except ReadFailure α}

theorem after (spends : Spends second third answer) (le : second ≤ first) : Spends first third answer := by
  cases answer with
  | ok result => exact Nat.le_trans spends le
  | error cause => exact Nat.lt_of_lt_of_le spends le

theorem map (spends : Spends first second answer) (f : α → β) : Spends first second (answer.map f) := by
  cases answer with
  | ok result => exact spends
  | error cause => exact spends

end Spends

namespace SourceWindow

variable {w w' : SourceWindow}

theorem fill_spends {answer : Except ReadFailure Bool} (filled : w.fill = (answer, w')) :
    Spends w.pendingReads w'.pendingReads answer := by
  match answer with
  | .error cause =>
    obtain ⟨running, rest, read, rfl⟩ := fill_error filled
    have used := ByteReader.read_pending w.room_pos w.reader (by simp [read])
    rw [read] at used
    refine Nat.lt_of_le_of_lt (pendingReads_le _) ?_
    rw [pendingReads, running]
    exact Nat.succ_lt_succ used
  | .ok true => exact Nat.le_of_lt (fill_pendingReads filled)
  | .ok false =>
    unfold fill at filled
    split at filled
    · cases filled
      exact Nat.le_refl _
    · rw [accept_false filled]
      exact Nat.zero_le _

theorem take_spends {answer : Except ReadFailure (Option Char)} (took : w.take = (answer, w')) :
    Spends w.pendingReads w'.pendingReads answer := by
  fun_induction take w with
  | case1 w c found =>
    cases took
    exact Nat.le_refl _
  | case2 w none_ cause w'' filled =>
    cases took
    exact fill_spends filled
  | case3 w none_ w'' filled =>
    cases took
    exact fill_spends filled
  | case4 w none_ w'' filled ih => exact (ih took).after (fill_spends filled)

end SourceWindow

namespace SourceBuffer
open SourceWindow

variable {b b' d : SourceBuffer}

theorem place_pendingReads (b : SourceBuffer) (window : SourceWindow) (tracker : LineTracker) (opensLine : Bool) :
    (b.place window tracker opensLine).window.pendingReads = window.pendingReads := by
  cases opensLine <;> rfl

theorem next_spends {skipFormat : Bool} {answer : Except ReadFailure (Option Char)}
    (asked : b.next skipFormat = (answer, b')) :
    Spends b.window.pendingReads b'.window.pendingReads answer := by
  fun_induction SourceBuffer.next skipFormat b with
  | case1 b c loc pushback given passed ih => exact ih asked
  | case2 b c loc pushback given kept =>
    cases asked
    exact Nat.le_refl _
  | case3 b given cause window took =>
    cases asked
    exact take_spends took
  | case4 b given window took =>
    cases asked
    exact take_spends took
  | case5 b given raw window took tracker advanced ih => exact (ih asked).after (take_spends took)
  | case6 b given raw window took c loc opensLine tracker advanced passed ih =>
    rw [place_pendingReads] at ih
    exact (ih asked).after (take_spends took)
  | case7 b given raw window took c loc opensLine tracker advanced kept =>
    cases asked
    change (b.place window tracker opensLine).window.pendingReads ≤ _
    rw [place_pendingReads]
    exact take_spends took

theorem nextSignificant_spends {answer : Except ReadFailure (Option Char)}
    (asked : CharSource.nextSignificant b = (answer, b')) :
    Spends b.window.pendingReads b'.window.pendingReads answer := by
  fun_induction CharSource.nextSignificant b with
  | case1 b c b'' taken blank ih => exact (ih asked).after (next_spends (b := b.beginLexeme) taken)
  | case2 b c b'' taken significant =>
    cases asked
    exact next_spends (b := b.beginLexeme) taken
  | case3 b none_ => exact next_spends (b := b.beginLexeme) asked

inductive Reply where
  | character (answer : Option Char)
  | filled (more : Bool)
  | done
  deriving DecidableEq, Repr

/-- What a call answers, and the buffer after it. -/
def Call.reply (call : Call) (b : SourceBuffer) : Except ReadFailure Reply × SourceBuffer :=
  match call with
  | .next skipFormat => mapAnswer .character (b.next skipFormat)
  | .nextSignificant => mapAnswer .character (CharSource.nextSignificant b)
  | .fill => mapAnswer .filled (b.window.fill.1, { b with window := b.window.fill.2 })
  | other => (.ok .done, other.run b)

theorem Call.reply_run (call : Call) (b : SourceBuffer) : (call.reply b).2 = call.run b := by
  cases call <;> rfl

theorem Call.reply_spends (call : Call) (b : SourceBuffer) :
    Spends b.window.pendingReads (call.reply b).2.window.pendingReads (call.reply b).1 := by
  cases call with
  | next skipFormat => exact (next_spends rfl).map Reply.character
  | nextSignificant => exact (nextSignificant_spends rfl).map Reply.character
  | putBack c =>
    refine Nat.le_of_eq ?_
    change (b.putBack c).window.pendingReads = _
    unfold SourceBuffer.putBack
    split <;> rfl
  | beginLexeme => exact Nat.le_refl _
  | fill => exact (fill_spends rfl).map Reply.filled
  | collect => exact Nat.le_refl _

/-- Makes a call again until it does not fail. -/
def Call.insist (call : Call) (b : SourceBuffer) : Reply × SourceBuffer :=
  match _replied : call.reply b with
  | (.ok reply, after) => (reply, after)
  | (.error _, after) => call.insist after
termination_by b.window.pendingReads
decreasing_by
  have spent := call.reply_spends b
  rw [_replied] at spent
  exact spent

/-- All that a buffer shows after a call. -/
structure Seen where
  reply : Reply
  last : Location
  lexeme : List Char
  lexemeStart : Location
  lineNumber : UInt32
  currentLine : List Char
  pushback : List (Char × Location)
  capacity : Nat
  log : List WindowEvent

def seen (b : SourceBuffer) (reply : Reply) : Seen where
  reply
  last := b.last
  lexeme := b.lexeme
  lexemeStart := b.lexemeStart
  lineNumber := b.lineNumber
  currentLine := b.window.currentLine
  pushback := b.pushback
  capacity := b.window.capacity
  log := b.window.log

/-- What is seen after each of these calls if each is made once. -/
def replies : List Call → SourceBuffer → List (Except ReadFailure Seen)
  | [], _ => []
  | call :: calls, b => (call.reply b).1.map (call.reply b).2.seen :: replies calls (call.reply b).2

/-- What is seen after each of these calls if each is made until it does not fail. -/
def insisted : List Call → SourceBuffer → List Seen
  | [], _ => []
  | call :: calls, b => (call.insist b).2.seen (call.insist b).1 :: insisted calls (call.insist b).2

theorem Over.fill (above : Over Mends b d) : Attempt (Over Mends)
    (fun d => (d.window.fill.1, { d with window := d.window.fill.2 })) d
    (b.window.fill.1, { b with window := b.window.fill.2 }) := by
  obtain ⟨v, related, rfl⟩ := above
  have attempt := related.fill
  rcases filled : b.window.fill with ⟨answer, w'⟩
  rw [filled] at attempt
  cases attempt with
  | answered answer related' => exact .answered (by rw [answer]) ⟨_, related', rfl⟩
  | @failed _ v' _ again related' =>
    have after : Over Mends { b with window := w' } { b with window := v' } := ⟨v', related', rfl⟩
    exact .failed (by simp only [again]) after

theorem Over.attempt (above : Over Mends b d) (call : Call) :
    Attempt (Over Mends) call.reply d (call.reply b) := by
  cases call with
  | next skipFormat => exact (above.attempt_next skipFormat).map Reply.character
  | nextSignificant => exact above.attempt_nextSignificant.map Reply.character
  | putBack c => exact .answered rfl (above.putBack c)
  | beginLexeme => exact .answered rfl above.beginLexeme
  | fill => exact above.fill.map Reply.filled
  | collect =>
    obtain ⟨v, related, rfl⟩ := above
    exact .answered rfl ⟨_, related.clearLog, rfl⟩

theorem Over.insist (above : Over Mends b d) (call : Call) :
    ∃ d', call.reply d = (.ok (call.insist b).1, d') ∧ Over Mends (call.insist b).2 d' := by
  fun_induction Call.insist call b generalizing d with
  | case1 b reply b' replied => exact (above.attempt call).confirms.answer replied
  | case2 b cause b' replied ih =>
    obtain ⟨d', again, related⟩ := (above.attempt call).again replied
    rw [← again]
    exact ih related

theorem Over.seen (above : Over Mends b d) (reply : Reply) : d.seen reply = b.seen reply := by
  obtain ⟨_, ⟨reader, _, rfl⟩, rfl⟩ := above
  rfl

theorem Over.insisted (above : Over Mends b d) (calls : List Call) :
    replies calls d = (insisted calls b).map .ok := by
  induction calls generalizing b d with
  | nil => rfl
  | cons call calls ih =>
    obtain ⟨d', answer, related⟩ := above.insist call
    rw [replies, SourceBuffer.insisted, List.map_cons, answer, ih related]
    exact congrArg (fun seen => Except.ok seen :: _) (related.seen _)

/-- Made until it succeeds, each call leads to what it leads to over the input without its failures,
whatever the failures come between. -/
theorem insisted_mended (reader : ByteReader) (capacity : Nat) (line : UInt32) (calls : List Call) :
    replies calls (ofReader { reader with script := ByteReader.mended reader.script } capacity line) =
      (insisted calls (ofReader reader capacity line)).map .ok := by
  have above : Over Mends (ofReader reader capacity line)
      (ofReader { reader with script := ByteReader.mended reader.script } capacity line) :=
    ⟨_, ⟨_, rfl, rfl⟩, rfl⟩
  exact above.insisted calls

end SourceBuffer
end EcmaLex
