import EcmaLex.Proofs.Source.EndOfInput
import EcmaLex.Proofs.Source.WindowRuns

/-!
A buffer with a record of the calls that a scanner makes on it. The scanners run on it as they run on any
source. A scanner may keep a character in hand until it has decided on it, or give it back and take it again
first; the recording may do either at each character. Neither that nor the record changes what the scanners
answer or where they leave the buffer (`Recording.forget_scan`).
-/
namespace EcmaLex
open CharSource

namespace SourceBuffer

variable {b b' : SourceBuffer} {c : Char} {skipFormat : Bool}

/-- A character is handed out on top of what was taken. Of what was given back there is at least one less, or
nothing is left. -/
theorem next_hands (answered : b.next skipFormat = (.ok (some c), b')) :
    ∃ loc d, b' = handOut c loc d ∧ d.taken = b.taken ∧ d.pushback.length ≤ b.pushback.length - 1 ∧
      (skipFormat && Text.isFormatControl c) = false := by
  fun_induction SourceBuffer.next skipFormat b with
  | case1 b d loc pushback given passed ih =>
    obtain ⟨loc', d', rfl, taken, left, kept⟩ := ih answered
    refine ⟨loc', d', rfl, taken, ?_, kept⟩
    rw [given, List.length_cons]
    exact Nat.le_trans left (Nat.sub_le_sub_right (Nat.le_succ _) 1)
  | case2 b d loc pushback given kept =>
    cases answered
    refine ⟨loc, { b with pushback }, rfl, rfl, ?_, eq_false_of_ne_true kept⟩
    rw [given, List.length_cons]
    exact Nat.le_refl _
  | case3 b given cause window took => cases answered
  | case4 b given window took => cases answered
  | case5 b given raw window took tracker advanced ih => exact ih answered
  | case6 b given raw window took d loc opensLine tracker advanced passed ih => exact ih answered
  | case7 b given raw window took d loc opensLine tracker advanced kept =>
    cases answered
    exact ⟨loc, b.place window tracker opensLine, rfl, rfl, by simp [place, given], eq_false_of_ne_true kept⟩

theorem putBack_handOut (c : Char) (loc : Location) (b : SourceBuffer) :
    (handOut c loc b).putBack c = { b with pushback := (c, loc) :: b.pushback, last := loc } := rfl

/-- A character that is given back at once is handed out again, and all is as it was. -/
theorem next_retaken (answered : b.next skipFormat = (.ok (some c), b')) :
    (b'.putBack c).next skipFormat = (.ok (some c), b') := by
  obtain ⟨loc, d, rfl, _, _, kept⟩ := next_hands answered
  rw [putBack_handOut, next_given rfl, if_neg (by simp [kept])]
  rfl

theorem reachEnd_reachEnd (b : SourceBuffer) : b.reachEnd.reachEnd = b.reachEnd := by
  have finished : b.tracker.finish.finish = b.tracker.finish := by
    rw [LineTracker.finish, finish_pending]
  simp only [reachEnd, finished]

/-- At the end of input the same question has the same answer, and all is as it was. -/
theorem next_atEnd (answered : b.next skipFormat = (.ok none, b')) :
    b'.next skipFormat = (.ok none, b') := by
  obtain ⟨d, rfl, ended, given, _⟩ := reachEnd_of_next answered
  have took : d.reachEnd.window.take = (.ok none, d.window) := ended.take
  exact (next_end (b := d.reachEnd) given took).trans (congrArg (Prod.mk _) d.reachEnd_reachEnd)

theorem called_concat (calls : List Call) (call : Call) (b : SourceBuffer) :
    called (calls ++ [call]) b = call.run (called calls b) := by
  simp only [called, List.foldl_append, List.foldl_cons, List.foldl_nil]

end SourceBuffer

open SourceBuffer

/-- A buffer, the calls made on it, and which of its answers are asked for a second time. -/
structure Recording where
  start : SourceBuffer
  /-- Oldest first. -/
  calls : List Call := []
  /-- Whether an answer is asked for a second time, by the number of calls made before it. -/
  again : Nat → Bool

namespace Recording

variable {r r' : Recording} {skipFormat : Bool} {answer : Except ReadFailure (Option Char)}

/-- The buffer after the calls. -/
def buffer (r : Recording) : SourceBuffer := called r.calls r.start

def call (call : Call) (r : Recording) : Recording := { r with calls := r.calls ++ [call] }

@[simp] theorem buffer_call (call : Call) (r : Recording) : (r.call call).buffer = call.run r.buffer :=
  called_concat r.calls call r.start

def ask (skipFormat : Bool) (r : Recording) : Except ReadFailure (Option Char) × Recording :=
  ((r.buffer.next skipFormat).1, r.call (.next skipFormat))

/-- To ask for an answer twice is to give the character back in between. The first character of a lexeme is
not given back. -/
def next (skipFormat : Bool) (r : Recording) : Except ReadFailure (Option Char) × Recording :=
  match r.ask skipFormat with
  | (.error cause, r') => (.error cause, r')
  | (.ok none, r') => if r.again r.calls.length then r'.ask skipFormat else (.ok none, r')
  | (.ok (some c), r') =>
    if r.again r.calls.length && 1 < r'.buffer.taken.length then (r'.call (.putBack c)).ask skipFormat
    else (.ok (some c), r')

/-- An answer without its record. -/
def forget {α : Type} (answered : Except ReadFailure α × Recording) : Except ReadFailure α × SourceBuffer :=
  (answered.1, answered.2.buffer)

theorem forget_ask (skipFormat : Bool) (r : Recording) : forget (r.ask skipFormat) = r.buffer.next skipFormat := by
  simp [forget, ask, Call.run]

theorem ask_buffer (asked : r.ask skipFormat = (answer, r')) : r.buffer.next skipFormat = (answer, r'.buffer) := by
  rw [← forget_ask, asked, forget]

theorem forget_next_eq (skipFormat : Bool) (r : Recording) : forget (r.next skipFormat) = r.buffer.next skipFormat := by
  rcases asked : r.ask skipFormat with ⟨cause | _ | c, r'⟩
  · simp only [next, asked]
    exact (ask_buffer asked).symm
  · have reached := ask_buffer asked
    simp only [next, asked]
    split
    · rw [forget_ask, next_atEnd reached, reached]
    · exact reached.symm
  · have handed := ask_buffer asked
    simp only [next, asked]
    split
    · rw [forget_ask, buffer_call, Call.run, next_retaken handed, handed]
    · exact handed.symm

theorem next_buffer (asked : r.next skipFormat = (answer, r')) : r.buffer.next skipFormat = (answer, r'.buffer) := by
  rw [← forget_next_eq, asked, forget]

theorem start_next (skipFormat : Bool) (r : Recording) : (r.next skipFormat).2.start = r.start := by
  have kept : (r.ask skipFormat).2.start = r.start := rfl
  rcases asked : r.ask skipFormat with ⟨cause | _ | c, r'⟩ <;> rw [asked] at kept <;> simp only [next, asked]
  · exact kept
  · split <;> exact kept
  · split <;> exact kept

instance : CharSource Recording where
  next := next
  putBack c r := r.call (.putBack c)
  beginLexeme r := r.call .beginLexeme
  lexeme r := r.buffer.lexeme
  lexemeStart r := r.buffer.lexemeStart
  here r := r.buffer.last
  remaining r := r.buffer.remaining
  remaining_next_some asked := (next_remaining (next_buffer asked)).2 _ rfl
  remaining_next asked := (next_remaining (next_buffer asked)).1
  remaining_putBack c r := by
    rw [buffer_call]
    exact CharSource.remaining_putBack c r.buffer
  remaining_beginLexeme r := by
    rw [buffer_call]
    exact Nat.le_refl _

variable {α β ρ : Type}

theorem forget_next (skipFormat : Bool) (r : Recording) :
    forget (CharSource.next skipFormat r) = CharSource.next skipFormat r.buffer :=
  forget_next_eq skipFormat r

theorem buffer_putBack (c : Char) (r : Recording) :
    (CharSource.putBack c r).buffer = CharSource.putBack c r.buffer :=
  buffer_call (.putBack c) r

theorem buffer_beginLexeme (r : Recording) :
    (CharSource.beginLexeme r).buffer = CharSource.beginLexeme r.buffer :=
  buffer_call .beginLexeme r

theorem buffer_putBackAll (cs : List Char) (r : Recording) :
    (putBackAll cs r).buffer = putBackAll cs r.buffer := by
  induction cs generalizing r with
  | nil => rfl
  | cons c cs ih =>
    have rest := ih (CharSource.putBack c r)
    rw [buffer_putBack] at rest
    exact rest

theorem forget_mapAnswer (f : α → β) (answered : Except ReadFailure α × Recording) :
    forget (mapAnswer f answered) = mapAnswer f (forget answered) := rfl

theorem forget_peek (r : Recording) : forget (peek r) = peek r.buffer := by
  rw [peek, peek, ← forget_next]
  rcases CharSource.next false r with ⟨cause | _ | c, r'⟩
  · rfl
  · rfl
  · exact congrArg (Prod.mk _) (buffer_putBack c r')

theorem forget_nextSignificant (r : Recording) : forget (nextSignificant r) = nextSignificant r.buffer := by
  fun_induction nextSignificant r with
  | case1 r c r' taken blank ih =>
    rw [nextSignificant_eq r.buffer, ← buffer_beginLexeme, ← forget_next, taken, ih]
    exact (if_pos blank).symm
  | case2 r c r' taken significant =>
    rw [nextSignificant_eq r.buffer, ← buffer_beginLexeme, ← forget_next, taken]
    exact (if_neg significant).symm
  | case3 r none_ =>
    rw [nextSignificant_eq r.buffer, ← buffer_beginLexeme, ← forget_next]
    rcases taken : CharSource.next true (CharSource.beginLexeme r) with ⟨cause | _ | c, r'⟩
    · rfl
    · rfl
    · exact absurd taken (none_ c r')

theorem forget_run (m : Recognizer ρ β) (state : ρ) (r : Recording) :
    forget (m.run state r) = m.run state r.buffer := by
  fun_induction Recognizer.run m state r with
  | case1 state r cause r' taken =>
    have asked := forget_next m.skipFormat r
    rw [taken] at asked
    rw [Recognizer.run_error asked.symm]
    rfl
  | case2 state r r' taken =>
    have asked := forget_next m.skipFormat r
    rw [taken] at asked
    rw [Recognizer.run_end asked.symm]
    exact congrArg (Prod.mk _) (buffer_putBackAll _ r')
  | case3 state r c r' taken state' stepped ih =>
    have asked := forget_next m.skipFormat r
    rw [taken] at asked
    have moved : m.step state c (CharSource.here r'.buffer) = .more state' := stepped
    rw [Recognizer.run_char asked.symm, Recognizer.resume, ih]
    simp only [moved]
  | case4 state r c r' taken back result stepped =>
    have asked := forget_next m.skipFormat r
    rw [taken] at asked
    have moved : m.step state c (CharSource.here r'.buffer) = .stop back result := stepped
    rw [Recognizer.run_char asked.symm, Recognizer.resume]
    simp only [moved]
    exact congrArg (Prod.mk _) (buffer_putBackAll back r')

theorem forget_resume (m : Recognizer ρ β) (state : ρ) (c : Char) (r : Recording) :
    forget (m.resume state c r) = m.resume state c r.buffer := by
  have place : CharSource.here r = CharSource.here r.buffer := rfl
  rw [Recognizer.resume, Recognizer.resume, place]
  cases m.step state c (CharSource.here r.buffer) with
  | more state' => exact forget_run m state' r
  | stop back result => exact congrArg (Prod.mk _) (buffer_putBackAll back r)

theorem forget_scanPunctuator (first : Char) (r : Recording) :
    forget (scanPunctuator first r) = scanPunctuator first r.buffer := by
  unfold scanPunctuator
  cases Punctuator.single? first with
  | none => rfl
  | some p =>
    simp only [← forget_run]
    rfl

theorem forget_scanOperator (first : Char) (start : Location) (r : Recording) :
    forget (scanOperator first start r) = scanOperator first start r.buffer := by
  rw [scanOperator, forget_mapAnswer, forget_scanPunctuator, scanOperator]

theorem forget_afterSolidus (r : Recording) : forget (afterSolidus r) = afterSolidus r.buffer := by
  unfold afterSolidus
  rw [← forget_next]
  rcases CharSource.next false r with ⟨cause | _ | c, r'⟩
  · rfl
  · rfl
  · simp only [forget]
    split
    · rfl
    · split
      · rfl
      · exact congrArg (Prod.mk _) (buffer_putBack c r')

theorem forget_scanSolidus (start : Location) (r : Recording) :
    forget (scanSolidus start r) = scanSolidus start r.buffer := by
  unfold scanSolidus
  rw [← forget_afterSolidus]
  rcases afterSolidus r with ⟨cause | _ | _ | _, r'⟩
  · rfl
  · exact congrArg (mapAnswer _) (forget_run lineComment () r')
  · exact congrArg (mapAnswer _) (forget_run blockComment {} r')
  · exact congrArg (mapAnswer some) (forget_scanOperator '/' start r')

variable [Library]

theorem forget_scanNumber (mode : Mode) (first : Char) (start : Location) (r : Recording) :
    forget (scanNumber mode first start r) = scanNumber mode first start r.buffer := by
  rw [scanNumber, forget_mapAnswer, forget_run, scanNumber]

theorem forget_scanFrom (mode : Mode) (first : Char) (start : Location) (r : Recording) :
    forget (scanFrom mode first start r) = scanFrom mode first start r.buffer := by
  unfold scanFrom
  split
  · rw [forget_mapAnswer, forget_run]
  · split
    · exact forget_scanNumber mode first start r
    · split
      · rw [← forget_peek]
        rcases peek r with ⟨cause | follower, r'⟩
        · rfl
        · simp only [forget]
          split
          · exact forget_scanNumber mode first start r'
          · exact forget_scanOperator first start r'
      · split
        · rw [forget_mapAnswer, forget_resume]
        · exact forget_scanOperator first start r

theorem forget_scanOnce (mode : Mode) (r : Recording) : forget (scanOnce mode r) = scanOnce mode r.buffer := by
  unfold scanOnce
  rw [← forget_nextSignificant]
  rcases nextSignificant r with ⟨cause | _ | first, r'⟩
  · rfl
  · rfl
  · simp only [forget]
    split
    · rfl
    · split
      · exact forget_scanSolidus (CharSource.lexemeStart r') r'
      · exact congrArg (mapAnswer some) (forget_scanFrom mode first (CharSource.lexemeStart r') r')

/-- A scan of a recorded buffer is a scan of the buffer. -/
theorem forget_scan (mode : Mode) (r : Recording) : forget (scan mode r) = scan mode r.buffer := by
  fun_induction scan mode r with
  | case1 r cause r' once =>
    rw [scan_eq mode r.buffer, ← forget_scanOnce, once]
    rfl
  | case2 r p r' once =>
    rw [scan_eq mode r.buffer, ← forget_scanOnce, once]
    rfl
  | case3 r r' once ih =>
    rw [scan_eq mode r.buffer, ← forget_scanOnce, once]
    exact ih

end Recording
end EcmaLex
