import EcmaLex.Proofs.Source.Streams
import EcmaLex.Proofs.Source.WindowText

/-!
The end of input. A scan that answers it leaves the buffer at an end that every later scan answers
again, at the same place and without a read (`SourceBuffer.ended_of_scan`, `Ended.scan`).
-/
namespace EcmaLex
open Text CharSource

namespace SourceWindow

variable {w w' : SourceWindow}

/-- All characters have been taken, and there will be no more. -/
structure Ended (w : SourceWindow) : Prop where
  exhausted : w.exhausted = true
  drained : w.chars[w.cursor]? = none

theorem makeRoom_drained (drained : w.chars[w.cursor]? = none) :
    w.makeRoom.chars[w.makeRoom.cursor]? = none := by
  rw [Array.getElem?_eq_none_iff] at drained ⊢
  obtain ⟨_, _, _, same | same⟩ := makeRoom_cases w <;> rw [same]
  · exact drained
  · simp only [reclaim, Array.size_extract]
    omega

theorem accept_false {result : ReadResult} (accepted : w.accept result = (.ok false, w')) :
    w' = { w with exhausted := true } := by
  unfold accept at accepted
  split at accepted
  · cases accepted
  · cases accepted
  · cases accepted
  · split at accepted
    · cases accepted
      rfl
    · cases accepted

theorem exhausted_of_fill (filled : w.fill = (.ok false, w')) : w'.exhausted = true := by
  unfold SourceWindow.fill at filled
  split at filled
  · cases filled
    assumption
  · rw [accept_false filled]

theorem ended_of_fill (drained : w.chars[w.cursor]? = none) (filled : w.fill = (.ok false, w')) :
    w'.Ended := by
  unfold SourceWindow.fill at filled
  split at filled
  · rename_i exhausted
    cases filled
    exact ⟨exhausted, drained⟩
  · rw [accept_false filled]
    exact ⟨rfl, makeRoom_drained drained⟩

theorem Ended.take (ended : w.Ended) : w.take = (.ok none, w) := by
  have filled : w.fill = (.ok false, w) := if_pos ended.exhausted
  rw [SourceWindow.take]
  simp only [ended.drained]
  split <;> simp_all

theorem ended_of_take (took : w.take = (.ok none, w')) : w'.Ended := by
  fun_induction SourceWindow.take w with
  | case1 w c found => cases took
  | case2 w none_ cause w'' filled => cases took
  | case3 w none_ w'' filled =>
    cases took
    exact ended_of_fill none_ filled
  | case4 w none_ w'' filled ih => exact ih took

end SourceWindow

theorem mapAnswer_ok {σ α β : Type} {s : σ} {f : α → β} {given : Except ReadFailure α × σ} {result : β}
    (mapped : mapAnswer f given = (.ok result, s)) : ∃ answer, given = (.ok answer, s) ∧ f answer = result := by
  obtain ⟨cause | answer, s⟩ := given
  · cases mapped
  · cases mapped
    exact ⟨answer, rfl, rfl⟩

section
variable {σ : Type} [CharSource σ] {s s' : σ} {mode : Mode}

theorem nextSignificant_none (found : nextSignificant s = (.ok none, s')) :
    ∃ s₀ : σ, next true (beginLexeme s₀) = (.ok none, s') := by
  fun_induction nextSignificant s with
  | case1 s c s₁ taken blank ih => exact ih found
  | case2 s c s₁ taken significant => cases found
  | case3 s none_ => exact ⟨s, found⟩

namespace Placed

variable (start : Location)

theorem ofString_ne_eof (o : StringOutcome) : (ofString start o).kind ≠ .eof := by
  cases o <;> simp [ofString]

theorem ofNumber_ne_eof (o : NumberOutcome) : (ofNumber start o).kind ≠ .eof := by
  cases o <;> simp [ofNumber]

theorem ofIdentifier_ne_eof (o : IdentifierOutcome) : (ofIdentifier start o).kind ≠ .eof := by
  cases o <;> simp [ofIdentifier]

theorem ofPunctuator_ne_eof (o : Option Punctuator) : (ofPunctuator start o).kind ≠ .eof := by
  cases o <;> simp [ofPunctuator]

theorem ofBlockComment?_ne_eof {o : CommentEnd} {p : Placed} (some_ : ofBlockComment? start o = some p) :
    p.kind ≠ .eof := by
  rcases o with (_ | _) | _ <;> cases some_ <;> simp

end Placed

variable {p : Placed} {first : Char} {start : Location}

theorem scanOperator_ne_eof (scanned : scanOperator first start s = (.ok p, s')) : p.kind ≠ .eof := by
  obtain ⟨o, _, rfl⟩ := mapAnswer_ok scanned
  exact Placed.ofPunctuator_ne_eof start o

theorem scanSolidus_ne_eof (scanned : scanSolidus start s = (.ok (some p), s')) : p.kind ≠ .eof := by
  unfold scanSolidus at scanned
  split at scanned
  · cases scanned
  · obtain ⟨q, given, same⟩ := mapAnswer_ok scanned
    cases same
    exact scanOperator_ne_eof given
  · obtain ⟨o, _, other⟩ := mapAnswer_ok scanned
    cases other
  · obtain ⟨o, _, some_⟩ := mapAnswer_ok scanned
    exact Placed.ofBlockComment?_ne_eof start some_

variable [Library]

theorem scanNumber_ne_eof (scanned : scanNumber mode first start s = (.ok p, s')) : p.kind ≠ .eof := by
  obtain ⟨o, _, rfl⟩ := mapAnswer_ok scanned
  exact Placed.ofNumber_ne_eof start o

theorem scanFrom_ne_eof (scanned : scanFrom mode first start s = (.ok p, s')) : p.kind ≠ .eof := by
  unfold scanFrom at scanned
  split at scanned
  · obtain ⟨o, _, rfl⟩ := mapAnswer_ok scanned
    exact Placed.ofString_ne_eof start o
  · split at scanned
    · exact scanNumber_ne_eof scanned
    · split at scanned
      · split at scanned
        · cases scanned
        · split at scanned
          · exact scanNumber_ne_eof scanned
          · exact scanOperator_ne_eof scanned
      · split at scanned
        · obtain ⟨o, _, rfl⟩ := mapAnswer_ok scanned
          exact Placed.ofIdentifier_ne_eof start o
        · exact scanOperator_ne_eof scanned

theorem scanOnce_eof (scanned : scanOnce mode s = (.ok (some p), s')) (eof : p.kind = .eof) :
    nextSignificant s = (.ok none, s') ∧ p = ⟨.eof, lexemeStart s'⟩ := by
  unfold scanOnce at scanned
  split at scanned
  · cases scanned
  · rename_i s₁ found
    cases scanned
    exact ⟨found, rfl⟩
  · rename_i c s₁ found
    split at scanned
    · cases scanned
      cases eof
    · split at scanned
      · exact absurd eof (scanSolidus_ne_eof scanned)
      · obtain ⟨q, given, same⟩ := mapAnswer_ok scanned
        cases same
        exact absurd eof (scanFrom_ne_eof given)

/-- The end of input is answered only where a source has no character left. -/
theorem scan_eof (scanned : scan mode s = (.ok p, s')) (eof : p.kind = .eof) :
    (∃ s₀ : σ, next true (beginLexeme s₀) = (.ok none, s')) ∧ p = ⟨.eof, lexemeStart s'⟩ := by
  fun_induction scan mode s with
  | case1 s cause s₁ once => cases scanned
  | case2 s q s₁ once =>
    cases scanned
    obtain ⟨found, same⟩ := scanOnce_eof once eof
    exact ⟨nextSignificant_none found, same⟩
  | case3 s s₁ once ih => exact ih scanned

end

namespace SourceBuffer

variable {b b' : SourceBuffer} {mode : Mode} {p : Placed}

/-- Nothing is left to be handed out, and the last line is closed. -/
structure Ended (b : SourceBuffer) : Prop where
  window : b.window.Ended
  given : b.pushback = []
  fresh : b.taken = []
  closed : b.tracker.pending = none
  last : b.last = b.tracker.location

theorem Ended.next (ended : b.Ended) (skipFormat : Bool) : b.next skipFormat = (.ok none, b) := by
  have finished : b.tracker.finish = b.tracker := by simp [LineTracker.finish, ended.closed]
  rw [next_end ended.given ended.window.take, reachEnd]
  simp only [finished, ← ended.last]

theorem Ended.start (ended : b.Ended) : CharSource.lexemeStart b = b.last := by
  change b.lexemeStart = b.last
  rw [SourceBuffer.lexemeStart, ended.fresh]
  rfl

theorem finish_pending (t : LineTracker) : t.finish.pending = none := by
  unfold LineTracker.finish
  split
  · assumption
  · rfl

/-- Once the end is answered, nothing is left to hand out, and the last line is closed. -/
theorem reachEnd_of_next {skipFormat : Bool} (answered : b.next skipFormat = (.ok none, b')) :
    ∃ d, b' = reachEnd d ∧ d.window.Ended ∧ d.pushback = [] ∧ d.taken = b.taken := by
  fun_induction SourceBuffer.next skipFormat b with
  | case1 b c loc pushback given passed ih => exact ih answered
  | case2 b c loc pushback given kept => cases answered
  | case3 b given cause window took => cases answered
  | case4 b given window took =>
    cases answered
    exact ⟨{ b with window }, rfl, SourceWindow.ended_of_take took, given, rfl⟩
  | case5 b given raw window took tracker advanced ih => exact ih answered
  | case6 b given raw window took c loc opensLine tracker advanced passed ih => exact ih answered
  | case7 b given raw window took c loc opensLine tracker advanced kept => cases answered

theorem drained_of_next {skipFormat : Bool} (answered : b.next skipFormat = (.ok none, b')) :
    b'.window.Ended ∧ b'.pushback = [] := by
  obtain ⟨d, rfl, ended, given, _⟩ := reachEnd_of_next answered
  exact ⟨ended, given⟩

theorem ended_of_next {skipFormat : Bool} (answered : b.next skipFormat = (.ok none, b'))
    (fresh : b.taken = []) : b'.Ended := by
  obtain ⟨d, rfl, ended, given, taken⟩ := reachEnd_of_next answered
  exact ⟨ended, given, taken.trans fresh, finish_pending _, rfl⟩

theorem Ended.clearLog (ended : b.Ended) : b.clearLog.Ended :=
  ⟨⟨ended.window.exhausted, ended.window.drained⟩, ended.given, ended.fresh, ended.closed, ended.last⟩

variable [Library]

/-- At an end a scan answers the end of input and changes nothing. -/
theorem Ended.scan (ended : b.Ended) (mode : Mode) : scan mode b = (.ok ⟨.eof, b.last⟩, b) := by
  have begun : CharSource.beginLexeme b = b := by
    change { b with taken := [] } = b
    rw [← ended.fresh]
  have found : nextSignificant b = (.ok none, b) := by
    rw [nextSignificant_eq, begun, show CharSource.next true b = (.ok none, b) from ended.next true]
  rw [scan_eq, scanOnce, found]
  simp only [ended.start]

theorem ended_of_scan (scanned : EcmaLex.scan mode b = (.ok p, b')) (eof : p.kind = .eof) :
    b'.Ended ∧ p.loc = b'.last := by
  obtain ⟨⟨b₀, answered⟩, rfl⟩ := scan_eof scanned eof
  have ended : b'.Ended := ended_of_next answered rfl
  exact ⟨ended, ended.start⟩

end SourceBuffer

namespace TokenStream

variable [Library] {s s' : TokenStream} {token : Token}

/-- The end of input as a token, where the buffer stands. -/
def endToken (s : TokenStream) : Token :=
  { kind := .eof, lexeme := "", position := ⟨s.fileName, s.buffer.last⟩ }

theorem ended_of_next (read : s.next = (.ok token, s')) (eof : token.isEof = true) :
    s'.buffer.Ended ∧ token = s'.endToken := by
  obtain ⟨_, p, buffer, log, scanned, rfl, rfl⟩ := next_token read
  have kind : p.kind = .eof := by simpa [Token.isEof, TokenStream.token] using eof
  obtain ⟨ended, place⟩ := SourceBuffer.ended_of_scan scanned kind
  refine ⟨ended.clearLog, ?_⟩
  have none_ : buffer.lexeme = [] := by rw [SourceBuffer.lexeme, ended.fresh]; rfl
  rw [TokenStream.token, kind, place, none_]
  rfl

theorem next_of_ended (ended : s.buffer.Ended) (going : s.failed = false) :
    ∃ log, s.next = (.ok s.endToken, { s with buffer := s.buffer.clearLog, log }) := by
  obtain ⟨log, read⟩ := next_scanned going (ended.scan s.mode)
  have same := (ended_of_next read rfl).2
  exact ⟨log, by rw [read, same]; rfl⟩

end TokenStream
end EcmaLex
