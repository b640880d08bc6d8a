import EcmaLex.Proofs.Source.Windows
import EcmaLex.TokenStream

/-!
What one call does to a stream (`TokenStream.next_cases`), and what all calls up to the end do. A stream
over a window that confirms another gives the tokens of the other, as long as its own input does not fail
(`Over.readAll`).
-/
namespace EcmaLex

/-- The buffer once its events have moved to the stream. -/
def SourceBuffer.clearLog (b : SourceBuffer) : SourceBuffer :=
  { b with window := { b.window with log := [] } }

namespace TokenStream

variable {s s' : TokenStream} {token : Token} {e : StreamError}

theorem recordFault_eq (p : Placed) (s : TokenStream) : ∃ log, s.recordFault p = { s with log } := by
  unfold recordFault
  split
  · exact ⟨_, rfl⟩
  · exact ⟨_, rfl⟩

variable [Library]

/-- A call on a failed stream changes nothing. Any other scans one token, or the input fails in it. -/
theorem next_cases (s : TokenStream) :
    (s.failed = true ∧ s.next = (.error .terminated, s)) ∨
    (s.failed = false ∧ ∃ p buffer log, scan s.mode s.buffer = (.ok p, buffer) ∧
      s.next = (.ok ({ s with buffer }.token p), { s with buffer := buffer.clearLog, log })) ∨
    (s.failed = false ∧ ∃ line cause buffer log, scan s.mode s.buffer = (.error cause, buffer) ∧
      s.next = (.error (.input s.fileName line cause),
        { s with buffer := buffer.clearLog, failed := true, log })) := by
  unfold next
  by_cases failed : s.failed = true
  · exact .inl ⟨failed, if_pos failed⟩
  have going := eq_false_of_ne_true failed
  rw [if_neg failed]
  rcases scanned : scan s.mode s.buffer with ⟨cause | p, buffer⟩
  · exact .inr (.inr ⟨going, _, cause, buffer, _, rfl, rfl⟩)
  · obtain ⟨log, same⟩ := recordFault_eq p { s with buffer }.collectEvents
    refine .inr (.inl ⟨going, p, buffer, .token p.kind p.loc :: log, rfl, ?_⟩)
    simp only
    rw [same]
    rfl

theorem next_failed (failed : s.failed = true) : s.next = (.error .terminated, s) := by
  rcases s.next_cases with ⟨_, read⟩ | ⟨going, _⟩ | ⟨going, _⟩
  · exact read
  · rw [failed] at going; cases going
  · rw [failed] at going; cases going

theorem next_scanned {p : Placed} {buffer : SourceBuffer} (going : s.failed = false)
    (scanned : scan s.mode s.buffer = (.ok p, buffer)) :
    ∃ log, s.next = (.ok ({ s with buffer }.token p), { s with buffer := buffer.clearLog, log }) := by
  rcases s.next_cases with ⟨failed, _⟩ | ⟨_, _, _, log, found, read⟩ | ⟨_, _, _, _, _, found, _⟩
  · rw [failed] at going; cases going
  · cases scanned.symm.trans found
    exact ⟨log, read⟩
  · cases scanned.symm.trans found

theorem next_token (read : s.next = (.ok token, s')) :
    s.failed = false ∧ ∃ p buffer log, scan s.mode s.buffer = (.ok p, buffer) ∧
      token = { s with buffer }.token p ∧ s' = { s with buffer := buffer.clearLog, log } := by
  rcases s.next_cases with ⟨_, other⟩ | ⟨going, p, buffer, log, scanned, same⟩ |
    ⟨_, _, _, _, _, _, other⟩
  · cases read.symm.trans other
  · cases read.symm.trans same
    exact ⟨going, p, buffer, log, scanned, rfl, rfl⟩
  · cases read.symm.trans other

theorem readAll_error (read : s.next = (.error e, s')) : s.readAll = ([.error e], s') := by
  rw [readAll]
  split <;> simp_all

theorem readAll_eof (read : s.next = (.ok token, s')) (eof : token.isEof = true) :
    s.readAll = ([.ok token], s') := by
  rw [readAll]
  split <;> simp_all

theorem readAll_more (read : s.next = (.ok token, s')) (more : token.isEof = false) :
    s.readAll = (.ok token :: s'.readAll.1, s'.readAll.2) := by
  rw [readAll]
  split <;> simp_all

variable {Q : SourceWindow → SourceWindow → Prop} {r : TokenStream}

/-- Streams that differ at most in their windows and in what they have reported. -/
structure Over (Q : SourceWindow → SourceWindow → Prop) (s r : TokenStream) : Prop where
  buffer : s.buffer.Over Q r.buffer
  fileName : r.fileName = s.fileName
  mode : r.mode = s.mode
  failed : r.failed = s.failed

theorem Over.next (above : s.Over Q r) (sim : WindowSimulation Q) (read : s.next = (.ok token, s')) :
    ∃ r', r.next = (.ok token, r') ∧ s'.Over Q r' := by
  obtain ⟨going, p, buffer, log, scanned, rfl, rfl⟩ := next_token read
  obtain ⟨other, scanned', v, related, rfl⟩ :=
    (sim.partialSimulation.scan above.buffer s.mode).answer scanned
  rw [← above.mode] at scanned'
  obtain ⟨log', read'⟩ := next_scanned (above.failed.trans going) scanned'
  have told : { r with buffer := { buffer with window := v } }.token p = { s with buffer }.token p := by
    rw [token, token, above.fileName]
    rfl
  rw [told] at read'
  have cleared : buffer.clearLog.Over Q { buffer with window := v }.clearLog :=
    ⟨_, sim.clearLog related, rfl⟩
  exact ⟨_, read', cleared, above.fileName, above.mode, above.failed⟩

/-- The tokens that come before a failure of the one input come from the other as well. -/
theorem Over.readAll (above : s.Over Q r) (sim : WindowSimulation Q) {tokens : List Token}
    (answers : s.readAll.1 = tokens.map .ok ++ [.error e]) : tokens.map .ok <+: r.readAll.1 := by
  induction s using readAll.induct generalizing r tokens with
  | case1 s cause s' read =>
    rw [readAll_error read] at answers
    cases tokens with
    | nil => exact List.nil_prefix
    | cons token tokens => cases answers
  | case2 s last s' read eof =>
    rw [readAll_eof read eof] at answers
    rcases tokens with _ | ⟨_, _ | _⟩ <;> cases answers
  | case3 s token s' read more ih =>
    have more := eq_false_of_ne_true more
    obtain ⟨r', read', above'⟩ := above.next sim read
    rw [readAll_more read more] at answers
    rw [readAll_more read' more]
    cases tokens with
    | nil => cases answers
    | cons first tokens =>
      obtain ⟨same, rest⟩ := List.cons.inj answers
      rw [List.map_cons, ← same]
      exact (List.prefix_cons_inj _).2 (ih above' rest)

end TokenStream
end EcmaLex
