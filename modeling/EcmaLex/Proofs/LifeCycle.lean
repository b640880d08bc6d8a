import EcmaLex.Proofs.Resuming
import EcmaLex.Proofs.Source.EndOfInput
import EcmaLex.Proofs.Source.ReadHistory

/-!
The life of a stream, under any mix of calls for tokens and for items. Its input fails once at most, an end
of input is answered again and again, and no read is made after either.
-/
namespace EcmaLex
open SourceWindow

/-- The two ways to ask a stream for what comes next. -/
inductive Pull where
  | token
  | item

inductive Answer where
  | token (answer : Except StreamError Token)
  | item (answer : Option (Except StreamError Token))

/-- What `nextItem` makes of an answer of `next`. -/
def itemOf : Except StreamError Token → Option (Except StreamError Token)
  | .ok token => if token.isEof then none else some (.ok token)
  | .error e => some (.error e)

def Pull.answer : Pull → Except StreamError Token → Answer
  | .token, answer => .token answer
  | .item, answer => .item (itemOf answer)

namespace Answer

def reportsFailure : Answer → Bool
  | .token (.error (.input ..)) => true
  | .item (some (.error (.input ..))) => true
  | _ => false

/-- Neither the end of input nor an error is followed by an item. -/
def endsItems : Answer → Bool
  | .token _ => false
  | .item (some (.ok _)) => false
  | .item _ => true

/-- What a terminated stream may answer. -/
inductive Terminated : Answer → Prop
  | token : Terminated (.token (.error .terminated))
  | item : Terminated (.item (some (.error .terminated)))
  | noItem : Terminated (.item none)

theorem Terminated.reportsFailure {a : Answer} (terminated : a.Terminated) :
    a.reportsFailure = false := by
  cases terminated <;> rfl

end Answer

namespace TokenStream

def reader (s : TokenStream) : ByteReader := s.buffer.window.reader

variable [Library]

def pull (s : TokenStream) : Pull → Answer × TokenStream
  | .token => (.token s.next.1, s.next.2)
  | .item => (.item s.nextItem.1, s.nextItem.2)

/-- The stream after these calls. -/
def pulled (s : TokenStream) (calls : List Pull) : TokenStream :=
  calls.foldl (fun s p => (s.pull p).2) s

/-- What these calls answer. -/
def answers : TokenStream → List Pull → List Answer
  | _, [] => []
  | s, p :: calls => (s.pull p).1 :: (s.pull p).2.answers calls

end TokenStream

open TokenStream

/-- What holds of a stream over the reader `r`, whatever is asked of it and however often. -/
structure LifeCycle [Library] (r : ByteReader) (start : TokenStream) : Prop where
  failure_once : ∀ calls, (start.answers calls).countP Answer.reportsFailure ≤ 1
  /-- After a failure there is no token, not even the end of input, and no read. -/
  after_failure : ∀ calls p,
    let answered := (start.pulled calls).pull p
    answered.1.reportsFailure = true → ∀ later,
      (∀ a ∈ answered.2.answers later, a.Terminated) ∧
        (answered.2.pulled later).reader = answered.2.reader
  /-- The end of input comes after a read that delivered nothing. It stays what it is, and no read is
  made after it, whichever of the two calls has met it. -/
  at_end : ∀ calls token, (start.pulled calls).next.1 = .ok token → token.isEof = true →
    token.lexeme = "" ∧ ∀ p,
      let s := ((start.pulled calls).pull p).2
      (∃ results, r.Reads (results ++ [.bytes []]) s.reader) ∧ ∀ later,
        (∀ answer, .token answer ∈ s.answers later → answer = .ok token) ∧
          (s.pulled later).reader = s.reader
  after_items : ∀ calls,
    let answered := (start.pulled calls).pull .item
    answered.1.endsItems = true → ∀ later answer, .item answer ∈ answered.2.answers later → answer = none
  /-- Until the items have ended, an item takes the place of a token in the row of tokens. -/
  items : ∀ calls, (∀ a ∈ start.answers calls, a.endsItems = false) → ∀ p,
    ((start.pulled calls).pull p).1 = p.answer (start.skip calls.length).next.1

namespace TokenStream

variable {s s' : TokenStream} {token : Token} {r : ByteReader} {p : Pull}

/-- The reads were made from `r` on, and the items have ended for a reason. -/
structure Reached (r : ByteReader) (s : TokenStream) : Prop where
  traces : s.failed = false → s.buffer.window.Traces r
  finished : s.finished = true → s.failed = true ∨ s.buffer.Ended

theorem Reached.ofConfig (r : ByteReader) (c : Config) : (ofConfig r c).Reached r :=
  ⟨fun _ => .ofReader r _ _, nofun⟩

variable [Library]

theorem next_finished (s : TokenStream) : s.next.2.finished = s.finished := by
  rcases s.next_cases with ⟨_, read⟩ | ⟨_, _, _, _, _, read⟩ | ⟨_, _, _, _, _, _, read⟩ <;> rw [read]

theorem nextItem_eq (unfinished : s.finished = false) :
    s.nextItem = (itemOf s.next.1,
      { s.next.2 with finished := (Answer.item (itemOf s.next.1)).endsItems }) := by
  have going := s.next_finished.trans unfinished
  rw [nextItem, if_neg (by simp [unfinished])]
  rcases read : s.next with ⟨e | token, s'⟩
  · rfl
  · rw [read] at going
    have same : { s' with finished := false } = s' := by rw [← going]
    by_cases eof : token.isEof = true <;> simp [itemOf, eof, Answer.endsItems, same]

/-- A call asks for the next token, unless it is for an item and there are no more items. -/
theorem pull_cases (s : TokenStream) (p : Pull) :
    (p = .item ∧ s.finished = true ∧ s.pull p = (.item none, s)) ∨
    (s.pull p = (p.answer s.next.1,
      { s.next.2 with finished := s.finished || (p.answer s.next.1).endsItems })) := by
  cases p with
  | token =>
    refine .inr ?_
    simp only [pull, Pull.answer, Answer.endsItems, Bool.or_false, ← s.next_finished]
  | item =>
    cases finished : s.finished with
    | true => exact .inl ⟨rfl, rfl, by simp [pull, nextItem, finished]⟩
    | false => exact .inr (by simp [pull, nextItem_eq finished, Pull.answer])

theorem pull_unfinished (unfinished : s.finished = false) (p : Pull) :
    s.pull p = (p.answer s.next.1,
      { s.next.2 with finished := (p.answer s.next.1).endsItems }) := by
  rcases s.pull_cases p with ⟨_, finished, _⟩ | answered
  · rw [unfinished] at finished
    cases finished
  · simpa [unfinished] using answered

/-- A stream that has failed, and reads no more. -/
structure Down (r : ByteReader) (s : TokenStream) : Prop where
  failed : s.failed = true
  reader : s.reader = r

theorem Down.pull (down : s.Down r) (p : Pull) : (s.pull p).2.Down r ∧ (s.pull p).1.Terminated := by
  rcases s.pull_cases p with ⟨_, _, answered⟩ | answered
  · rw [answered]
    exact ⟨down, .noItem⟩
  · rw [answered, next_failed down.failed]
    refine ⟨⟨down.failed, down.reader⟩, ?_⟩
    cases p
    · exact .token
    · exact .item

theorem down_of_report (reported : (s.pull p).1.reportsFailure = true) :
    (s.pull p).2.Down (s.pull p).2.reader := by
  refine ⟨?_, rfl⟩
  rcases s.pull_cases p with ⟨_, _, answered⟩ | answered
  · rw [answered] at reported
    cases reported
  rw [answered] at reported ⊢
  rcases s.next_cases with ⟨failed, read⟩ | ⟨_, _, _, _, _, read⟩ | ⟨_, _, _, _, _, _, read⟩
  · rw [read]
    exact failed
  · rw [read] at reported
    cases p <;> simp [Pull.answer, itemOf, Answer.reportsFailure] at reported
  · rw [read]

/-- A stream that answers the end of input, and this one for good. -/
structure AtEnd (token : Token) (r : ByteReader) (s : TokenStream) : Prop where
  going : s.failed = false
  buffer : s.buffer.Ended
  token : s.endToken = token
  reader : s.reader = r

theorem AtEnd.pull (atEnd : s.AtEnd token r) (p : Pull) :
    (s.pull p).2.AtEnd token r ∧ ∀ answer, (s.pull p).1 = .token answer → answer = .ok token := by
  obtain ⟨going, ended, rfl, rfl⟩ := atEnd
  rcases s.pull_cases p with ⟨_, _, answered⟩ | answered
  · rw [answered]
    exact ⟨⟨going, ended, rfl, rfl⟩, by simp⟩
  · obtain ⟨log, read⟩ := next_of_ended ended going
    rw [answered, read]
    refine ⟨⟨going, ended.clearLog, rfl, rfl⟩, ?_⟩
    intro answer same
    cases p <;> simp_all [Pull.answer]

theorem finished_of_end (ends : (s.pull p).1.endsItems = true) : (s.pull p).2.finished = true := by
  rcases s.pull_cases p with ⟨_, finished, answered⟩ | answered
  · rw [answered]
    exact finished
  · rw [answered] at ends ⊢
    exact Bool.or_eq_true_iff.2 (.inr ends)

theorem pull_finished (finished : s.finished = true) (p : Pull) :
    (s.pull p).2.finished = true ∧ ∀ answer, (s.pull p).1 = .item answer → answer = none := by
  cases p with
  | token => exact ⟨s.next_finished.trans finished, by simp [pull]⟩
  | item => simp [pull, nextItem, finished]

/-- What every call keeps and answers. -/
theorem of_calls (P : TokenStream → Prop) (A : Answer → Prop)
    (step : ∀ s, P s → ∀ p, P (s.pull p).2 ∧ A (s.pull p).1) (holds : P s) (calls : List Pull) :
    P (s.pulled calls) ∧ ∀ a ∈ s.answers calls, A a := by
  induction calls generalizing s with
  | nil => exact ⟨holds, by simp [answers]⟩
  | cons p calls ih =>
    obtain ⟨kept, answered⟩ := step s holds p
    obtain ⟨kept', others⟩ := ih kept
    exact ⟨kept', List.forall_mem_cons.2 ⟨answered, others⟩⟩

theorem Down.calls (down : s.Down r) (calls : List Pull) :
    (∀ a ∈ s.answers calls, a.Terminated) ∧ (s.pulled calls).reader = r := by
  obtain ⟨kept, terminated⟩ := of_calls (Down r) Answer.Terminated (fun _ down => down.pull) down calls
  exact ⟨terminated, kept.reader⟩

theorem AtEnd.calls (atEnd : s.AtEnd token r) (calls : List Pull) :
    (∀ answer, .token answer ∈ s.answers calls → answer = .ok token) ∧ (s.pulled calls).reader = r := by
  obtain ⟨kept, answered⟩ := of_calls (AtEnd token r)
    (fun a => ∀ answer, a = .token answer → answer = .ok token) (fun _ atEnd => atEnd.pull) atEnd calls
  exact ⟨fun answer mem => answered _ mem answer rfl, kept.reader⟩

theorem calls_finished (finished : s.finished = true) (calls : List Pull) :
    ∀ answer, .item answer ∈ s.answers calls → answer = none := by
  have answered := (of_calls (·.finished = true) (fun a => ∀ answer, a = .item answer → answer = none)
    (fun _ finished => pull_finished finished) finished calls).2
  exact fun answer mem => answered _ mem answer rfl

theorem failure_once (s : TokenStream) (calls : List Pull) :
    (s.answers calls).countP Answer.reportsFailure ≤ 1 := by
  induction calls generalizing s with
  | nil => simp [answers]
  | cons p calls ih =>
    rw [answers, List.countP_cons]
    split
    · rename_i reported
      have none_ : ((s.pull p).2.answers calls).countP Answer.reportsFailure = 0 := by
        rw [List.countP_eq_zero]
        intro a later
        have terminated := ((down_of_report reported).calls calls).1 a later
        rw [terminated.reportsFailure]
        decide
      omega
    · exact ih _

/-- As long as there are items, each takes a token. -/
theorem pulled_eq_skip (unfinished : s.finished = false) {calls : List Pull}
    (going : ∀ a ∈ s.answers calls, a.endsItems = false) :
    (s.pulled calls).finished = false ∧ s.pulled calls = s.skip calls.length := by
  induction calls generalizing s with
  | nil => exact ⟨unfinished, rfl⟩
  | cons p calls ih =>
    obtain ⟨first, others⟩ := List.forall_mem_cons.1 going
    have unfinished' : s.next.2.finished = false := s.next_finished.trans unfinished
    -- A call that does not end the items leaves the mark of their end as it was.
    have took : (s.pull p).2 = s.next.2 := by
      rw [pull_unfinished unfinished] at first ⊢
      simp only [first, ← unfinished']
    change ((s.pull p).2.pulled calls).finished = false ∧
      (s.pull p).2.pulled calls = s.next.2.skip calls.length
    rw [took] at others ⊢
    exact ih unfinished' others

theorem Reached.next (reached : s.Reached r) : s.next.2.Reached r := by
  rcases s.next_cases with ⟨_, read⟩ | ⟨going, p, buffer, log, _, read⟩ | ⟨_, _, _, _, _, _, read⟩
  · rw [read]
    exact reached
  · constructor
    · intro _
      -- The window is related to itself, so the simulation carries its reads through the scan.
      have above : s.Over (fun w v => v = w ∧ w.Traces r) s :=
        ⟨⟨_, ⟨rfl, reached.traces going⟩, rfl⟩, rfl, rfl, rfl⟩
      obtain ⟨_, _, ⟨_, ⟨_, traces⟩, _⟩, _⟩ := above.next (traces_simulation r) read
      rwa [read]
    · intro finished
      rw [next_finished] at finished
      rcases reached.finished finished with failed | ended
      · rw [going] at failed
        cases failed
      · obtain ⟨_, read'⟩ := next_of_ended ended going
        rw [read']
        exact .inr ended.clearLog
  · rw [read]
    exact ⟨nofun, fun _ => .inl rfl⟩

/-- Items end where the stream has failed or come to the end of input. -/
theorem ended_of_endsItems (ends : (p.answer s.next.1).endsItems = true) :
    s.next.2.failed = true ∨ s.next.2.buffer.Ended := by
  rcases s.next_cases with ⟨failed, read⟩ | ⟨_, _, _, _, _, read⟩ | ⟨_, _, _, _, _, _, read⟩
  · rw [read]
    exact .inl failed
  · rw [read] at ends ⊢
    refine .inr (ended_of_next read ?_).1
    cases p with
    | token => cases ends
    | item =>
      by_contra more
      simp [Pull.answer, itemOf, more, Answer.endsItems] at ends
  · rw [read]
    exact .inl rfl

theorem Reached.pull (reached : s.Reached r) (p : Pull) : (s.pull p).2.Reached r := by
  rcases s.pull_cases p with ⟨_, _, answered⟩ | answered
  · rw [answered]
    exact reached
  · rw [answered]
    refine ⟨reached.next.traces, ?_⟩
    intro finished
    rcases Bool.or_eq_true_iff.1 finished with before | ends
    · exact reached.next.finished (s.next_finished.trans before)
    · exact ended_of_endsItems ends

theorem Reached.pulled (reached : s.Reached r) (calls : List Pull) : (s.pulled calls).Reached r :=
  (of_calls (Reached r) (fun _ => True) (fun _ reached p => ⟨reached.pull p, trivial⟩) reached calls).1

/-- A call that meets the end of input leaves the stream there. -/
theorem Reached.atEnd (reached : s.Reached r) (read : s.next = (.ok token, s')) (eof : token.isEof = true)
    (p : Pull) : (s.pull p).2.AtEnd token (s.pull p).2.reader := by
  have going : s.failed = false := (next_token read).1
  rcases s.pull_cases p with ⟨_, finished, answered⟩ | answered
  · rw [answered]
    rcases reached.finished finished with failed | ended
    · rw [going] at failed
      cases failed
    · obtain ⟨_, read'⟩ := next_of_ended ended going
      cases read.symm.trans read'
      exact ⟨going, ended, rfl, rfl⟩
  · obtain ⟨ended, same⟩ := ended_of_next read eof
    obtain ⟨_, _, _, _, _, _, moved⟩ := next_token read
    rw [answered, read]
    exact ⟨by rw [moved]; exact going, ended, same.symm, rfl⟩

end TokenStream

/-- The reader may do as it likes: it may deliver more after it has delivered nothing, or after it has
failed, and none of that is seen. -/
theorem lifeCycle_ofConfig [Library] (r : ByteReader) (c : Config) : LifeCycle r (ofConfig r c) where
  failure_once := failure_once _
  after_failure calls p reported later := (down_of_report reported).calls later
  at_end calls token first eof := by
    have reached := (Reached.ofConfig r c).pulled calls
    generalize (ofConfig r c).pulled calls = s at reached first ⊢
    obtain ⟨s', read⟩ : ∃ s', s.next = (.ok token, s') := ⟨s.next.2, by rw [← first]⟩
    refine ⟨by rw [(ended_of_next read eof).2]; rfl, ?_⟩
    intro p
    have atEnd := reached.atEnd read eof p
    have traces := (reached.pull p).traces atEnd.going
    refine ⟨?_, atEnd.calls⟩
    obtain ⟨results, _, reads⟩ := traces
    rw [if_pos atEnd.buffer.window.exhausted] at reads
    exact ⟨results, reads⟩
  after_items _ ends := calls_finished (finished_of_end ends)
  items calls going p := by
    obtain ⟨unfinished, same⟩ := pulled_eq_skip rfl going
    rw [pull_unfinished unfinished, same]

end EcmaLex
