import EcmaLex.Library.Running
import EcmaLex.Proofs.CallOrder
import EcmaLex.Proofs.Resuming
import EcmaLex.Proofs.Source.ScanInvariants

/-!
What the scanners give back. It is always the character taken last, it keeps the place at which it stands in
the text, and it is never the first one of its lexeme. No more than two characters wait to be handed out again
(`TokenStream.calls_giveBack`).
-/
namespace EcmaLex
open Text CharSource SourceBuffer

/-- A recogniser gives back no other characters than the one it read last and the one it has held back. -/
structure Recognizer.HoldsBack {ρ β : Type} (m : Recognizer ρ β) (held : ρ → List Char) : Prop where
  one : ∀ state, (held state).length ≤ 1
  more : ∀ {state c loc state'}, m.step state c loc = .more state' → held state' <+: c :: held state
  stop : ∀ {state c loc back result}, m.step state c loc = .stop back result → back <+: c :: held state
  atEnd : ∀ state, (m.atEnd state).1 <+: held state

/-- A recogniser that holds nothing back and gives back at most the character it read last. -/
theorem Recognizer.HoldsBack.nothing {ρ β : Type} {m : Recognizer ρ β}
    (stop : ∀ {state c loc back result}, m.step state c loc = .stop back result → back = [] ∨ back = [c])
    (atEnd : ∀ state, (m.atEnd state).1 = []) : m.HoldsBack fun _ => [] where
  one _ := Nat.zero_le 1
  more _ := List.nil_prefix
  stop stepped := by
    rcases stop stepped with rfl | rfl
    · exact List.nil_prefix
    · exact List.prefix_refl _
  atEnd state := by rw [atEnd]

theorem holdsBack_number [Library] : numberRecognizer.HoldsBack fun _ => [] :=
  .nothing (fun stepped => .inr (NumberRecognizer.stop_back stepped)) (fun _ => rfl)

theorem holdsBack_string : stringRecognizer.HoldsBack fun _ => [] := by
  refine .nothing ?_ (fun _ => rfl)
  intro state c loc back result stepped
  simp only [stringRecognizer] at stepped
  split at stepped <;> cases stepped
  · exact .inl rfl
  · exact .inr rfl

theorem holdsBack_identifier [Library] (mode : Mode) : (identifierRecognizer mode).HoldsBack fun _ => [] := by
  refine .nothing ?_ (fun _ => rfl)
  intro state c loc back result stepped
  rcases IdentifierRecognizer.step_stop stepped with ⟨n, _, plain⟩ | ⟨backs, _⟩
  · exact .inr (IdentifierRecognizer.stepPlain_stop plain).1
  · exact backs

theorem holdsBack_lineComment : lineComment.HoldsBack fun _ => [] := by
  refine .nothing ?_ (fun _ => rfl)
  intro state c loc back result stepped
  simp only [lineComment] at stepped
  split at stepped <;> cases stepped
  exact .inr rfl

theorem holdsBack_blockComment : blockComment.HoldsBack fun _ => [] := by
  refine .nothing ?_ (fun _ => rfl)
  intro state c loc back result stepped
  simp only [blockComment] at stepped
  split at stepped <;> cases stepped
  exact .inl rfl

namespace Punctuator

/-- The point that a state may give back without having just read it. -/
def State.heldBack : State → List Char
  | .whole p => if p = optionalChain then ['.'] else []
  | .twoDots => ['.']

theorem heldBack_whole (p : Punctuator) : (State.whole p).heldBack <+: ['.'] := by
  simp only [State.heldBack]
  split
  · exact List.prefix_refl _
  · exact List.nil_prefix

theorem point_of_optionalChain {p : Punctuator} {c : Char} (longer : p.extend? c = some optionalChain) : c = '.' := by
  have spelled : ['?', '.'] = p.spelling.toList ++ [c] := spelling_extend? longer
  have last := congrArg List.getLast? spelled
  rw [List.getLast?_concat] at last
  exact (Option.some.inj last).symm

theorem heldBack_more {state state' : State} {c : Char} (stepped : step state c = .more state') :
    state'.heldBack <+: c :: state.heldBack := by
  cases state with
  | whole p =>
    simp only [step] at stepped
    split at stepped
    · rename_i longer extended
      cases stepped
      by_cases chain : longer = optionalChain
      · subst chain
        rw [point_of_optionalChain extended]
        exact (List.prefix_cons_inj _).2 List.nil_prefix
      · simp [State.heldBack, chain]
    · split at stepped
      · rename_i dots
        cases stepped
        rw [dots.2]
        exact (List.prefix_cons_inj _).2 List.nil_prefix
      · split at stepped <;> cases stepped
  | twoDots =>
    simp only [step] at stepped
    split at stepped <;> cases stepped

theorem heldBack_stop {state : State} {c : Char} {back : List Char} {result : Punctuator}
    (stepped : step state c = .stop back result) : back <+: c :: state.heldBack := by
  cases state with
  | whole p =>
    simp only [step] at stepped
    split at stepped
    · cases stepped
    · split at stepped
      · cases stepped
      · split at stepped <;> cases stepped
        · rename_i chain
          rw [State.heldBack, if_pos chain.1]
        · exact (List.prefix_cons_inj _).2 List.nil_prefix
  | twoDots =>
    simp only [step] at stepped
    split at stepped <;> cases stepped
    · exact List.nil_prefix
    · exact List.prefix_refl _

theorem holdsBack : punctuatorRecognizer.HoldsBack State.heldBack where
  one state := by
    cases state with
    | whole p => exact (heldBack_whole p).length_le
    | twoDots => exact Nat.le_refl 1
  more stepped := heldBack_more stepped
  stop stepped := heldBack_stop stepped
  atEnd state := by
    cases state with
    | whole p => exact List.nil_prefix
    | twoDots => exact List.prefix_refl _

end Punctuator

namespace Recording

variable {whole : List Mark} {ρ β : Type} {r r' : Recording}

theorem Within.run {m : Recognizer ρ β} {heldBack : ρ → List Char} (holds : m.HoldsBack heldBack) {state : ρ}
    (within : r.Within whole (heldBack state))
    (room : r.buffer.pushback.length + (heldBack state).length ≤ 1) : Leaves whole (m.run state r) := by
  fun_induction Recognizer.run m state r with
  | case1 state r cause r' asked =>
    have failed := within.kept.next m.skipFormat
    rw [asked] at failed
    exact failed.error
  | case2 state r r' asked =>
    obtain ⟨within', none_⟩ := within.next_end asked
    have back := within'.of_prefix (holds.atEnd state)
    have few := (holds.atEnd state).length_le
    have one := holds.one state
    exact (back.putBackAll (by omega)).1.kept.leaves _
  | case3 state r c r' asked state' stepped ih =>
    obtain ⟨within', none_⟩ := within.next_char (by omega) asked
    refine ih (within'.of_prefix (holds.more stepped)) ?_
    rw [none_, Nat.zero_add]
    exact holds.one state'
  | case4 state r c r' asked back result stepped =>
    obtain ⟨within', none_⟩ := within.next_char (by omega) asked
    have few := (holds.stop stepped).length_le
    rw [List.length_cons] at few
    have one := holds.one state
    exact ((within'.of_prefix (holds.stop stepped)).putBackAll (by omega)).1.kept.leaves _

/-- A recogniser that holds nothing back begins with nothing held. -/
theorem Inside.run {m : Recognizer ρ β} (holds : m.HoldsBack fun _ => []) (inside : r.Inside whole) (state : ρ) :
    Leaves whole (m.run state r) :=
  inside.within.run holds inside.room

theorem Inside.peek (inside : r.Inside whole) : StaysInside whole (peek r) := by
  have after := inside.within.kept.next false
  unfold CharSource.peek
  rcases asked : CharSource.next false r with ⟨cause | _ | c, r'⟩ <;> rw [asked] at after
  · exact .error after
  · exact (inside.next_end asked).stays _
  · exact (inside.next_char asked).2.stays _

theorem Inside.scanPunctuator (inside : r.Inside whole) (first : Char) : Leaves whole (scanPunctuator first r) := by
  unfold EcmaLex.scanPunctuator
  cases found : Punctuator.single? first with
  | none => exact inside.within.kept.leaves _
  | some p =>
    have none_ : (Punctuator.State.whole p).heldBack = [] := if_neg (Punctuator.single?_ne_optionalChain found)
    have within : r.Within whole (Punctuator.State.whole p).heldBack := none_ ▸ inside.within
    have ran := within.run Punctuator.holdsBack (by rw [none_]; exact inside.room)
    exact ran.mapAnswer some

theorem Inside.scanOperator (inside : r.Inside whole) (first : Char) (start : Location) :
    Leaves whole (scanOperator first start r) :=
  (inside.scanPunctuator first).mapAnswer _

theorem Inside.afterSolidus (inside : r.Inside whole) : StaysInside whole (afterSolidus r) := by
  have after := inside.within.kept.next false
  unfold EcmaLex.afterSolidus
  rcases asked : CharSource.next false r with ⟨cause | _ | c, r'⟩ <;> rw [asked] at after
  · exact .error after
  · exact (inside.next_end asked).stays _
  · obtain ⟨taken, back⟩ := inside.next_char asked
    simp only
    split
    · exact taken.stays _
    · split
      · exact taken.stays _
      · exact back.stays _

theorem Inside.scanSolidus (inside : r.Inside whole) (start : Location) : Leaves whole (scanSolidus start r) := by
  have decided := inside.afterSolidus
  unfold EcmaLex.scanSolidus
  rcases asked : EcmaLex.afterSolidus r with ⟨cause | opened, r'⟩ <;> rw [asked] at decided
  · exact decided.leaves.error
  · have inside' := decided.inside opened rfl
    cases opened with
    | lineComment => exact (inside'.run holdsBack_lineComment ()).mapAnswer _
    | blockComment => exact (inside'.run holdsBack_blockComment {}).mapAnswer _
    | operator => exact (inside'.scanOperator '/' start).mapAnswer some

/-- The lexeme begins at the significant character. With it one of the characters that wait is handed out. -/
theorem Kept.nextSignificant (kept : r.Kept whole) :
    Leaves whole (nextSignificant r) ∧
      ∀ c r', CharSource.nextSignificant r = (.ok (some c), r') → r'.Inside whole := by
  fun_induction CharSource.nextSignificant r with
  | case1 r c r' asked blank ih => exact ih (kept.beginLexeme.next_char asked).1
  | case2 r c r' asked significant =>
    obtain ⟨kept', ⟨loc, taken⟩, left⟩ := kept.beginLexeme.next_char asked
    refine ⟨kept'.leaves _, ?_⟩
    intro d r'' same
    cases same
    have waiting := kept.beginLexeme.pending
    refine ⟨⟨kept', marked r'.buffer.taken, ?_, rfl⟩, by omega⟩
    rw [taken]
    exact List.cons_ne_nil _ _
  | case3 r none_ => exact ⟨kept.beginLexeme.next true, fun c r' asked => absurd asked (none_ c r')⟩

variable [Library]

theorem Inside.scanNumber (inside : r.Inside whole) (mode : Mode) (first : Char) (start : Location) :
    Leaves whole (scanNumber mode first start r) :=
  (inside.run holdsBack_number _).mapAnswer _

/-- The first character of a word is part of it. -/
theorem Inside.resume_identifier (inside : r.Inside whole) (mode : Mode) {c : Char}
    (begins : c = '\\' ∨ isIdentifierStart c = true) :
    Leaves whole ((identifierRecognizer mode).resume IdentifierRecognizer.start c r) := by
  obtain ⟨state, stepped⟩ := IdentifierRecognizer.step_start mode (CharSource.here r) begins
  rw [Recognizer.resume, stepped]
  exact inside.run (holdsBack_identifier mode) state

theorem Inside.scanFrom (inside : r.Inside whole) (mode : Mode) (first : Char) (start : Location) :
    Leaves whole (scanFrom mode first start r) := by
  unfold EcmaLex.scanFrom
  split
  · exact (inside.run holdsBack_string _).mapAnswer _
  · split
    · exact inside.scanNumber mode first start
    · split
      · have looked := inside.peek
        rcases peeked : CharSource.peek r with ⟨cause | follower, r'⟩ <;> rw [peeked] at looked
        · exact looked.leaves.error
        · have inside' := looked.inside follower rfl
          simp only
          split
          · exact inside'.scanNumber mode first start
          · exact inside'.scanOperator first start
      · split
        · rename_i begins
          exact (inside.resume_identifier mode begins).mapAnswer _
        · exact inside.scanOperator first start

theorem Kept.scanOnce (kept : r.Kept whole) (mode : Mode) : Leaves whole (scanOnce mode r) := by
  obtain ⟨leaves, begun⟩ := kept.nextSignificant
  unfold EcmaLex.scanOnce
  rcases found : CharSource.nextSignificant r with ⟨cause | _ | first, r'⟩ <;> rw [found] at leaves
  · exact leaves.error
  · exact leaves.kept.leaves _
  · have inside := begun first r' found
    simp only
    split
    · exact leaves.kept.leaves _
    · split
      · exact inside.scanSolidus _
      · exact (inside.scanFrom mode first _).mapAnswer some

/-- A scan keeps its calls in order, whether it finds a token or its source fails. -/
theorem Kept.scan (kept : r.Kept whole) (mode : Mode) : Leaves whole (scan mode r) := by
  fun_induction EcmaLex.scan mode r with
  | case1 r cause r' once =>
    have leaves := kept.scanOnce mode
    rw [once] at leaves
    exact leaves.error
  | case2 r p r' once =>
    have leaves := kept.scanOnce mode
    rw [once] at leaves
    exact leaves.kept.leaves _
  | case3 r r' once ih =>
    have leaves := kept.scanOnce mode
    rw [once] at leaves
    exact ih leaves.kept

/-- A scan goes on from where it began. -/
theorem scan_start (mode : Mode) (r : Recording) : (scan mode r).2.start = r.start := by
  have inv : ScanInvariant fun s : Recording => s.start = r.start := by
    refine ⟨?_, fun same _ => same, fun same => same⟩
    intro s same skipFormat
    exact (s.start_next skipFormat).trans same
  exact inv.scan rfl mode

end Recording

namespace TokenStream

variable {whole : List Mark} {s : TokenStream}

/-- The buffer of a stream, with nothing recorded. -/
def recording (again : Nat → Bool) (s : TokenStream) : Recording := { start := s.buffer, again }

/-- The stream has read in order so far. Once it has failed it will not ask for its text again. -/
structure ReadsOn (whole : List Mark) (s : TokenStream) : Prop where
  pending : s.buffer.pushback.length ≤ 2
  inText : s.failed = false → s.buffer.InText whole

theorem ReadsOn.ofConfig (reader : ByteReader) (c : Config) :
    (ofConfig reader c).ReadsOn
      (located ⟨c.startLine, 0⟩ (normalize (Utf8.lossy (ByteReader.contents reader.script)))) where
  pending := Nat.zero_le 2
  inText _ := .ofReader reader c.bufferCapacity c.startLine

variable [Library]

/-- The calls that `next` makes on the buffer of a stream. A stream that has failed makes none. -/
def calls (again : Nat → Bool) (s : TokenStream) : List Call :=
  if s.failed then [] else (scan s.mode (s.recording again)).2.calls ++ [.collect]

theorem ReadsOn.scan (on : s.ReadsOn whole) (going : s.failed = false) (again : Nat → Bool) :
    Recording.Leaves whole (scan s.mode (s.recording again)) := by
  have kept : (s.recording again).Kept whole := ⟨.opened on.pending, on.inText going⟩
  exact kept.scan s.mode

theorem ReadsOn.calls (on : s.ReadsOn whole) (again : Nat → Bool) :
    Disciplined whole s.buffer (s.calls again) := by
  unfold TokenStream.calls
  split
  · exact .opened on.pending
  · rename_i going
    have leaves := on.scan (eq_false_of_ne_true going) again
    have begun := Recording.scan_start s.mode (s.recording again)
    have ordered := leaves.disciplined
    rw [begun] at ordered
    exact ordered.call (fun c same => nomatch same) (ordered.pending _ (List.prefix_refl _))

/-- The recorded calls are those that take the buffer to where the next token leaves it. -/
theorem next_called (again : Nat → Bool) (s : TokenStream) :
    s.next.2.buffer = called (s.calls again) s.buffer := by
  have forgotten := Recording.forget_scan s.mode (s.recording again)
  have begun := Recording.scan_start s.mode (s.recording again)
  have left : called (scan s.mode (s.recording again)).2.calls s.buffer = (scan s.mode s.buffer).2 := by
    have same := congrArg Prod.snd forgotten
    rw [Recording.forget, Recording.buffer, begun] at same
    exact same
  rcases s.next_cases with ⟨failed, read⟩ | ⟨going, p, buffer, log, scanned, read⟩ |
    ⟨going, line, cause, buffer, log, scanned, read⟩
  · rw [read, TokenStream.calls, if_pos failed]
    rfl
  · rw [read, TokenStream.calls, if_neg (by simp [going]), called_concat, left, scanned]
    rfl
  · rw [read, TokenStream.calls, if_neg (by simp [going]), called_concat, left, scanned]
    rfl

theorem ReadsOn.next (on : s.ReadsOn whole) : s.next.2.ReadsOn whole := by
  let once : Nat → Bool := fun _ => false
  constructor
  · rw [next_called once]
    exact (on.calls once).pending _ (List.prefix_refl _)
  · intro going
    rcases s.next_cases with ⟨failed, read⟩ | ⟨before, p, buffer, log, scanned, read⟩ |
      ⟨before, line, cause, buffer, log, scanned, read⟩
    · rw [read] at going ⊢
      exact on.inText going
    · have same := (Recording.forget_scan s.mode (s.recording once)).trans scanned
      have inText := (on.scan before once).inText p (congrArg Prod.fst same)
      have left : (EcmaLex.scan s.mode (s.recording once)).2.buffer = buffer := congrArg Prod.snd same
      rw [left] at inText
      rw [read]
      exact inText.clearLog
    · rw [read] at going
      cases going

theorem ReadsOn.skip (on : s.ReadsOn whole) (k : Nat) : (s.skip k).ReadsOn whole := by
  induction k generalizing s with
  | zero => exact on
  | succ k ih => exact ih on.next

/-- After any number of tokens, whatever the reader delivers and whatever is asked for twice: the calls made for
the next token answer it and leave the buffer where it is left, and they give back nothing but the character
taken last, which is never the first one of its lexeme. -/
theorem calls_giveBack (reader : ByteReader) (c : Config) (k : Nat) (again : Nat → Bool) :
    let s := (ofConfig reader c).skip k
    let text := normalize (Utf8.lossy (ByteReader.contents reader.script))
    (EcmaLex.scan s.mode (s.recording again)).1 = (EcmaLex.scan s.mode s.buffer).1 ∧
      s.next.2.buffer = called (s.calls again) s.buffer ∧
        Disciplined (located ⟨c.startLine, 0⟩ text) s.buffer (s.calls again) := by
  intro s text
  have on : s.ReadsOn (located ⟨c.startLine, 0⟩ text) := (ReadsOn.ofConfig reader c).skip k
  exact ⟨congrArg Prod.fst (Recording.forget_scan s.mode (s.recording again)), next_called again s, on.calls again⟩

end TokenStream

open Running

/-- Two characters wait once a question mark has been read that a decimal follows. -/
example : (TokenStream.ofText "?.5").next.2.buffer.pushback = [('.', ⟨1, 1⟩), ('5', ⟨1, 2⟩)] := by
  decide +kernel

end EcmaLex
