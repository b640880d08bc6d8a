import EcmaLex.Proofs.Grammar.Cut
import EcmaLex.Proofs.Reading.Run
import EcmaLex.Identifier
import EcmaLex.Literal.NumericLiteral
import EcmaLex.Literal.StringLiteral
import EcmaLex.Punctuator

/-!
Places do not decide what is read. A recogniser whose steps are the same with all places left out makes
of a tape what it makes of the plain text (`Recognizer.Rule.cut`).
-/
namespace EcmaLex
open CharSource

variable {ρ β : Type}

def Move.map (f : ρ → ρ) (g : β → β) : Move ρ β → Move ρ β
  | more state => more (f state)
  | stop back result => stop back (g result)

@[simp] theorem Move.map_more (f : ρ → ρ) (g : β → β) (state : ρ) :
    (Move.more state).map f g = .more (f state) := rfl

@[simp] theorem Move.map_stop (f : ρ → ρ) (g : β → β) (back : List Char) (result : β) :
    (Move.stop back result).map f g = .stop back (g result) := rfl

theorem Move.map_id (move : Move ρ β) : move.map id id = move := by
  cases move <;> rfl

namespace Recognizer

/-- The steps are the same when the places are left out of states and results. -/
structure Placeless (m : Recognizer ρ β) (bare : ρ → ρ) (forget : β → β) : Prop where
  step (state : ρ) (c : Char) (loc : Location) :
    m.step (bare state) c default = (m.step state c loc).map bare forget
  atEnd (state : ρ) : m.atEnd (bare state) = ((m.atEnd state).1, forget (m.atEnd state).2)

/-- After what has been read, the rest of any text is cut as from this state. -/
def Arrives (m : Recognizer ρ β) (start : ρ) (before : Nat) (state : ρ) (read : List Mark) : Prop :=
  ∀ text, m.cut start before ((marked read ++ text).drop before) = m.cut state read.length text

variable {m : Recognizer ρ β} {Inv : ρ → List Mark → Prop} {Post : β → List Mark → List Mark → Prop}
  {bare : ρ → ρ} {forget : β → β}

theorem Stops.cut {start : ρ} {before : Nat} {read after : List Mark} {back : List Char} {result : β}
    (stops : m.Stops Post read back result after)
    (ends : m.cut start before ((marked read ++ marked after).drop before) =
      (forget result, read.length - back.length)) :
    m.Stops (fun result slice after => Post result slice after ∧
      m.cut start before ((marked (slice ++ after)).drop before) = (forget result, slice.length))
      read back result after := by
  obtain ⟨slice, given, rfl, rfl, kept, post⟩ := stops
  refine ⟨slice, given, rfl, rfl, kept, post, ?_⟩
  have text : marked (slice ++ (given ++ after)) = marked (slice ++ given) ++ marked after := by
    rw [← marked_append, List.append_assoc]
  have count : (slice ++ given).length - (marked given).reverse.length = slice.length := by
    rw [List.length_reverse, length_marked, List.length_append]
    omega
  rw [text, ends, count]

/-- What a rule says of a run, and besides that the run cuts the text as plain text is cut. -/
theorem Rule.cut (rule : m.Rule Inv Post) (placeless : m.Placeless bare forget)
    (plain : m.skipFormat = false) (start : ρ) (before : Nat) :
    m.Rule (fun state read => Inv state read ∧ m.Arrives start before (bare state) read)
      (fun result slice after => Post result slice after ∧
        m.cut start before ((marked (slice ++ after)).drop before) = (forget result, slice.length)) where
  drop := by
    rintro state read mark _ passed
    simp [Tape.dropped, plain] at passed
  more := by
    rintro state read c loc state' ⟨inv, arrives⟩ kept stepped
    refine ⟨rule.more inv kept stepped, ?_⟩
    intro text
    have bareStep : m.step (bare state) c default = .more (bare state') := by
      rw [placeless.step state c loc, stepped, Move.map_more]
    have chars : marked (read ++ [(c, loc)]) ++ text = marked read ++ c :: text := by simp
    rw [chars, arrives (c :: text), cut_more bareStep, List.length_append, List.length_singleton]
  stop := by
    rintro state read c loc back result after ⟨inv, arrives⟩ kept stepped
    refine (rule.stop after inv kept stepped).cut ?_
    have bareStep : m.step (bare state) c default = .stop back (forget result) := by
      rw [placeless.step state c loc, stepped, Move.map_stop]
    have chars : marked (read ++ [(c, loc)]) ++ marked after = marked read ++ c :: marked after := by
      simp
    rw [chars, arrives (c :: marked after), cut_stop bareStep, List.length_append, List.length_singleton]
  atEnd := by
    rintro state read ⟨inv, arrives⟩
    refine (rule.atEnd inv).cut ?_
    rw [marked_nil, arrives [], Recognizer.cut, placeless.atEnd]

/-- A run from the character after the first one. -/
theorem Rule.run_cut (rule : m.Rule Inv Post) (placeless : m.Placeless bare forget)
    (plain : m.skipFormat = false) {state : ρ} {first : Mark} {t₀ t : Tape} (inv : Inv state [first])
    (took : t₀.Took false [first] t) :
    ∃ result slice t', m.run state t = (.ok result, t') ∧ t₀.Took false slice t' ∧
      Post result slice t'.ahead ∧
      m.cut (bare state) 1 (marked t.ahead) = (forget result, slice.length) := by
  rw [← plain] at took
  have arrives : m.Arrives (bare state) 1 (bare state) [first] := fun _ => rfl
  obtain ⟨result, slice, t', ran, took', post, cut⟩ :=
    (rule.cut placeless plain (bare state) 1).run ⟨inv, arrives⟩ took
  rw [← took'.ahead, took.ahead] at cut
  rw [plain] at took'
  exact ⟨result, slice, t', ran, took', post, cut⟩

end Recognizer

theorem numberRecognizer_placeless [Library] : numberRecognizer.Placeless id id where
  step state c _ := (Move.map_id (NumberRecognizer.step state c)).symm
  atEnd _ := rfl

theorem punctuatorRecognizer_placeless : punctuatorRecognizer.Placeless id id where
  step state c _ := (Move.map_id (Punctuator.step state c)).symm
  atEnd _ := rfl

def IdentifierOutcome.bare : IdentifierOutcome → IdentifierOutcome
  | malformedEscape _ => malformedEscape default
  | outcome => outcome

namespace IdentifierRecognizer

def Escape.bare (e : Escape) : Escape := { e with loc := default }

def State.bare : State → State
  | plain name => plain name
  | backslash e => backslash e.bare
  | marked e => marked e.bare
  | fourDigits e remaining value => fourDigits e.bare remaining value
  | braced e value digits => braced e.bare value digits
  | tail _ => tail default

theorem outcome_bare (mode : Mode) (n : Name) : (n.outcome mode).bare = n.outcome mode := by
  unfold Name.outcome
  simp only
  split <;> rfl

theorem atEnd_bare (mode : Mode) (state : State) :
    atEnd mode state.bare = (atEnd mode state).bare := by
  cases state with
  | plain n => exact (outcome_bare mode n).symm
  | backslash e => rfl
  | marked e => rfl
  | fourDigits e remaining value => rfl
  | braced e value digits => rfl
  | tail loc => rfl

variable [Library]

theorem stepTail_bare (c : Char) (loc : Location) :
    stepTail default c = (stepTail loc c).map State.bare IdentifierOutcome.bare := by
  unfold stepTail
  split <;> rfl

theorem complete_bare (e : Escape) (value : Nat) :
    e.bare.complete value = (e.complete value).map State.bare IdentifierOutcome.bare := by
  unfold Escape.complete
  split
  · rfl
  · rename_i c _
    change (if e.before.admits c then _ else _) = _
    split <;> rfl

theorem stepDigit_bare (e : Escape) (remaining value : Nat) (c : Char) :
    stepDigit e.bare remaining value c =
      (stepDigit e remaining value c).map State.bare IdentifierOutcome.bare := by
  unfold stepDigit
  split
  · exact stepTail_bare c e.loc
  · rename_i digit _
    by_cases last : remaining = 1
    · simp only [if_pos last]
      exact complete_bare e _
    · simp only [if_neg last]
      rfl

theorem stepBraced_bare (e : Escape) (value : Nat) (digits : Int32) (c : Char) :
    stepBraced e.bare value digits c =
      (stepBraced e value digits c).map State.bare IdentifierOutcome.bare := by
  unfold stepBraced
  split
  · exact complete_bare e value
  · split
    · exact stepTail_bare c e.loc
    · rfl

theorem step_bare (mode : Mode) (state : State) (c : Char) (loc : Location) :
    step mode state.bare c default = (step mode state c loc).map State.bare IdentifierOutcome.bare := by
  cases state with
  | plain n =>
    change stepPlain mode n c default = (stepPlain mode n c loc).map _ _
    unfold stepPlain
    split
    · rfl
    · split
      · rfl
      · rw [Move.map_stop, outcome_bare]
  | backslash e =>
    change (if c = 'u' then _ else stepTail default c) = Move.map _ _ (if c = 'u' then _ else _)
    split
    · rfl
    · exact stepTail_bare c e.loc
  | marked e =>
    change (if c = '{' then _ else stepDigit e.bare 4 0 c) = Move.map _ _ (if c = '{' then _ else _)
    split
    · rfl
    · exact stepDigit_bare e 4 0 c
  | fourDigits e remaining value => exact stepDigit_bare e remaining value c
  | braced e value digits => exact stepBraced_bare e value digits c
  | tail start => exact stepTail_bare c start

end IdentifierRecognizer

theorem identifierRecognizer_placeless [Library] (mode : Mode) :
    (identifierRecognizer mode).Placeless IdentifierRecognizer.State.bare IdentifierOutcome.bare where
  step := IdentifierRecognizer.step_bare mode
  atEnd state := congrArg (Prod.mk []) (IdentifierRecognizer.atEnd_bare mode state)

def StringOutcome.bare : StringOutcome → StringOutcome
  | malformedEscape _ => malformedEscape default
  | outcome => outcome

namespace StringScanner

def bare (s : StringScanner) : StringScanner :=
  { s with escapeAt := default, fault := s.fault.map fun _ => default }

/-- A step and the scanner after it, the latter without its places. -/
def bareAnswer (answer : StringStep × StringScanner) : StringStep × StringScanner :=
  (answer.1, answer.2.bare)

variable (s : StringScanner) (c : Option Char) (loc : Location)

theorem bare_fail : s.bare.fail = s.fail.bare := by
  unfold fail bare
  cases s.fault <;> rfl

theorem bare_broken : s.bare.fail.setPhase .normal = (s.fail.setPhase .normal).bare := by
  rw [bare_fail]
  rfl

theorem feedNormal_bare : s.bare.feedNormal c default = bareAnswer (s.feedNormal c loc) := by
  unfold feedNormal
  split
  · rfl
  · rfl
  · rename_i d _
    change (if d = s.quote then _ else _) = bareAnswer (if d = s.quote then _ else _)
    split
    · rfl
    · split <;> rfl

theorem breakEscape_bare : s.bare.breakEscape c default = bareAnswer (s.breakEscape c loc) := by
  unfold breakEscape
  rw [bare_broken]
  exact feedNormal_bare _ c loc

theorem escapeDigit_bare (c : Char) : s.bare.escapeDigit c = (s.escapeDigit c).bare := by
  have failed : (s.bare.setPhase .normal).fail = (s.setPhase .normal).fail.bare :=
    bare_fail (s.setPhase .normal)
  unfold escapeDigit
  rw [show s.bare.mode = s.mode from rfl]
  cases s.mode with
  | strict =>
    simp only [failed]
    split <;> rfl
  | sloppy =>
    simp only
    split <;> rfl

theorem feedEscape_bare (c : Char) : s.bare.feedEscape c = (s.feedEscape c).bare := by
  unfold feedEscape
  split
  · rfl
  · split
    · rfl
    · split
      · rfl
      · split
        · exact s.escapeDigit_bare c
        · rfl

theorem feedCodePoint?_bare (value digits : Nat) (c : Char) :
    s.bare.feedCodePoint? value digits c = (s.feedCodePoint? value digits c).map bare := by
  unfold feedCodePoint?
  split
  · rw [bare_broken]
    split <;> rfl
  · cases Text.hexValue? c <;> rfl

theorem feed_bare : s.bare.feed c default = bareAnswer (s.feed c loc) := by
  unfold feed
  rw [show s.bare.phase = s.phase from rfl]
  cases s.phase with
  | normal => exact s.feedNormal_bare c loc
  | escape =>
    cases c with
    | none => rfl
    | some c => exact congrArg (Prod.mk StringStep.proceed) (s.feedEscape_bare c)
  | hex remaining value =>
    simp only
    split
    · exact s.breakEscape_bare c loc
    · split <;> rfl
  | unicodeStart =>
    simp only
    split
    · rfl
    · split
      · exact s.breakEscape_bare c loc
      · rfl
  | unicode remaining value =>
    simp only
    split
    · exact s.breakEscape_bare c loc
    · split <;> rfl
  | codePoint value digits =>
    simp only
    cases c with
    | none => exact s.breakEscape_bare none loc
    | some c =>
      rw [Option.bind_some, Option.bind_some, s.feedCodePoint?_bare value digits c]
      cases s.feedCodePoint? value digits c with
      | none => exact s.breakEscape_bare (some c) loc
      | some s' => rfl
  | legacyOctal value digits most =>
    simp only
    split
    · split
      · split <;> rfl
      · exact (s.plainUnit value).feedNormal_bare c loc
    · exact (s.plainUnit value).feedNormal_bare c loc
  | strictZero =>
    simp only
    split
    · rw [bare_broken]
      exact (s.fail.setPhase .normal).feedNormal_bare c loc
    · exact (s.plainChar '\x00').feedNormal_bare c loc

theorem outcome_bare : s.bare.outcome = s.outcome.bare := by
  unfold outcome finish bare
  cases s.fault <;> rfl

end StringScanner

theorem stringRecognizer_placeless : stringRecognizer.Placeless StringScanner.bare StringOutcome.bare where
  step s c loc := by
    simp only [stringRecognizer]
    rw [s.feed_bare (some c) loc]
    rcases s.feed (some c) loc with ⟨step, s'⟩
    cases step with
    | proceed => rfl
    | closed => exact congrArg (Move.stop []) s'.outcome_bare
    | unterminated => rfl
  atEnd _ := rfl

end EcmaLex
