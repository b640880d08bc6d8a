import EcmaLex.Proofs.Grammar.Followers
import EcmaLex.Proofs.Grammar.Tiles
import EcmaLex.Proofs.Reading.Strings

/-!
Strict and sloppy code. What strict code reads without a fault is read in the same way in sloppy code,
but for the words that only strict code reserves (`leadingToken?_loosen`).
-/
namespace EcmaLex
open Text

namespace Recognizer

variable {ρ β : Type} {m : Recognizer ρ β} {kind : β → TokenKind} {loosen : ρ → ρ} {Lost : ρ → Prop}

/-- What the states of strict code come to in sloppy code. A lost state ends in a fault. -/
structure Loosens (m : Recognizer ρ β) (kind : β → TokenKind) (loosen : ρ → ρ) (Lost : ρ → Prop) :
    Prop where
  more {state c state'} : m.step state c default = .more state' →
    m.step (loosen state) c default = .more (loosen state') ∨ Lost state'
  stop {state c back result} : m.step state c default = .stop back result →
    (kind result).fault? = none → m.step (loosen state) c default = .stop back result
  atEnd {state} : (kind (m.atEnd state).2).fault? = none → m.atEnd (loosen state) = m.atEnd state
  lost_more {state c state'} : Lost state → m.step state c default = .more state' → Lost state'
  lost_stop {state c back result} : Lost state → m.step state c default = .stop back result →
    (kind result).fault? ≠ none
  lost_atEnd {state} : Lost state → (kind (m.atEnd state).2).fault? ≠ none

variable {state : ρ} {read : Nat} {text : List Char}

theorem Loosens.lost (loosens : m.Loosens kind loosen Lost) (lost : Lost state) :
    (kind (m.cut state read text).1).fault? ≠ none := by
  induction text generalizing state read with
  | nil => exact loosens.lost_atEnd lost
  | cons c text ih =>
    cases stepped : m.step state c default with
    | more state' =>
      rw [cut_more stepped]
      exact ih (loosens.lost_more lost stepped)
    | stop back result =>
      rw [cut_stop stepped]
      exact loosens.lost_stop lost stepped

/-- What is read without a fault is read in the same way from the looser state. -/
theorem Loosens.cut (loosens : m.Loosens kind loosen Lost)
    (sound : (kind (m.cut state read text).1).fault? = none) :
    m.cut (loosen state) read text = m.cut state read text := by
  induction text generalizing state read with
  | nil => rw [Recognizer.cut, Recognizer.cut, loosens.atEnd sound]
  | cons c text ih =>
    cases stepped : m.step state c default with
    | more state' =>
      rw [cut_more stepped] at sound ⊢
      rcases loosens.more stepped with same | lost
      · rw [cut_more same, ih sound]
      · exact absurd sound (loosens.lost lost)
    | stop back result =>
      rw [cut_stop stepped] at sound ⊢
      rw [cut_stop (loosens.stop stepped sound)]

end Recognizer

/-! ### Numbers -/

theorem NumberPhase.advance?_sloppy {mode : Mode} {p : NumberPhase} {c : Char}
    (allowed : p.forbids mode c = false) : p.advance? .sloppy c = p.advance? mode c := by
  cases mode with
  | sloppy => rfl
  | strict =>
    cases p
    case zero =>
      have digit : isDecimalDigit c = false := by simpa [forbids] using allowed
      simp [advance?, digit]
    all_goals rfl

namespace NumberScanner

variable {s s' : NumberScanner} {c : Char}

def loosen (s : NumberScanner) : NumberScanner := { s with mode := .sloppy }

theorem feed_loosen {answer : NumberStep} (fed : s.feed (some c) = (answer, s'))
    (allowed : answer ≠ .malformed) : s.loosen.feed (some c) = (answer, s'.loosen) := by
  unfold feed at fed ⊢
  simp only at fed ⊢
  cases forbidden : s.phase.forbids s.mode c with
  | true =>
    rw [forbidden, if_pos rfl] at fed
    cases fed
    exact absurd rfl allowed
  | false =>
    have free : s.loosen.phase.forbids s.loosen.mode c = false := rfl
    have next : s.loosen.phase.advance? s.loosen.mode c = s.phase.advance? s.mode c :=
      NumberPhase.advance?_sloppy forbidden
    rw [forbidden, if_neg Bool.false_ne_true] at fed
    rw [free, if_neg Bool.false_ne_true, next]
    cases advanced : s.phase.advance? s.mode c <;> rw [advanced] at fed <;> cases fed <;> rfl

end NumberScanner

namespace NumberRecognizer

def State.loosen : State → State
  | literal s => literal s.loosen
  | tail => tail

variable [Library] {c : Char} {back : List Char} {state' : State} {s : NumberScanner}
  {result : NumberOutcome}

theorem stepTail_more (stepped : stepTail c = .more state') : state' = .tail := by
  unfold stepTail at stepped
  split at stepped <;> cases stepped
  rfl

theorem stepLiteral_more (stepped : step (.literal s) c = .more state') :
    step (.literal s.loosen) c = .more state'.loosen ∨ state' = .tail := by
  rcases fed : s.feed (some c) with ⟨answer, s'⟩
  cases answer with
  | accept =>
    rw [step_accept fed] at stepped
    cases stepped
    exact .inl (step_accept (NumberScanner.feed_loosen fed (by simp)))
  | malformed =>
    rw [step_malformed fed] at stepped
    exact .inr (stepTail_more stepped)
  | reject =>
    cases value : s.value? with
    | none =>
      rw [step_incomplete fed value] at stepped
      exact .inr (stepTail_more stepped)
    | some v =>
      rw [step_complete fed value] at stepped
      split at stepped
      · exact .inr (stepTail_more stepped)
      · cases stepped

theorem stepLiteral_loosen (stepped : step (.literal s) c = .stop back result)
    (sound : (TokenKind.ofNumber result).fault? = none) :
    step (.literal s.loosen) c = .stop back result := by
  have broken (stepped : stepTail c = .stop back result) : step (.literal s.loosen) c = .stop back result := by
    obtain ⟨_, rfl⟩ := stepTail_stop stepped
    cases sound
  rcases fed : s.feed (some c) with ⟨answer, s'⟩
  cases answer with
  | accept => cases (step_accept fed).symm.trans stepped
  | malformed => exact broken ((step_malformed fed).symm.trans stepped)
  | reject =>
    cases value : s.value? with
    | none => exact broken ((step_incomplete fed value).symm.trans stepped)
    | some v =>
      rw [step_complete fed value] at stepped
      rwa [step_complete (NumberScanner.feed_loosen fed (by simp)) value]

end NumberRecognizer

theorem numberRecognizer_loosens [Library] :
    numberRecognizer.Loosens .ofNumber NumberRecognizer.State.loosen (· = .tail) where
  more {state c state'} stepped := by
    cases state with
    | tail => exact .inr (NumberRecognizer.stepTail_more stepped)
    | literal s => exact NumberRecognizer.stepLiteral_more stepped
  stop {state c back result} stepped sound := by
    cases state with
    | tail => exact stepped
    | literal s => exact NumberRecognizer.stepLiteral_loosen stepped sound
  atEnd {state} _ := by
    cases state <;> rfl
  lost_more lost stepped := by
    subst lost
    exact NumberRecognizer.stepTail_more stepped
  lost_stop lost stepped := by
    subst lost
    obtain ⟨_, rfl⟩ := NumberRecognizer.stepTail_stop stepped
    simp [TokenKind.ofNumber, Placed.ofNumber, TokenKind.fault?]
  lost_atEnd lost := by
    subst lost
    simp [numberRecognizer, NumberRecognizer.atEnd, TokenKind.ofNumber, Placed.ofNumber,
      TokenKind.fault?]

theorem numberAt_loosen [Library] {first : Char} {text : List Char}
    (sound : (TokenKind.ofNumber (numberAt .strict first text).1).fault? = none) :
    numberAt .sloppy first text = numberAt .strict first text := by
  have start : (NumberRecognizer.start first .strict).loosen = NumberRecognizer.start first .sloppy := by
    rcases fed : (NumberScanner.start .strict).feed (some first) with ⟨answer, s⟩
    have allowed : answer ≠ .malformed := by
      rintro rfl
      cases (NumberScanner.feed_malformed fed).2.1
    have fed' : (NumberScanner.start .sloppy).feed (some first) = (answer, s.loosen) :=
      NumberScanner.feed_loosen fed allowed
    rw [NumberRecognizer.start, NumberRecognizer.start, fed, fed']
    rfl
  rw [numberAt, ← start]
  exact numberRecognizer_loosens.cut sound

/-! ### Strings -/

/-- Where strict code may have no digit, sloppy code goes on with an octal escape. -/
def StringPhase.loosen : StringPhase → StringPhase
  | strictZero => legacyOctal 0 1 3
  | p => p

namespace StringScanner

def loosen (s : StringScanner) : StringScanner :=
  { s with mode := .sloppy, phase := s.phase.loosen }

def loosenAnswer (answer : StringStep × StringScanner) : StringStep × StringScanner :=
  (answer.1, answer.2.loosen)

variable (s : StringScanner) (loc : Location)

theorem loosen_fail : s.loosen.fail = s.fail.loosen := by
  unfold fail loosen
  cases s.fault <;> rfl

theorem feedNormal_loosen (c : Option Char) :
    s.loosen.feedNormal c loc = loosenAnswer (s.feedNormal c loc) := by
  unfold feedNormal
  split
  · rfl
  · rfl
  · rename_i d _
    change (if d = s.quote then _ else _) = loosenAnswer (if d = s.quote then _ else _)
    split
    · rfl
    · split <;> rfl

theorem breakEscape_loosen (c : Option Char) :
    s.loosen.breakEscape c loc = loosenAnswer (s.breakEscape c loc) := by
  have broken : s.loosen.fail.setPhase .normal = (s.fail.setPhase .normal).loosen := by
    rw [loosen_fail]
    rfl
  unfold breakEscape
  rw [broken]
  exact feedNormal_loosen _ loc c

theorem fail_broken : s.fail.fault ≠ none := by
  unfold fail
  cases s.fault <;> simp

theorem escapeDigit_loosen (c : Char) (clear : (s.escapeDigit c).fault = none) :
    s.loosen.escapeDigit c = (s.escapeDigit c).loosen := by
  unfold escapeDigit at clear ⊢
  have sloppy : s.loosen.mode = .sloppy := rfl
  rw [sloppy]
  cases mode : s.mode with
  | sloppy =>
    simp only
    split <;> rfl
  | strict =>
    rw [mode] at clear
    simp only at clear ⊢
    split at clear
    · rename_i zero
      subst zero
      rfl
    · exact absurd clear (fail_broken _)

theorem feedEscape_loosen (c : Char) (clear : (s.feedEscape c).fault = none) :
    s.loosen.feedEscape c = (s.feedEscape c).loosen := by
  unfold feedEscape at clear ⊢
  split
  · rfl
  · split
    · rfl
    · split
      · rfl
      · split
        · rename_i feed hex unicode digit
          rw [if_neg feed, if_neg hex, if_neg unicode, if_pos digit] at clear
          exact s.escapeDigit_loosen c clear
        · rfl

theorem feedCodePoint?_loosen (value digits : Nat) (c : Char) :
    s.loosen.feedCodePoint? value digits c = (s.feedCodePoint? value digits c).map loosen := by
  unfold feedCodePoint?
  split
  · split
    · rw [loosen_fail]
      rfl
    · rfl
  · cases hexValue? c <;> rfl

theorem octalValue?_of_other {c : Char} (other : isDecimalDigit c = false) : octalValue? c = none := by
  have octal : isOctalDigit c = false := by
    by_contra octal
    simp only [isOctalDigit, Bool.not_eq_false, Bool.and_eq_true, decide_eq_true_eq] at octal
    have within : c ≤ '9' := Char.le_trans octal.2 (by decide)
    simp [isDecimalDigit, octal.1, within] at other
  rw [octalValue?, octal]
  rfl

/-- After `\0` strict code takes no digit, and without one the escape is the NUL of sloppy code. -/
theorem feed_strictZero {c : Char} (phase : s.phase = .strictZero)
    (clear : (s.feed (some c) loc).2.fault = none) :
    s.loosen.feed (some c) loc = loosenAnswer (s.feed (some c) loc) := by
  have strict : s.feed (some c) loc =
      if isDecimalDigit c then (s.fail.setPhase .normal).feedNormal (some c) loc
      else (s.plainChar '\x00').feedNormal (some c) loc := by
    rw [feed, phase]
    rfl
  rw [strict] at clear ⊢
  cases digit : isDecimalDigit c with
  | true =>
    rw [digit, if_pos rfl] at clear
    obtain ⟨place, broken⟩ := Option.ne_none_iff_exists'.1 s.fail_broken
    have kept := (feedNormal_keeps (s.fail.setPhase .normal) c loc).fault place broken
    cases clear.symm.trans kept
  | false =>
    have sloppy : s.loosen.feed (some c) loc = (s.loosen.plainUnit 0).feedNormal (some c) loc := by
      have octal : s.loosen.phase = .legacyOctal 0 1 3 := congrArg StringPhase.loosen phase
      rw [feed, octal]
      simp only [Option.bind_some, octalValue?_of_other digit]
    rw [sloppy, if_neg Bool.false_ne_true]
    exact (s.plainChar '\x00').feedNormal_loosen loc (some c)

/-- A step that finds no fault is the same in sloppy code. -/
theorem feed_loosen (c : Char) (clear : (s.feed (some c) loc).2.fault = none) :
    s.loosen.feed (some c) loc = loosenAnswer (s.feed (some c) loc) := by
  by_cases zero : s.phase = .strictZero
  · exact s.feed_strictZero loc zero clear
  unfold feed at clear ⊢
  have phase' : s.loosen.phase = s.phase.loosen := rfl
  rw [phase']
  cases phase : s.phase with
  | normal => exact s.feedNormal_loosen loc (some c)
  | escape =>
    rw [phase] at clear
    exact congrArg (Prod.mk StringStep.proceed) (s.feedEscape_loosen c clear)
  | hex remaining value =>
    simp only [StringPhase.loosen]
    split
    · exact s.breakEscape_loosen loc (some c)
    · split <;> rfl
  | unicodeStart =>
    simp only [StringPhase.loosen]
    split
    · rfl
    · split
      · exact s.breakEscape_loosen loc (some c)
      · rfl
  | unicode remaining value =>
    simp only [StringPhase.loosen]
    split
    · exact s.breakEscape_loosen loc (some c)
    · split <;> rfl
  | codePoint value digits =>
    simp only [StringPhase.loosen, Option.bind_some, s.feedCodePoint?_loosen value digits c]
    cases s.feedCodePoint? value digits c with
    | none => exact s.breakEscape_loosen loc (some c)
    | some s' => rfl
  | legacyOctal value digits most =>
    simp only [StringPhase.loosen]
    split
    · split
      · split <;> rfl
      · exact (s.plainUnit value).feedNormal_loosen loc (some c)
    · exact (s.plainUnit value).feedNormal_loosen loc (some c)
  | strictZero => exact absurd phase zero

end StringScanner

theorem stringRecognizer_step {s s' : StringScanner} {c : Char} {step : StringStep}
    (fed : s.feed (some c) default = (step, s')) :
    stringRecognizer.step s c default =
      match step with
      | .proceed => .more s'
      | .closed => .stop [] s'.outcome
      | .unterminated => .stop [c] .unterminated := by
  simp only [stringRecognizer, fed]
  cases step <;> rfl

theorem StringScanner.fault_of_sound {s : StringScanner}
    (sound : (TokenKind.ofString s.outcome).fault? = none) : s.fault = none := by
  cases fault : s.fault with
  | none => rfl
  | some loc =>
    have broken : s.outcome = .malformedEscape loc := by simp [outcome, finish, fault]
    rw [broken] at sound
    cases sound

theorem stringRecognizer_loosens :
    stringRecognizer.Loosens .ofString StringScanner.loosen (·.fault ≠ none) where
  more {s c state'} stepped := by
    rcases fed : s.feed (some c) default with ⟨step, s'⟩
    rw [stringRecognizer_step fed] at stepped
    cases step with
    | proceed =>
      cases stepped
      cases fault : state'.fault with
      | some loc => exact .inr (Option.some_ne_none loc)
      | none =>
        have fed' := s.feed_loosen default c (by rw [fed]; exact fault)
        rw [fed] at fed'
        exact .inl (stringRecognizer_step fed')
    | closed => cases stepped
    | unterminated => cases stepped
  stop {s c back result} stepped sound := by
    rcases fed : s.feed (some c) default with ⟨step, s'⟩
    rw [stringRecognizer_step fed] at stepped
    cases step with
    | proceed => cases stepped
    | closed =>
      cases stepped
      have fed' := s.feed_loosen default c (by rw [fed]; exact StringScanner.fault_of_sound sound)
      rw [fed] at fed'
      exact stringRecognizer_step fed'
    | unterminated =>
      cases stepped
      cases sound
  atEnd _ := rfl
  lost_more {s c state'} lost stepped := by
    obtain ⟨loc, known⟩ := Option.ne_none_iff_exists'.1 lost
    have kept := (s.feed_keeps c default).fault loc known
    rcases fed : s.feed (some c) default with ⟨step, s'⟩
    rw [fed] at kept
    rw [stringRecognizer_step fed] at stepped
    cases step <;> cases stepped
    exact Option.ne_none_iff_exists'.2 ⟨loc, kept⟩
  lost_stop {s c back result} lost stepped := by
    obtain ⟨loc, known⟩ := Option.ne_none_iff_exists'.1 lost
    have kept := (s.feed_keeps c default).fault loc known
    rcases fed : s.feed (some c) default with ⟨step, s'⟩
    rw [fed] at kept
    rw [stringRecognizer_step fed] at stepped
    cases step with
    | proceed => cases stepped
    | closed =>
      cases stepped
      intro sound
      cases kept.symm.trans (StringScanner.fault_of_sound sound)
    | unterminated =>
      cases stepped
      exact Option.some_ne_none _
  lost_atEnd _ := Option.some_ne_none _

theorem stringAt_loosen {first : Char} {text : List Char}
    (sound : (TokenKind.ofString (stringAt .strict first text).1).fault? = none) :
    stringAt .sloppy first text = stringAt .strict first text :=
  stringRecognizer_loosens.cut sound

/-! ### Words -/

/-- A word that strict code alone reserves is a name in sloppy code. -/
def IdentifierOutcome.loosen (slice : List Char) (outcome : IdentifierOutcome) : IdentifierOutcome :=
  if outcome = .word .reserved ∧ String.ofList slice ∈ strictReserved then .name slice else outcome

theorem IdentifierOutcome.loosen_of_ne {slice : List Char} {outcome : IdentifierOutcome}
    (other : outcome ≠ .word .reserved) : outcome.loosen slice = outcome :=
  if_neg fun reserved => other reserved.1

theorem not_strictReserved {word : String} (always : word ∈ alwaysReserved) : word ∉ strictReserved := by
  revert word
  decide

namespace IdentifierRecognizer

theorem outcome_loosen {n : Name} {slice : List Char} (same : n.escaped = false → n.chars.reverse = slice) :
    n.outcome .sloppy = (n.outcome .strict).loosen slice := by
  unfold Name.outcome
  cases escaped : n.escaped with
  | true => exact (IdentifierOutcome.loosen_of_ne (by simp)).symm
  | false =>
    rw [same escaped]
    simp only [Bool.false_eq_true, if_false, reservedWord?]
    cases Keyword.ofSpelling? (String.ofList slice) with
    | some k => exact (IdentifierOutcome.loosen_of_ne (by simp)).symm
    | none =>
      by_cases always : String.ofList slice ∈ alwaysReserved
      · simp [always, IdentifierOutcome.loosen, not_strictReserved always]
      · by_cases strict : String.ofList slice ∈ strictReserved
        · simp [always, strict, IdentifierOutcome.loosen]
        · simp [always, strict, IdentifierOutcome.loosen]

/-- Unless it has an escape, a name is made of the characters read. -/
def State.Spells (front : List Char) : State → Prop
  | plain n => n.escaped = false → n.chars.reverse = front
  | _ => True

/-- An escape has begun. -/
def State.Escaped : State → Prop
  | plain n => n.escaped = true
  | _ => True

variable {mode : Mode} {c : Char} {loc : Location} {front : List Char} {state state' : State}

theorem State.Escaped.spells (escaped : state.Escaped) (front : List Char) : state.Spells front := by
  cases state with
  | plain n =>
    intro plain
    cases plain.symm.trans escaped
  | _ => trivial

theorem atEnd_loosen (spells : state.Spells front) :
    atEnd .sloppy state = (atEnd .strict state).loosen front := by
  cases state with
  | plain n => exact outcome_loosen spells
  | _ => exact (IdentifierOutcome.loosen_of_ne (by simp [atEnd])).symm

variable [Library]

theorem complete_escaped {e : Escape} {value : Nat} (stepped : e.complete value = .more state') :
    state'.Escaped := by
  unfold Escape.complete at stepped
  split at stepped
  · cases stepped
  · split at stepped <;> cases stepped
    · rfl
    · trivial

theorem stepTail_escaped (stepped : stepTail loc c = .more state') : state'.Escaped := by
  unfold stepTail at stepped
  split at stepped <;> cases stepped
  trivial

theorem stepDigit_escaped {e : Escape} {remaining value : Nat}
    (stepped : stepDigit e remaining value c = .more state') : state'.Escaped := by
  unfold stepDigit at stepped
  split at stepped
  · exact stepTail_escaped stepped
  · split at stepped
    · exact complete_escaped stepped
    · cases stepped
      trivial

theorem stepBraced_escaped {e : Escape} {value : Nat} {digits : Int32}
    (stepped : stepBraced e value digits c = .more state') : state'.Escaped := by
  unfold stepBraced at stepped
  split at stepped
  · exact complete_escaped stepped
  · split at stepped
    · exact stepTail_escaped stepped
    · cases stepped
      trivial

/-- Before an escape has begun, a word only grows by the characters that it admits. -/
theorem step_plain {n : Name} (stepped : step mode (.plain n) c loc = .more state') :
    c = '\\' ∧ state'.Escaped ∨ c ≠ '\\' ∧ state' = .plain (n.push c) := by
  simp only [step, stepPlain] at stepped
  split at stepped
  · rename_i backslash
    cases stepped
    exact .inl ⟨backslash, trivial⟩
  · rename_i other
    split at stepped <;> cases stepped
    exact .inr ⟨other, rfl⟩

theorem step_escaped (escaped : state.Escaped) (stepped : step mode state c loc = .more state') :
    state'.Escaped := by
  cases state with
  | plain n =>
    rcases step_plain stepped with ⟨-, begun⟩ | ⟨-, rfl⟩
    · exact begun
    · exact escaped
  | backslash e =>
    simp only [step] at stepped
    split at stepped
    · cases stepped
      trivial
    · exact stepTail_escaped stepped
  | marked e =>
    simp only [step] at stepped
    split at stepped
    · cases stepped
      trivial
    · exact stepDigit_escaped stepped
  | fourDigits e remaining value => exact stepDigit_escaped stepped
  | braced e value digits => exact stepBraced_escaped stepped
  | tail place => exact stepTail_escaped stepped

theorem step_spells (spells : state.Spells front) (stepped : step mode state c loc = .more state') :
    state'.Spells (front ++ [c]) := by
  cases state with
  | plain n =>
    rcases step_plain stepped with ⟨-, begun⟩ | ⟨-, rfl⟩
    · exact begun.spells _
    · intro plain
      have chars : n.chars.reverse = front := spells plain
      rw [Name.push, List.reverse_cons, chars]
  | _ =>
    refine (step_escaped ?_ stepped).spells _
    trivial

/-- Only the end of a word depends on the mode. -/
theorem step_more (mode' : Mode) (stepped : step mode state c loc = .more state') :
    step mode' state c loc = .more state' := by
  cases state with
  | plain n =>
    simp only [step, stepPlain] at stepped ⊢
    split at stepped
    · rename_i escape
      rw [if_pos escape, stepped]
    · rename_i plain
      rw [if_neg plain]
      split at stepped
      · rename_i part
        rw [if_pos part, stepped]
      · cases stepped
  | _ => exact stepped

/-- A word of strict code is a word of the same length in sloppy code. -/
theorem cut_loosen {told : IdentifierOutcome × Nat} {text : List Char} (spells : state.Spells front)
    (cut : (identifierRecognizer .strict).cut state front.length text = told) :
    (identifierRecognizer .sloppy).cut state front.length text =
      (told.1.loosen ((front ++ text).take told.2), told.2) := by
  induction text generalizing state front with
  | nil =>
    have strict : told = (atEnd .strict state, front.length) := cut.symm
    have sloppy : (identifierRecognizer .sloppy).cut state front.length [] =
      (atEnd .sloppy state, front.length) := rfl
    rw [strict, sloppy, List.append_nil, List.take_length, atEnd_loosen spells]
  | cons c text ih =>
    cases stepped : (identifierRecognizer .strict).step state c default with
    | more state' =>
      have sloppy : (identifierRecognizer .sloppy).step state c default = .more state' :=
        step_more .sloppy stepped
      have length : front.length + 1 = (front ++ [c]).length := by simp
      rw [Recognizer.cut_more stepped, length] at cut
      rw [Recognizer.cut_more sloppy, length, ih (step_spells spells stepped) cut, List.append_assoc]
      rfl
    | stop back result =>
      rw [Recognizer.cut_stop stepped] at cut
      subst cut
      rcases step_stop stepped with ⟨n, rfl, plain⟩ | ⟨_, place, rfl, same⟩
      · obtain ⟨rfl, rfl, sloppy⟩ := stepPlain_stop plain
        have stopped : (identifierRecognizer .sloppy).step (.plain n) c default =
          .stop [c] (n.outcome .sloppy) := sloppy .sloppy
        have whole : (front ++ c :: text).take (front.length + 1 - [c].length) = front := by simp
        rw [Recognizer.cut_stop stopped, whole, outcome_loosen spells]
      · have stopped : (identifierRecognizer .sloppy).step state c default =
          .stop back (.malformedEscape place) := (same .sloppy).1
        rw [Recognizer.cut_stop stopped, IdentifierOutcome.loosen_of_ne (by simp)]

end IdentifierRecognizer

theorem wordAt_loosen [Library] (first : Char) (text : List Char) :
    wordAt .sloppy first text =
      ((wordAt .strict first text).1.loosen ((first :: text).take (wordAt .strict first text).2),
        (wordAt .strict first text).2) := by
  have spells : IdentifierRecognizer.start.Spells [] := fun _ => rfl
  exact IdentifierRecognizer.cut_loosen spells rfl

/-! ### Tokens -/

/-- A reserved word that only strict code reserves is a name in sloppy code. -/
def TokenKind.loosen (lexeme : String) (kind : TokenKind) : TokenKind :=
  if kind = .word .reserved ∧ lexeme ∈ strictReserved then .name lexeme else kind

theorem TokenKind.loosen_of_ne {lexeme : String} {kind : TokenKind} (other : kind ≠ .word .reserved) :
    kind.loosen lexeme = kind :=
  if_neg fun reserved => other reserved.1

theorem TokenKind.ofWord_loosen (slice : List Char) (outcome : IdentifierOutcome) :
    TokenKind.ofWord (outcome.loosen slice) = (TokenKind.ofWord outcome).loosen (String.ofList slice) := by
  by_cases reserved : outcome = .word .reserved
  · subst reserved
    by_cases strict : String.ofList slice ∈ strictReserved <;>
      simp [IdentifierOutcome.loosen, TokenKind.loosen, TokenKind.ofWord, Placed.ofIdentifier, strict]
  · rw [IdentifierOutcome.loosen_of_ne reserved, TokenKind.loosen_of_ne]
    cases outcome <;> simp_all [TokenKind.ofWord, Placed.ofIdentifier]

theorem map_loosen {β : Type} {kindOf : β → TokenKind} {strict sloppy : β × Nat} {kind : TokenKind}
    {length : Nat} {lexeme : String} (other : ∀ outcome, kindOf outcome ≠ .word .reserved)
    (same : (kindOf strict.1).fault? = none → sloppy = strict)
    (told : Prod.map kindOf id strict = (kind, length)) (sound : kind.fault? = none) :
    Prod.map kindOf id sloppy = (kind.loosen lexeme, length) := by
  obtain ⟨rfl, rfl⟩ := Prod.mk.inj told
  rw [same sound, TokenKind.loosen_of_ne (other _)]
  rfl

variable [Library]

theorem wordAt_told {first : Char} {text : List Char} {kind : TokenKind} {length : Nat}
    (told : Prod.map .ofWord id (wordAt .strict first text) = (kind, length)) :
    Prod.map .ofWord id (wordAt .sloppy first text) =
      (kind.loosen (String.ofList ((first :: text).take length)), length) := by
  rcases cut : wordAt .strict first text with ⟨outcome, length'⟩
  rw [cut] at told
  obtain ⟨rfl, rfl⟩ := Prod.mk.inj told
  rw [wordAt_loosen, cut, Prod.map_apply, TokenKind.ofWord_loosen]
  rfl

/-- What a token of strict code without a fault comes to in sloppy code. -/
theorem tokenFrom_loosen {first : Char} {text : List Char} {kind : TokenKind} {length : Nat}
    (strict : tokenFrom .strict first text = (kind, length)) (sound : kind.fault? = none) :
    tokenFrom .sloppy first text =
      (kind.loosen (String.ofList ((first :: text).take length)), length) := by
  unfold tokenFrom at strict ⊢
  by_cases quote : first = '\x22' ∨ first = '\x27'
  · rw [if_pos quote] at strict ⊢
    refine map_loosen ?_ stringAt_loosen strict sound
    intro outcome
    cases outcome <;> simp [TokenKind.ofString, Placed.ofString]
  rw [if_neg quote] at strict ⊢
  by_cases number : BeginsNumber first text
  · rw [if_pos number] at strict ⊢
    refine map_loosen ?_ numberAt_loosen strict sound
    intro outcome
    cases outcome <;> simp [TokenKind.ofNumber, Placed.ofNumber]
  rw [if_neg number] at strict ⊢
  by_cases begins : first = '\\' ∨ isIdentifierStart first = true
  · rw [if_pos begins] at strict ⊢
    exact wordAt_told strict
  · rw [if_neg begins] at strict ⊢
    refine map_loosen ?_ (fun _ => rfl) strict sound
    intro outcome
    cases outcome <;> simp [TokenKind.ofPunctuator, Placed.ofPunctuator]

theorem leadingToken?_loosen {text : List Char} {kind : TokenKind} {length : Nat}
    (strict : leadingToken? .strict text = some (kind, length)) (sound : kind.fault? = none) :
    leadingToken? .sloppy text = some (kind.loosen (String.ofList (text.take length)), length) := by
  cases text with
  | nil => cases strict
  | cons first text =>
    rw [leadingToken?] at strict ⊢
    by_cases trivia : BeginsTrivia first text
    · rw [if_pos trivia] at strict
      cases strict
    · rw [if_neg trivia] at strict ⊢
      exact congrArg some (tokenFrom_loosen (Option.some.inj strict) sound)

end EcmaLex
