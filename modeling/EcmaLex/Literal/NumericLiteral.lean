import EcmaLex.Mode
import EcmaLex.Recognizer
import EcmaLex.Text.IdentifierClass

/-!
Numeric literals. A scanner accepts characters as long as they continue a literal; its phase says
which form the accepted text has. A literal that runs into an identifier character, a digit or a
backslash is malformed, and so is one that breaks off too early; the rest of the word goes with it.
-/
namespace EcmaLex
open Text

inductive NumberPhase where
  | start
  /-- A lone `0`. -/
  | zero
  | integer
  /-- A point that still needs a digit. -/
  | dot
  | fraction
  | exponentMark
  | exponentSign
  | exponent
  | radixMark (radix : Radix)
  | radixDigits (radix : Radix)
  /-- `0` and octal digits, in sloppy code. -/
  | legacyOctal
  deriving DecidableEq, Repr

inductive NumberStep where
  | accept
  /-- It is not part of the literal. -/
  | reject
  /-- It makes the literal malformed. -/
  | malformed
  deriving DecidableEq, Repr

namespace NumberPhase

def isComplete : NumberPhase → Bool
  | zero | integer | fraction | exponent | radixDigits _ | legacyOctal => true
  | start | dot | exponentMark | exponentSign | radixMark _ => false

/-- A second digit after a leading zero. Eight and nine make the literal decimal. -/
def afterZero (c : Char) : NumberPhase := if isOctalDigit c then legacyOctal else integer

/-- The phase that a character leads to; `none` if it does not continue the literal. -/
def advance? (mode : Mode) (p : NumberPhase) (c : Char) : Option NumberPhase :=
  match p with
  | start =>
    if c = '0' then some zero
    else if isDecimalDigit c then some integer
    else if c = '.' then some dot
    else none
  | zero =>
    match Radix.ofLetter? c with
    | some radix => some (radixMark radix)
    | none =>
      if isDecimalDigit c then
        match mode with
        | .strict => none
        | .sloppy => some (afterZero c)
      else if c = '.' then some fraction
      else if isExponentLetter c then some exponentMark
      else none
  | legacyOctal => if isDecimalDigit c then some (afterZero c) else none
  | integer =>
    if isDecimalDigit c then some integer
    else if c = '.' then some fraction
    else if isExponentLetter c then some exponentMark
    else none
  | dot => if isDecimalDigit c then some fraction else none
  | fraction =>
    if isDecimalDigit c then some fraction
    else if isExponentLetter c then some exponentMark
    else none
  | exponentMark =>
    if c = '+' || c = '-' then some exponentSign
    else if isDecimalDigit c then some exponent
    else none
  | exponentSign | exponent => if isDecimalDigit c then some exponent else none
  | radixMark radix | radixDigits radix =>
    if radix.hasDigit c then some (radixDigits radix) else none

/-- In strict code no digit may follow a leading zero. -/
def forbids (mode : Mode) (p : NumberPhase) (c : Char) : Bool :=
  mode == .strict && p == zero && isDecimalDigit c

end NumberPhase

structure NumberScanner where
  mode : Mode
  phase : NumberPhase := .start
  /-- The accepted characters, newest first. -/
  accepted : List Char := []
  deriving DecidableEq, Repr

namespace NumberScanner

def start (mode : Mode) : NumberScanner := { mode }

/-- The next character, or the end of input. Only an accepted character changes the scanner. -/
def feed (s : NumberScanner) (c : Option Char) : NumberStep × NumberScanner :=
  match c with
  | none => (.reject, s)
  | some c =>
    if s.phase.forbids s.mode c then (.malformed, s)
    else
      match s.phase.advance? s.mode c with
      | some phase => (.accept, { s with phase, accepted := c :: s.accepted })
      | none => (.reject, s)

def text (s : NumberScanner) : List Char := s.accepted.reverse

variable {s s' : NumberScanner} {c : Char}

theorem feed_reject (fed : s.feed (some c) = (.reject, s')) : s' = s := by
  simp only [feed] at fed
  repeat' split at fed
  all_goals cases fed
  rfl

theorem feed_malformed (fed : s.feed (some c) = (.malformed, s')) :
    s.mode = .strict ∧ s.phase = .zero ∧ isDecimalDigit c = true := by
  simp only [feed] at fed
  split at fed
  · rename_i forbidden
    simpa [NumberPhase.forbids, and_assoc] using forbidden
  · split at fed <;> cases fed

end NumberScanner

variable [Library]

namespace NumberScanner

/-- The number that digits write in a base. One that is out of range is infinity. -/
def radixValue (base : Nat) (digits : List Char) : Option Binary64 :=
  (Library.numbers.parseInteger base digits).map fun n => (Library.numbers.toFloat n).getD .infinity

/-- The value of the accepted text, if it is a complete literal. -/
def value? (s : NumberScanner) : Option Binary64 :=
  match s.phase with
  | .radixDigits radix => radixValue radix.base (s.text.drop 2)
  | .legacyOctal => radixValue 8 s.text
  | phase => if phase.isComplete then Library.numbers.parseFloat s.text else none

end NumberScanner

inductive NumberOutcome where
  | literal (value : Binary64)
  | malformed
  deriving DecidableEq, Repr

namespace NumberRecognizer

inductive State where
  | literal (scanner : NumberScanner)
  /-- Passing over the rest of a malformed literal. -/
  | tail
  deriving DecidableEq, Repr

/-- Reads a literal whose first character, a digit or a point before a digit, has been taken. -/
def start (first : Char) (mode : Mode) : State :=
  .literal ((NumberScanner.start mode).feed (some first)).2

def stepTail (c : Char) : Move State NumberOutcome :=
  if isWordTail c then .more .tail else .stop [c] .malformed

def step : State → Char → Move State NumberOutcome
  | .tail, c => stepTail c
  | .literal scanner, c =>
    match scanner.feed (some c) with
    | (.accept, scanner) => .more (.literal scanner)
    | (.malformed, _) => stepTail c
    | (.reject, scanner) =>
      match scanner.value? with
      | some value => if isTrailing c then stepTail c else .stop [c] (.literal value)
      | none => stepTail c

def atEnd : State → NumberOutcome
  | .tail => .malformed
  | .literal scanner =>
    match scanner.value? with
    | some value => .literal value
    | none => .malformed

end NumberRecognizer

def numberRecognizer : Recognizer NumberRecognizer.State NumberOutcome where
  step state c _ := NumberRecognizer.step state c
  atEnd state := ([], NumberRecognizer.atEnd state)

namespace NumberRecognizer

variable {s s' : NumberScanner} {c : Char} {back : List Char} {result : NumberOutcome}

theorem step_accept (fed : s.feed (some c) = (.accept, s')) :
    step (.literal s) c = .more (.literal s') := by
  rw [step, fed]

theorem step_malformed (fed : s.feed (some c) = (.malformed, s')) :
    step (.literal s) c = stepTail c := by
  rw [step, fed]

/-- A character that does not continue a complete literal may still spoil it. -/
theorem step_complete {value : Binary64} (fed : s.feed (some c) = (.reject, s'))
    (complete : s.value? = some value) :
    step (.literal s) c = if isTrailing c then stepTail c else .stop [c] (.literal value) := by
  rw [step, fed, NumberScanner.feed_reject fed]
  simp only [complete]

theorem step_incomplete (fed : s.feed (some c) = (.reject, s')) (incomplete : s.value? = none) :
    step (.literal s) c = stepTail c := by
  rw [step, fed, NumberScanner.feed_reject fed]
  simp only [incomplete]

theorem atEnd_complete {value : Binary64} (complete : s.value? = some value) :
    atEnd (.literal s) = .literal value := by
  rw [atEnd, complete]

theorem atEnd_incomplete (incomplete : s.value? = none) : atEnd (.literal s) = .malformed := by
  rw [atEnd, incomplete]

theorem stepTail_of_tail (tail_ : isWordTail c = true) : stepTail c = .more .tail := if_pos tail_

theorem stepTail_stop (stepped : stepTail c = .stop back result) :
    back = [c] ∧ .malformed = result := by
  unfold stepTail at stepped
  split at stepped <;> cases stepped
  exact ⟨rfl, rfl⟩

/-- Where the reading stops, one character goes back. -/
theorem stop_back {state : State} (stepped : step state c = .stop back result) : back = [c] := by
  cases state with
  | tail => exact (stepTail_stop stepped).1
  | literal s =>
    rcases fed : s.feed (some c) with ⟨answer, s'⟩
    cases answer with
    | accept => cases (step_accept fed).symm.trans stepped
    | malformed => exact (stepTail_stop ((step_malformed fed).symm.trans stepped)).1
    | reject =>
      cases value : s.value? with
      | none => exact (stepTail_stop ((step_incomplete fed value).symm.trans stepped)).1
      | some v =>
        rw [step_complete fed value] at stepped
        split at stepped
        · exact (stepTail_stop stepped).1
        · cases stepped
          rfl

end NumberRecognizer

theorem remaining_numberRecognizer {σ : Type} [CharSource σ] (state : NumberRecognizer.State)
    (s : σ) : CharSource.remaining (numberRecognizer.run state s).2 ≤ CharSource.remaining s :=
  Recognizer.remaining_run numberRecognizer (fun _ => 0)
    (by simp) (fun stepped => by simp [NumberRecognizer.stop_back stepped]) (by simp [numberRecognizer])
    state s

end EcmaLex
