import EcmaLex.Library.Running
import EcmaLex.Proofs.Reading.Numbers
import EcmaLex.Text.Utf8

/-!
A scanner of numbers may be fed anything and may go on after what it refuses. It always holds a text of its
phase, and it has a value just when this phase is complete (`scanner_staysPhased`).
-/
namespace EcmaLex
open Text NumberPhase NumberScanner

namespace NumberScanner

/-- The answers to these inputs, one after another, and the scanner behind them. -/
def feeds (s : NumberScanner) : List (Option Char) → List NumberStep × NumberScanner
  | [] => ([], s)
  | c :: inputs => ((s.feed c).1 :: ((s.feed c).2.feeds inputs).1, ((s.feed c).2.feeds inputs).2)

/-- The characters among these inputs that were accepted. -/
def acceptedOf (inputs : List (Option Char)) (answers : List NumberStep) : List Char :=
  (inputs.zip answers).filterMap fun m => if m.2 = .accept then m.1 else none

/-- What an input does to a scanner. -/
inductive Fed (s : NumberScanner) : Option Char → NumberStep × NumberScanner → Prop
  | refused {c : Option Char} {answer : NumberStep} : answer ≠ .accept → Fed s c (answer, s)
  | accepted {c : Char} {p : NumberPhase} : s.phase.advance? s.mode c = some p →
      Fed s (some c) (.accept, { s with phase := p, accepted := c :: s.accepted })

variable {mode : Mode} {s : NumberScanner} {c : Option Char}

theorem feed_fed (s : NumberScanner) (c : Option Char) : s.Fed c (s.feed c) := by
  unfold feed
  split
  · exact .refused (by decide)
  · split
    · exact .refused (by decide)
    · split
      · rename_i advanced
        exact .accepted advanced
      · exact .refused (by decide)

/-- The scanner has come to its phase by its text. -/
structure Phased (mode : Mode) (s : NumberScanner) : Prop where
  mode_eq : s.mode = mode
  led : after? mode .start s.text = some s.phase

theorem Phased.start (mode : Mode) : (NumberScanner.start mode).Phased mode := ⟨rfl, rfl⟩

theorem Phased.feed (phased : s.Phased mode) (c : Option Char) : (s.feed c).2.Phased mode := by
  have fed := s.feed_fed c
  generalize s.feed c = result at *
  cases fed with
  | refused _ => exact phased
  | @accepted c p advanced =>
    refine ⟨phased.mode_eq, ?_⟩
    rw [phased.mode_eq] at advanced
    have longer : (c :: s.accepted).reverse = s.text ++ [c] := List.reverse_cons
    rw [NumberScanner.text, longer, after?_append, phased.led, Option.bind_some, after?_one]
    exact advanced

theorem Phased.feeds (phased : s.Phased mode) (inputs : List (Option Char)) :
    (s.feeds inputs).2.Phased mode := by
  induction inputs generalizing s with
  | nil => exact phased
  | cons c inputs ih => exact ih (phased.feed c)

theorem length_feeds (s : NumberScanner) (inputs : List (Option Char)) :
    (s.feeds inputs).1.length = inputs.length := by
  induction inputs generalizing s with
  | nil => rfl
  | cons c inputs ih => exact congrArg (· + 1) (ih _)

theorem feeds_text (s : NumberScanner) (inputs : List (Option Char)) :
    (s.feeds inputs).2.text = s.text ++ acceptedOf inputs (s.feeds inputs).1 := by
  induction inputs generalizing s with
  | nil => exact (List.append_nil _).symm
  | cons c inputs ih =>
    have fed := s.feed_fed c
    rw [feeds, ih]
    generalize s.feed c = result at *
    cases fed with
    | refused other => simp [acceptedOf, other]
    | accepted advanced => simp [acceptedOf, NumberScanner.text]

theorem Phased.having (phased : s.Phased mode) : NumberScanner.having mode s.phase s.text = s := by
  rw [NumberScanner.having, NumberScanner.text, List.reverse_reverse, ← phased.mode_eq]

theorem Phased.holds (phased : s.Phased mode) : NumberPhase.Holds mode s.text s.phase := by
  have begun : NumberPhase.Holds mode [] .start := rfl
  exact holds_after begun phased.led

theorem Phased.value [Library] (phased : s.Phased mode) : s.value?.isSome = s.phase.isComplete := by
  have known := value?_isSome phased.led
  rwa [phased.having] at known

end NumberScanner

/-- What is left of a text behind so many bytes, if they end between two characters. -/
def sliceFrom? : ℕ → List Char → Option (List Char)
  | 0, text => some text
  | _ + 1, [] => none
  | n + 1, c :: text =>
    if (Utf8.encodeChar c).length ≤ n + 1 then sliceFrom? (n + 1 - (Utf8.encodeChar c).length) text else none

theorem sliceFrom?_ascii {c : Char} (narrow : (Utf8.encodeChar c).length = 1) (n : ℕ) (text : List Char) :
    sliceFrom? (n + 1) (c :: text) = sliceFrom? n text := by
  rw [sliceFrom?, narrow, if_pos (Nat.le_add_left 1 n), Nat.add_sub_cancel]

theorem radixLetters_ascii : ∀ m ∈ radixLetters, (Utf8.encodeChar m.1).length = 1 := by
  decide

/-- The prefix of a base can be cut off by its bytes. -/
theorem NumberScanner.Phased.sliced {mode : Mode} {s : NumberScanner} {radix : Radix} (phased : s.Phased mode)
    (digits : s.phase = .radixDigits radix) : sliceFrom? 2 s.text = some (s.text.drop 2) := by
  have holds := phased.holds
  rw [digits] at holds
  obtain ⟨letter, digits, among, _, _, spelled⟩ := holds
  have zero : (Utf8.encodeChar '0').length = 1 := rfl
  have narrow := radixLetters_ascii _ among
  rw [spelled, sliceFrom?_ascii zero, sliceFrom?_ascii narrow, sliceFrom?]
  rfl

/-- What a scanner is in this mode that has given these answers to these inputs. -/
structure StaysPhased [Library] (mode : Mode) (inputs : List (Option Char))
    (answers : List NumberStep) (s : NumberScanner) : Prop where
  length : answers.length = inputs.length
  mode_eq : s.mode = mode
  text : s.text = acceptedOf inputs answers
  holds : NumberPhase.Holds mode s.text s.phase
  refused : ∀ c, (s.feed c).1 ≠ .accept → (s.feed c).2 = s
  value : s.value?.isSome = s.phase.isComplete
  /-- The prefix of a base ends between two characters. -/
  sliced : ∀ radix, s.phase = .radixDigits radix → sliceFrom? 2 s.text = some (s.text.drop 2)

/-- Whatever a new scanner is fed, it stays in the phase of its text. -/
theorem scanner_staysPhased [Library] (mode : Mode) (inputs : List (Option Char)) :
    StaysPhased mode inputs ((NumberScanner.start mode).feeds inputs).1
      ((NumberScanner.start mode).feeds inputs).2 := by
  have phased := (Phased.start mode).feeds inputs
  refine ⟨length_feeds _ inputs, phased.mode_eq, feeds_text _ inputs, phased.holds, ?_, phased.value,
    fun _ => phased.sliced⟩
  intro c other
  have fed := feed_fed ((NumberScanner.start mode).feeds inputs).2 c
  generalize NumberScanner.feed _ c = result at *
  cases fed with
  | refused _ => rfl
  | accepted _ => exact absurd rfl other

open Running

/-- A digit that strict code forbids behind a zero, then digits in base sixteen with other inputs between. -/
theorem scanner_staysPhased_strict :
    let inputs := [some '0', some '1', some 'x', none, some 'g', some 'F']
    let fed := (NumberScanner.start .strict).feeds inputs
    fed.1 = [.accept, .malformed, .accept, .reject, .reject, .accept] ∧ fed.2.text = ['0', 'x', 'F'] ∧
      fed.2.phase = .radixDigits .hex ∧ StaysPhased .strict inputs fed.1 fed.2 := by
  intro inputs fed
  exact ⟨by decide, by decide, by decide, scanner_staysPhased .strict inputs⟩

end EcmaLex
