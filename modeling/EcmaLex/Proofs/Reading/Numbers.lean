import EcmaLex.Proofs.Grammar.NumericLiterals
import EcmaLex.Proofs.Reading.Answers
import EcmaLex.Proofs.Text.CharClasses

/-!
How a numeric literal is read. The recogniser accepts characters as long as they lead from phase to phase,
and just the complete literals have a value (`value?_isSome`). Where the phases end, the literal is complete
and stands alone, or the rest of the word is passed over (`answers_whole`, `answers_malformed`).
-/
namespace EcmaLex
open Text NumberPhase

/-- The scanner that has accepted a text. -/
def NumberScanner.having (mode : Mode) (p : NumberPhase) (text : List Char) : NumberScanner :=
  { mode, phase := p, accepted := text.reverse }

variable {mode : Mode} {p p' : NumberPhase} {c : Char} {text front power digits : List Char}
  {marks rest : List Mark} {first : Char} {q : ℚ} {e : ℤ}

namespace NumberScanner

theorem forbids_advance (advanced : p.advance? mode c = some p') : p.forbids mode c = false := by
  by_contra forbidden
  simp only [forbids, Bool.not_eq_false, Bool.and_eq_true, beq_iff_eq] at forbidden
  obtain ⟨⟨rfl, rfl⟩, digit⟩ := forbidden
  simp [advance?, ofLetter?_digit digit, digit] at advanced

theorem feed_accept (advanced : p.advance? mode c = some p') :
    (having mode p text).feed (some c) = (.accept, having mode p' (text ++ [c])) := by
  have allowed := forbids_advance advanced
  simp [feed, having, allowed, advanced]

/-- A character that does not continue the literal changes nothing. -/
theorem feed_stop (text : List Char) (stopped : p.advance? mode c = none) :
    (having mode p text).feed (some c) = (.reject, having mode p text) ∨
      (having mode p text).feed (some c) = (.malformed, having mode p text) ∧ isDecimalDigit c = true := by
  by_cases forbidden : p.forbids mode c = true
  · refine .inr ⟨by simp [feed, having, forbidden], ?_⟩
    simp only [forbids, Bool.and_eq_true] at forbidden
    exact forbidden.2
  · exact .inl (by simp [feed, having, forbidden, stopped])

end NumberScanner

open NumberScanner

namespace NumberRecognizer

theorem start_eq (begun : advance? mode .start first = some p) :
    NumberRecognizer.start first mode = .literal (having mode p [first]) := by
  have fed : (having mode .start []).feed (some first) = (.accept, having mode p ([] ++ [first])) :=
    feed_accept begun
  rw [NumberRecognizer.start, show NumberScanner.start mode = having mode .start [] from rfl, fed]
  rfl

end NumberRecognizer

variable [Library]

namespace NumberScanner

theorem value?_decimal (mantissa : Mantissa mode front q) (written : Exponent power e)
    (led : after? mode .start (front ++ power) = some p) :
    (having mode p (front ++ power)).value? = Library.numbers.parseFloat (front ++ power) := by
  obtain ⟨p', led', decimal⟩ := after?_decimal mantissa written
  cases led.symm.trans led'
  cases p with
  | zero | integer | fraction | exponent => simp [value?, having, isComplete, NumberScanner.text]
  | _ => cases decimal

theorem value?_radix {radix : Radix} {letter : Char} (letter_ : (letter, radix) ∈ radixLetters)
    (some_ : digits ≠ []) (all : ∀ c ∈ digits, radix.hasDigit c = true)
    (led : after? mode .start ('0' :: letter :: digits) = some p) :
    (having mode p ('0' :: letter :: digits)).value? = radixValue radix.base digits := by
  cases led.symm.trans (after?_radix letter_ some_ all)
  simp [value?, having, NumberScanner.text]

/-- The zero in front is one of the digits here. -/
theorem value?_legacyOctal (some_ : digits ≠ []) (all : ∀ c ∈ digits, isOctalDigit c = true)
    (led : after? .sloppy .start ('0' :: digits) = some p) :
    (having .sloppy p ('0' :: digits)).value? = radixValue 8 ('0' :: digits) := by
  cases led.symm.trans (after?_legacyOctal some_ all)
  simp [value?, having, NumberScanner.text]

theorem radixValue_isSome (radix : Radix) (some_ : digits ≠ [])
    (all : ∀ c ∈ digits, radix.hasDigit c = true) : (radixValue radix.base digits).isSome = true := by
  rw [radixValue, Option.isSome_map]
  exact Library.numbers.parseInteger_isSome radix digits some_ all

/-- Just the complete literals have a value. -/
theorem value?_isSome (led : after? mode .start text = some p) :
    (having mode p text).value?.isSome = p.isComplete := by
  cases complete : p.isComplete with
  | false =>
    cases p with
    | start | dot | exponentMark | exponentSign | radixMark radix => simp [value?, having, isComplete]
    | _ => cases complete
  | true =>
    obtain ⟨q, literal⟩ := numericLiteral_iff.2 ⟨p, led, complete⟩
    cases literal with
    | decimal mantissa written =>
      obtain ⟨n, e', decimal, _⟩ := mantissa.decimalText written
      rw [value?_decimal mantissa written led]
      exact Library.numbers.parseFloat_isSome _ n e' decimal
    | radix letter some_ all =>
      rw [value?_radix letter some_ all led]
      exact radixValue_isSome _ some_ all
    | legacyOctal some_ all =>
      rw [value?_legacyOctal some_ all led]
      exact radixValue_isSome .octal (by simp) (List.forall_mem_cons.2 ⟨rfl, all⟩)

end NumberScanner

namespace NumberRecognizer

theorem passes_literal (led : after? mode p (marked marks) = some p') :
    numberRecognizer.Passes (.literal (having mode p front)) marks
      (.literal (having mode p' (front ++ marked marks))) := by
  induction marks generalizing front p with
  | nil =>
    cases led
    rw [marked_nil, List.append_nil]
    exact .nil _
  | cons m marks ih =>
    rw [marked_cons, after?_cons] at led
    obtain ⟨p₁, advanced, led⟩ := Option.bind_eq_some_iff.1 led
    have stepped : numberRecognizer.step (.literal (having mode p front)) m.1 m.2 =
        .more (.literal (having mode p₁ (front ++ [m.1]))) := by
      exact step_accept (feed_accept advanced)
    rw [marked_cons, List.append_cons]
    exact .cons stepped (ih led)

/-- Where the literal is malformed, the rest of the word goes with it. -/
theorem answers_spoiled {state : State} (ended : marks = [] → atEnd state = .malformed)
    (stepped : ∀ m, marks.head? = some m → step state m.1 = stepTail m.1) :
    numberRecognizer.Answers state (marks.takeWhile fun m => isWordTail m.1)
      (marks.dropWhile fun m => isWordTail m.1) .malformed := by
  induction marks generalizing state with
  | nil => exact .atEnd (congrArg _ (ended rfl))
  | cons m marks ih =>
    have same := stepped m rfl
    by_cases goes : isWordTail m.1 = true
    · simp only [List.takeWhile_cons, List.dropWhile_cons, goes, if_true]
      exact .more (same.trans (if_pos goes)) (ih (fun _ => rfl) fun _ _ => rfl)
    · simp only [List.takeWhile_cons, List.dropWhile_cons, goes]
      exact .before (same.trans (if_neg goes))

/-- A complete literal that stands alone has its value, and nothing more is taken. -/
theorem answers_whole {value : Binary64} (complete : (having mode p text).value? = some value)
    (stops : ∀ c, (marked marks).head? = some c → p.advance? mode c = none)
    (alone : ∀ c, (marked marks).head? = some c → isTrailing c = false) :
    numberRecognizer.Answers (.literal (having mode p text)) [] marks (.literal value) := by
  rcases marks with _ | ⟨m, marks⟩
  · exact .atEnd (congrArg _ (atEnd_complete complete))
  · have clear := alone m.1 rfl
    have other : isDecimalDigit m.1 ≠ true := by
      intro digit
      simp [isTrailing, digit] at clear
    have fed := (feed_stop text (stops m.1 rfl)).resolve_right fun both => other both.2
    refine .before ((step_complete fed complete).trans ?_)
    rw [clear]
    rfl

/-- A literal that is incomplete or does not stand alone is malformed. -/
theorem answers_malformed (stops : ∀ c, (marked marks).head? = some c → p.advance? mode c = none)
    (spoiled : (having mode p text).value? = none ∨ ∃ c, (marked marks).head? = some c ∧ isTrailing c = true) :
    numberRecognizer.Answers (.literal (having mode p text)) (marks.takeWhile fun m => isWordTail m.1)
      (marks.dropWhile fun m => isWordTail m.1) .malformed := by
  apply answers_spoiled
  · rintro rfl
    rcases spoiled with none_ | ⟨c, head, _⟩
    · exact atEnd_incomplete none_
    · cases head
  · rintro m head
    have head' : (marked marks).head? = some m.1 := by simp [marked, head]
    rcases feed_stop text (stops m.1 head') with fed | ⟨fed, _⟩
    · rcases spoiled with none_ | ⟨c, other, trailing⟩
      · exact step_incomplete fed none_
      · cases head'.symm.trans other
        cases value : (having mode p text).value? with
        | none => exact step_incomplete fed value
        | some v => exact (step_complete fed value).trans (if_pos trailing)
    · exact step_malformed fed

end NumberRecognizer
end EcmaLex
