import EcmaLex.Library.Running
import EcmaLex.Proofs.Reading.Numbers

/-!
Numeric literals are recognised exactly. What a scanner accepts is the longest beginning of a literal that the
input has. It answers with a value just when this is a literal and stands alone; otherwise the rest of the
word goes with it (`numericLiteral_extent`).
-/
namespace EcmaLex
open Text NumberPhase NumberScanner

variable {mode : Mode} {p : NumberPhase} {first : Char} {rest slice : List Mark}

/-- The first character of a number leads to a phase. -/
theorem exists_begun (begins : isDecimalDigit first = true ∨ first = '.') (mode : Mode) :
    ∃ p, advance? mode .start first = some p := by
  by_cases zero : first = '0'
  · exact ⟨_, if_pos zero⟩
  by_cases digit : isDecimalDigit first = true
  · exact ⟨_, (if_neg zero).trans (if_pos digit)⟩
  · exact ⟨_, (if_neg zero).trans ((if_neg digit).trans (if_pos (begins.resolve_left digit)))⟩

theorem exists_longestPrefix (begins : isDecimalDigit first = true ∨ first = '.') (mode : Mode)
    (marks : List Mark) : ∃ slice rest, marks = slice ++ rest ∧
      LongestPrefix mode (first :: marked slice) (first :: marked marks) := by
  obtain ⟨p, begun⟩ := exists_begun begins mode
  obtain ⟨front, rest, p', cut, led, stops⟩ := after?_exists_stop mode p (marked marks)
  obtain ⟨slice, rest, rfl, rfl, rfl⟩ := marked_eq_append cut
  have whole : after? mode .start (first :: marked slice) = some p' := by
    rw [after?_cons, begun]
    exact led
  refine ⟨slice, rest, rfl, ?_⟩
  rw [marked_append, ← List.cons_append]
  exact (longestPrefix_iff whole).2 stops

section
variable [Library]

/-- Nothing follows that would run into a literal. -/
def StandsAlone (rest : List Char) : Prop :=
  ∀ c, rest.head? = some c → isIdentifierStart c = false ∧ isDecimalDigit c = false ∧ c ≠ '\\'

theorem standsAlone_iff {rest : List Char} :
    StandsAlone rest ↔ ∀ c, rest.head? = some c → isTrailing c = false := by
  simp [StandsAlone, isTrailing, and_assoc]

theorem not_standsAlone {rest : List Char} (spoiled : ¬StandsAlone rest) :
    ∃ c, rest.head? = some c ∧ isTrailing c = true := by
  rw [standsAlone_iff] at spoiled
  simpa only [not_forall, Bool.not_eq_false, exists_prop] using spoiled

/-- The recogniser comes to the end of the longest beginning of a literal. -/
theorem LongestPrefix.passes
    (longest : LongestPrefix mode (first :: marked slice) (first :: marked (slice ++ rest))) :
    ∃ p, after? mode .start (first :: marked slice) = some p ∧
      (∀ c, (marked rest).head? = some c → p.advance? mode c = none) ∧
      numberRecognizer.Passes (NumberRecognizer.start first mode) slice
        (.literal (having mode p (first :: marked slice))) := by
  obtain ⟨p, led⟩ := literalPrefix_iff.1 longest.viable
  rw [marked_append, ← List.cons_append] at longest
  refine ⟨p, led, (longestPrefix_iff led).1 longest, ?_⟩
  rw [after?_cons] at led
  obtain ⟨p₁, begun, led⟩ := Option.bind_eq_some_iff.1 led
  rw [NumberRecognizer.start_eq begun]
  exact NumberRecognizer.passes_literal led

/-- A literal that stands alone is answered with its value, and just the literal is taken. -/
theorem LongestPrefix.answers_literal
    (longest : LongestPrefix mode (first :: marked slice) (first :: marked (slice ++ rest)))
    (literal : ∃ q, NumericLiteral mode (first :: marked slice) q)
    (alone : StandsAlone (marked rest)) : ∃ p value,
      after? mode .start (first :: marked slice) = some p ∧
      (having mode p (first :: marked slice)).value? = some value ∧
      numberRecognizer.Answers (NumberRecognizer.start first mode) slice rest
        (.literal value) := by
  obtain ⟨p, led, stops, passes⟩ := longest.passes
  obtain ⟨p', led', complete⟩ := numericLiteral_iff.1 literal
  cases led.symm.trans led'
  obtain ⟨value, known⟩ := Option.isSome_iff_exists.1 ((value?_isSome led).trans complete)
  exact ⟨p, value, led, known,
    passes.answers_here (NumberRecognizer.answers_whole known stops (standsAlone_iff.1 alone))⟩

/-- Anything else is malformed, and the rest of the word goes with it. -/
theorem LongestPrefix.answers_malformed
    (longest : LongestPrefix mode (first :: marked slice) (first :: marked (slice ++ rest)))
    (other : ¬((∃ q, NumericLiteral mode (first :: marked slice) q) ∧ StandsAlone (marked rest))) :
    numberRecognizer.Answers (NumberRecognizer.start first mode)
      (slice ++ rest.takeWhile fun m => isWordTail m.1) (rest.dropWhile fun m => isWordTail m.1) .malformed := by
  obtain ⟨p, led, stops, passes⟩ := longest.passes
  refine passes.answers (NumberRecognizer.answers_malformed stops ?_)
  by_cases alone : StandsAlone (marked rest)
  · refine .inl ?_
    have incomplete : ¬p.isComplete = true := fun complete =>
      other ⟨numericLiteral_iff.2 ⟨p, led, complete⟩, alone⟩
    rw [← value?_isSome led] at incomplete
    exact Option.not_isSome_iff_eq_none.1 incomplete
  · exact .inr (not_standsAlone alone)

variable {b : SourceBuffer} {t : Tape}

theorem LongestPrefix.run_literal (follows : b.Follows t) (ahead : t.ahead = slice ++ rest)
    (longest : LongestPrefix mode (first :: marked slice) (first :: marked (slice ++ rest)))
    (literal : ∃ q, NumericLiteral mode (first :: marked slice) q)
    (alone : StandsAlone (marked rest)) : ∃ p value b' t',
      after? mode .start (first :: marked slice) = some p ∧
      (having mode p (first :: marked slice)).value? = some value ∧
      numberRecognizer.run (NumberRecognizer.start first mode) b = (.ok (.literal value), b') ∧
      b'.Follows t' ∧ t.Took false slice t' ∧ t'.ahead = rest := by
  obtain ⟨p, value, led, known, answers⟩ := longest.answers_literal literal alone
  obtain ⟨b', t', ran, follows', took, left⟩ := answers.run_buffer rfl follows ahead
  exact ⟨p, value, b', t', led, known, ran, follows', took, left⟩

theorem LongestPrefix.run_malformed (follows : b.Follows t) (ahead : t.ahead = slice ++ rest)
    (longest : LongestPrefix mode (first :: marked slice) (first :: marked (slice ++ rest)))
    (other : ¬((∃ q, NumericLiteral mode (first :: marked slice) q) ∧ StandsAlone (marked rest))) : ∃ b' t',
      numberRecognizer.run (NumberRecognizer.start first mode) b = (.ok .malformed, b') ∧
      b'.Follows t' ∧ t.Took false (slice ++ rest.takeWhile fun m => isWordTail m.1) t' ∧
      t'.ahead = rest.dropWhile fun m => isWordTail m.1 := by
  have parts : t.ahead = (slice ++ rest.takeWhile fun m => isWordTail m.1) ++
      rest.dropWhile fun m => isWordTail m.1 := by
    rw [ahead, List.append_assoc, List.takeWhile_append_dropWhile]
  exact (longest.answers_malformed other).run_buffer rfl follows parts

/-- For the longest beginning of a literal that the input has: if it is a literal and stands alone, the answer
is a value, and just this is taken. Otherwise the number is malformed, and the identifier parts and
backslashes behind are taken too. -/
theorem numericLiteral_extent (begins : isDecimalDigit first = true ∨ first = '.') {b : SourceBuffer}
    {t : Tape} (follows : b.Follows t) (mode : Mode) :
    (∃ slice rest, t.ahead = slice ++ rest ∧
      LongestPrefix mode (first :: marked slice) (first :: marked t.ahead)) ∧
    ∀ slice rest, t.ahead = slice ++ rest →
      LongestPrefix mode (first :: marked slice) (first :: marked t.ahead) → ∃ result b' t',
        numberRecognizer.run (NumberRecognizer.start first mode) b = (.ok result, b') ∧ b'.Follows t' ∧
        ((∃ q, NumericLiteral mode (first :: marked slice) q) ∧ StandsAlone (marked rest) →
          (∃ value, result = .literal value) ∧ t.Took false slice t' ∧ t'.ahead = rest) ∧
        (¬((∃ q, NumericLiteral mode (first :: marked slice) q) ∧ StandsAlone (marked rest)) →
          result = .malformed ∧ t.Took false (slice ++ rest.takeWhile fun m => isWordTail m.1) t' ∧
          t'.ahead = rest.dropWhile fun m => isWordTail m.1) := by
  refine ⟨exists_longestPrefix begins mode t.ahead, ?_⟩
  intro slice rest ahead longest
  rw [ahead] at longest
  by_cases literal : (∃ q, NumericLiteral mode (first :: marked slice) q) ∧ StandsAlone (marked rest)
  · obtain ⟨_, value, b', t', _, _, ran, follows', took, left⟩ :=
      longest.run_literal follows ahead literal.1 literal.2
    exact ⟨_, b', t', ran, follows', fun _ => ⟨⟨value, rfl⟩, took, left⟩, fun other => absurd literal other⟩
  · obtain ⟨b', t', ran, follows', took, left⟩ := longest.run_malformed follows ahead literal
    exact ⟨_, b', t', ran, follows', fun both => absurd both literal, fun _ => ⟨rfl, took, left⟩⟩

end

open Running

/-- A decimal with a zero in front, up to an operator. -/
theorem numericLiteral_extent_zeroLed :
    let b := SourceBuffer.ofReader (.ofText "8.5e1+x") 512 1
    b.toCome = ['8', '.', '5', 'e', '1'] ++ ['+', 'x'] ∧
      LongestPrefix .sloppy ['0', '8', '.', '5', 'e', '1'] ['0', '8', '.', '5', 'e', '1', '+', 'x'] ∧
      ∃ value b', numberRecognizer.run (NumberRecognizer.start '0' .sloppy) b = (.ok (.literal value), b') ∧
        b'.toCome = ['+', 'x'] := by
  intro b
  have same : normalize "8.5e1+x".toList = ['8', '.', '5', 'e', '1'] ++ ['+', 'x'] := rfl
  have follows : b.Follows _ := SourceBuffer.follows_ofText same 512 1
  have toCome : b.toCome = ['8', '.', '5', 'e', '1'] ++ ['+', 'x'] := by
    rw [follows.toCome, Tape.ofText, marked_located]
  have led : after? .sloppy .start ['0', '8', '.', '5', 'e', '1'] = some .exponent := by decide
  have longest : LongestPrefix .sloppy ['0', '8', '.', '5', 'e', '1']
      (['0', '8', '.', '5', 'e', '1'] ++ ['+', 'x']) := by
    refine (longestPrefix_iff led).2 ?_
    rintro c ⟨rfl⟩
    decide
  have literal := numericLiteral_iff.2 ⟨_, led, rfl⟩
  obtain ⟨slice, rest, ahead, spelled, left⟩ := marked_eq_append (follows.toCome.symm.trans toCome)
  have alone : StandsAlone (marked rest) := by
    rw [left]
    rintro c ⟨rfl⟩
    decide
  rw [← spelled] at literal
  have longest' : LongestPrefix .sloppy ('0' :: marked slice) ('0' :: marked (slice ++ rest)) := by
    rw [marked_append, spelled, left]
    exact longest
  obtain ⟨result, b', t', ran, follows', answered, _⟩ :=
    (numericLiteral_extent (.inl rfl) follows .sloppy).2 slice rest ahead (ahead ▸ longest')
  obtain ⟨⟨value, rfl⟩, _, ahead'⟩ := answered ⟨literal, alone⟩
  exact ⟨toCome, longest, value, b', ran, by rw [follows'.toCome, ahead', left]⟩

end EcmaLex
