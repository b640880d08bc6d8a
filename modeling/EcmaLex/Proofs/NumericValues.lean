import EcmaLex.Library.Running
import EcmaLex.Proofs.Number.Decimals
import EcmaLex.Proofs.NumericLiterals

/-!
The values of numeric literals. If the conversions of the library are correct (`NumberConversions.Correct`), a
literal has the number nearest to its exact value, however the value is written (`numericLiteral_value`). The
conversions that run round all literals correctly that they do not cut short (`Accepts.short`).
-/
namespace EcmaLex
open Text NumberPhase NumberScanner

/-- A decimal text gives the nearest number, digits of a base give their integer, and an integer gives the
nearest number, or none if that is infinity. -/
structure NumberConversions.Correct (conversions : NumberConversions) : Prop where
  parseFloat : ∀ text n e, DecimalText text n e →
    ∃ v, conversions.parseFloat text = some v ∧ v.IsNearest (n * 10 ^ e)
  parseInteger : ∀ (radix : Radix) digits, digits ≠ [] → (∀ c ∈ digits, radix.hasDigit c = true) →
    conversions.parseInteger radix.base digits = some (digitsValue radix.base digits)
  toFloat : ∀ n, ((conversions.toFloat n).getD .infinity).IsNearest n

variable {mode : Mode} {p : NumberPhase} {text slice digits : List Char} {first c : Char} {q : ℚ} {v : Binary64}

theorem digitsValue_zero (base : ℕ) (digits : List Char) :
    digitsValue base ('0' :: digits) = digitsValue base digits := by
  have zero : hexValue? '0' = some 0 := rfl
  rw [digitsValue, List.foldl_cons, zero, Nat.zero_mul]
  rfl

theorem NumberPhase.advance?_terminator (terminator : isLineTerminator c = true) :
    p.advance? mode c = none := by
  simp only [isLineTerminator, Bool.or_eq_true, beq_iff_eq] at terminator
  rcases terminator with ((rfl | rfl) | rfl) | rfl <;> cases p with
  | radixMark radix | radixDigits radix => cases radix <;> rfl
  | _ => rfl

/-- A literal stands on one line. -/
theorem NumericLiteral.lineFeedOnly (literal : NumericLiteral mode text q) : LineFeedOnly text := by
  obtain ⟨p, led, _⟩ := after?_literal literal
  intro c member terminator
  obtain ⟨front, back, rfl⟩ := List.append_of_mem member
  rw [after?_append] at led
  obtain ⟨p', _, led⟩ := Option.bind_eq_some_iff.1 led
  rw [after?_cons, advance?_terminator terminator] at led
  cases led

theorem NumericLiteral.begins (literal : NumericLiteral mode text q) :
    ∃ first slice, text = first :: slice ∧ (isDecimalDigit first = true ∨ first = '.') := by
  obtain ⟨p, led, complete⟩ := after?_literal literal
  cases text with
  | nil =>
    cases led
    cases complete
  | cons first slice =>
    refine ⟨first, slice, rfl, ?_⟩
    rw [after?_cons] at led
    obtain ⟨_, begun, _⟩ := Option.bind_eq_some_iff.1 led
    simp only [advance?] at begun
    split at begun
    · rename_i zero
      exact .inl (zero ▸ rfl)
    · split at begun
      · exact .inl ‹_›
      · split at begun
        · exact .inr ‹_›
        · cases begun

section
variable [Library]

/-- Reading this text from some source, the recogniser answers with this value. -/
def Accepts (mode : Mode) (text : List Char) (v : Binary64) : Prop :=
  ∃ first slice b b' t, text = first :: slice ∧ (isDecimalDigit first = true ∨ first = '.') ∧
    SourceBuffer.Follows b t ∧ b.toCome = slice ++ b'.toCome ∧
    numberRecognizer.run (NumberRecognizer.start first mode) b = (.ok (.literal v), b')

/-- What is taken of a literal that stands alone. -/
theorem LongestPrefix.accepted {b : SourceBuffer} {t : Tape} {slice rest : List Mark} (follows : b.Follows t)
    (ahead : t.ahead = slice ++ rest)
    (longest : LongestPrefix mode (first :: marked slice) (first :: marked (slice ++ rest)))
    (literal : ∃ q, NumericLiteral mode (first :: marked slice) q) (alone : StandsAlone (marked rest)) :
    ∃ p v b', after? mode .start (first :: marked slice) = some p ∧
      (having mode p (first :: marked slice)).value? = some v ∧
      numberRecognizer.run (NumberRecognizer.start first mode) b = (.ok (.literal v), b') ∧
      b.toCome = marked slice ++ b'.toCome := by
  obtain ⟨p, v, b', t', led, known, ran, follows', _, left⟩ := longest.run_literal follows ahead literal alone
  exact ⟨p, v, b', led, known, ran, by rw [follows.toCome, follows'.toCome, ahead, left, marked_append]⟩

/-- An accepted text is a literal and has its own value. -/
theorem Accepts.value (accepted : Accepts mode text v) :
    ∃ p, after? mode .start text = some p ∧ (having mode p text).value? = some v ∧
      ∃ q, NumericLiteral mode text q := by
  obtain ⟨first, taken, b, b', t, rfl, begins, follows, took, answered⟩ := accepted
  obtain ⟨slice, rest, ahead, longest⟩ := exists_longestPrefix begins mode t.ahead
  rw [ahead] at longest
  by_cases literal : (∃ q, NumericLiteral mode (first :: marked slice) q) ∧ StandsAlone (marked rest)
  · obtain ⟨p, v', b'', led, known, ran, took'⟩ := longest.accepted follows ahead literal.1 literal.2
    cases answered.symm.trans ran
    rw [← List.append_cancel_right (took'.symm.trans took)]
    exact ⟨p, led, known, literal.1⟩
  · obtain ⟨_, _, ran, _⟩ := longest.run_malformed follows ahead literal
    cases answered.symm.trans ran

/-- A literal that is the whole text of a source is accepted. -/
theorem NumericLiteral.accepted (literal : NumericLiteral mode text q) : ∃ v, Accepts mode text v := by
  obtain ⟨first, slice, rfl, begins⟩ := literal.begins
  have plain : LineFeedOnly slice := literal.lineFeedOnly.mono (List.subset_cons_self first slice)
  have same : normalize (String.ofList slice).toList = slice := by
    rw [String.toList_ofList]
    exact plain.normalize_eq
  have follows := SourceBuffer.follows_ofText same 512 1
  obtain ⟨p, led, _⟩ := after?_literal literal
  have whole : marked (Tape.ofText 1 slice).ahead = slice := marked_located _ _
  generalize Tape.ofText 1 slice = t at *
  subst whole
  have longest : LongestPrefix mode (first :: marked t.ahead) (first :: marked (t.ahead ++ [])) := by
    rw [marked_append, ← List.cons_append]
    exact (longestPrefix_iff led).2 (by simp)
  obtain ⟨_, v, b', _, _, ran, took⟩ :=
    longest.accepted follows (List.append_nil _).symm ⟨q, literal⟩ (by simp [StandsAlone])
  exact ⟨v, first, _, _, b', t, rfl, begins, follows, took, ran⟩

theorem radixValue_nearest (correct : Library.numbers.Correct) (radix : Radix) (some_ : digits ≠ [])
    (all : ∀ c ∈ digits, radix.hasDigit c = true) :
    ∃ v, radixValue radix.base digits = some v ∧ v.IsNearest (digitsValue radix.base digits) := by
  refine ⟨_, ?_, correct.toFloat (digitsValue radix.base digits)⟩
  rw [radixValue, correct.parseInteger radix digits some_ all, Option.map_some]

/-- A literal has a value, and this is the nearest number. -/
theorem NumericLiteral.value_nearest (correct : Library.numbers.Correct) (literal : NumericLiteral mode text q)
    (led : after? mode .start text = some p) :
    ∃ v, (having mode p text).value? = some v ∧ v.IsNearest q := by
  cases literal with
  | decimal mantissa written =>
    obtain ⟨n, e, decimal, same⟩ := mantissa.decimalText written
    rw [value?_decimal mantissa written led, same]
    exact correct.parseFloat _ n e decimal
  | radix letter some_ all =>
    rw [value?_radix letter some_ all led]
    exact radixValue_nearest correct _ some_ all
  | legacyOctal some_ all =>
    rw [value?_legacyOctal some_ all led, ← digitsValue_zero 8]
    exact radixValue_nearest correct .octal (by simp) (List.forall_mem_cons.2 ⟨rfl, all⟩)

theorem Accepts.nearest (correct : Library.numbers.Correct) (accepted : Accepts mode text v)
    (literal : NumericLiteral mode text q) : v.IsNearest q := by
  obtain ⟨p, led, known, _⟩ := accepted.value
  obtain ⟨v', known', nearest⟩ := literal.value_nearest correct led
  cases known.symm.trans known'
  exact nearest

/-- Just the literals are accepted. If the conversions are correct, the value of each is the number nearest to
its exact value; so two literals of the same exact value have the same value, in whatever base and in whatever
mode they are written. -/
theorem numericLiteral_value (correct : Library.numbers.Correct) (mode : Mode) (text : List Char) :
    ((∃ v, Accepts mode text v) ↔ ∃ q, NumericLiteral mode text q) ∧
    ∀ v, Accepts mode text v →
      (∀ q, NumericLiteral mode text q → v.IsNearest q) ∧
      ∀ mode' text' v' q, Accepts mode' text' v' → NumericLiteral mode text q →
        NumericLiteral mode' text' q → v' = v := by
  refine ⟨⟨?_, ?_⟩, ?_⟩
  · rintro ⟨v, accepted⟩
    obtain ⟨_, _, _, literal⟩ := accepted.value
    exact literal
  · rintro ⟨q, literal⟩
    exact literal.accepted
  · intro v accepted
    refine ⟨fun q literal => accepted.nearest correct literal, ?_⟩
    intro mode' text' v' q accepted' literal literal'
    exact (accepted'.nearest correct literal').unique (accepted.nearest correct literal)

end

/-- Conversions that round correctly however large the numbers are. -/
def exactConversions : NumberConversions :=
  { conversions with
    parseFloat := fun text => some (decimalValue signedValue text)
    toFloat := fun n => some (.ofNat n)
    parseFloat_isSome := fun _ _ _ _ => rfl }

theorem exactConversions_correct : exactConversions.Correct where
  parseFloat text n e decimal := by
    cases decimal with
    | @written front power _ _ _ digits written =>
      exact ⟨decimalValue signedValue (front ++ power), rfl,
        decimalValue_nearest digits written written.signedValue_tail⟩
  parseInteger _ _ _ _ := rfl
  toFloat n := by
    rw [show exactConversions.toFloat n = some (.ofNat n) from rfl, Option.getD_some]
    exact Binary64.ofNat_nearest n

namespace Exact

scoped instance library : Library where
  identifiers := unicode16
  numbers := exactConversions

end Exact

section
open Exact

/-- One value for sixteen, with and without a zero in front. -/
theorem numericLiteral_value_sixteen : ∃ v,
    Accepts .sloppy ['0', '2', '0'] v ∧ Accepts .strict ['1', '6'] v ∧ v.IsNearest (16 : ℕ) := by
  have octal : NumericLiteral .sloppy ['0', '2', '0'] (16 : ℕ) :=
    .legacyOctal (by simp) (List.forall_mem_cons.2 ⟨rfl, List.forall_mem_singleton.2 rfl⟩)
  have decimal : NumericLiteral .strict ['1', '6'] ((16 : ℕ) * 10 ^ (0 : ℤ)) :=
    .decimal (.integer (.plain (c := '1') rfl (by decide) (Digits.nil.push rfl))) .none
  rw [zpow_zero, mul_one] at decimal
  obtain ⟨v, accepted⟩ := octal.accepted
  obtain ⟨v', accepted'⟩ := decimal.accepted
  obtain ⟨nearest, same⟩ :=
    (numericLiteral_value exactConversions_correct .sloppy ['0', '2', '0']).2 v accepted
  obtain rfl := same _ _ v' _ accepted' octal decimal
  exact ⟨v', accepted, accepted', nearest _ octal⟩

end

/-- Literals that the conversions which run do not cut short: an exponent is read to its end, and an integer in
another base fits in one word. -/
inductive Short : Mode → List Char → ℚ → Prop
  | decimal {mode : Mode} {front power : List Char} {q : ℚ} {e : ℤ} :
      Mantissa mode front q → Exponent power e → e.natAbs < exponentLimit * 10 →
      Short mode (front ++ power) (q * 10 ^ e)
  | radix {mode : Mode} {letter : Char} {radix : Radix} {digits : List Char} :
      (letter, radix) ∈ radixLetters → digits ≠ [] → (∀ c ∈ digits, radix.hasDigit c = true) →
      digitsValue radix.base digits < Nat.pow 2 LeadingBits.wordBits →
      Short mode ('0' :: letter :: digits) (digitsValue radix.base digits)
  | legacyOctal {digits : List Char} : digits ≠ [] → (∀ c ∈ digits, isOctalDigit c = true) →
      digitsValue 8 digits < Nat.pow 2 LeadingBits.wordBits →
      Short .sloppy ('0' :: digits) (digitsValue 8 digits)

section
open Running

theorem running_parseFloat (text : List Char) :
    Library.numbers.parseFloat text = some (decimalValue exponentValue text) := rfl

-- Rewritten step by step: unfolded in one go, the numbers themselves would be computed.
theorem running_radixValue (base : ℕ) (digits : List Char) :
    radixValue base digits = some (.ofLeadingBits (digitsValue base digits)) := by
  have parsed : Library.numbers.parseInteger base digits = some (digitsValue base digits) := rfl
  have known (n : ℕ) : Library.numbers.toFloat n = some (.ofLeadingBits n) := rfl
  rw [radixValue, parsed, Option.map_some, known, Option.getD_some]

/-- The recogniser gives each short literal that it accepts the number nearest to its value. -/
theorem Accepts.short (accepted : Accepts mode text v) (short : Short mode text q) : v.IsNearest q := by
  obtain ⟨p, led, known, _⟩ := accepted.value
  cases short with
  | decimal mantissa written small =>
    obtain ⟨n, places, digits, same⟩ := mantissa.decimalDigits
    rw [value?_decimal mantissa written led, running_parseFloat] at known
    rw [← Option.some.inj known, same]
    exact decimalValue_nearest digits written (written.exponentValue_tail small)
  | radix letter some_ all narrow =>
    rw [value?_radix letter some_ all led, running_radixValue] at known
    rw [← Option.some.inj known]
    exact Binary64.ofLeadingBits_nearest narrow
  | legacyOctal some_ all narrow =>
    rw [value?_legacyOctal some_ all led, running_radixValue, digitsValue_zero] at known
    rw [← Option.some.inj known]
    exact Binary64.ofLeadingBits_nearest narrow

end

end EcmaLex
