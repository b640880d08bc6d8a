import EcmaLex.Literal.NumericLiteral
import EcmaLex.Proofs.Grammar.StringPieces
import Mathlib.Data.Rat.Lemmas
import Mathlib.Tactic.NormNum
import Mathlib.Tactic.Ring

/-!
Numeric literals as a grammar, each with its exact value (`NumericLiteral`). The phases of the scanner are
the beginnings of literals: a text can be completed to a literal just when it leads to a phase, and it is a
literal just when that phase is complete (`literalPrefix_iff`, `numericLiteral_iff`).
-/
namespace EcmaLex
open Text

inductive DecimalInteger : Mode → List Char → Prop
  | zero {mode} : DecimalInteger mode ['0']
  | plain {mode c digits} : isDecimalDigit c = true → c ≠ '0' → Digits digits →
      DecimalInteger mode (c :: digits)
  /-- Sloppy code may have a zero in front, if one of the digits is an eight or a nine. -/
  | zeroLed {c digits} : Digits digits → c ∈ digits → isOctalDigit c = false →
      DecimalInteger .sloppy ('0' :: digits)

/-- A decimal without its exponent. -/
inductive Mantissa (mode : Mode) : List Char → ℚ → Prop
  | integer {whole} : DecimalInteger mode whole → Mantissa mode whole (digitsValue 10 whole)
  | point {whole fraction} : DecimalInteger mode whole → Digits fraction →
      Mantissa mode (whole ++ '.' :: fraction) (digitsValue 10 (whole ++ fraction) / 10 ^ fraction.length)
  | fraction {fraction} : Digits fraction → fraction ≠ [] →
      Mantissa mode ('.' :: fraction) (digitsValue 10 fraction / 10 ^ fraction.length)

/-- The letters that choose a base after a zero. -/
def radixLetters : List (Char × Radix) :=
  [('x', .hex), ('X', .hex), ('o', .octal), ('O', .octal), ('b', .binary), ('B', .binary)]

inductive NumericLiteral : Mode → List Char → ℚ → Prop
  | decimal {mode mantissa exponent q e} : Mantissa mode mantissa q → Exponent exponent e →
      NumericLiteral mode (mantissa ++ exponent) (q * 10 ^ e)
  | radix {mode letter radix digits} : (letter, radix) ∈ radixLetters → digits ≠ [] →
      (∀ c ∈ digits, radix.hasDigit c = true) →
      NumericLiteral mode ('0' :: letter :: digits) (digitsValue radix.base digits)
  /-- Octal digits after a zero, in sloppy code. -/
  | legacyOctal {digits} : digits ≠ [] → (∀ c ∈ digits, isOctalDigit c = true) →
      NumericLiteral .sloppy ('0' :: digits) (digitsValue 8 digits)

/-- A text that can be completed to a literal. -/
def LiteralPrefix (mode : Mode) (text : List Char) : Prop :=
  ∃ rest q, NumericLiteral mode (text ++ rest) q

/-- The longest beginning of the input that can be completed to a literal. -/
structure LongestPrefix (mode : Mode) (m input : List Char) : Prop where
  front : m <+: input
  viable : LiteralPrefix mode m
  longest : ∀ m', m' <+: input → LiteralPrefix mode m' → m'.length ≤ m.length

variable {mode : Mode} {text whole front power digits : List Char} {c : Char} {p p' : NumberPhase}
  {q : ℚ} {e : ℤ}

/-! ### One character more -/

theorem forall_push {holds : Char → Bool} (all : ∀ d ∈ digits, holds d = true) (last : holds c = true) :
    ∀ d ∈ digits ++ [c], holds d = true := by
  intro d member
  rcases List.mem_append.1 member with before | same
  · exact all d before
  · rw [List.mem_singleton.1 same]
    exact last

theorem Digits.nil : Digits [] := List.forall_mem_nil _

theorem Digits.push (all : Digits digits) (digit : isDecimalDigit c = true) : Digits (digits ++ [c]) :=
  forall_push all digit

theorem DecimalInteger.all_digits (integer : DecimalInteger mode text) : Digits text ∧ text ≠ [] := by
  cases integer with
  | zero => exact ⟨Digits.nil.push rfl, by simp⟩
  | plain first _ all => exact ⟨List.forall_mem_cons.2 ⟨first, all⟩, by simp⟩
  | zeroLed all _ _ => exact ⟨List.forall_mem_cons.2 ⟨rfl, all⟩, by simp⟩

/-- Without its exponent a decimal has the common form, and it stands for the integer of its digits with its
own power of ten. -/
theorem Mantissa.decimalDigits (mantissa : Mantissa mode front q) :
    ∃ n places, DecimalDigits front n places ∧ ∀ e : ℤ, q * 10 ^ e = n * 10 ^ (e - places) := by
  have scaled (n places : ℕ) (e : ℤ) : (n : ℚ) / 10 ^ places * 10 ^ e = n * 10 ^ (e - places) := by
    rw [zpow_sub₀ (by norm_num), zpow_natCast]
    ring
  cases mantissa with
  | integer integer => exact ⟨_, 0, .integer integer.all_digits.1 integer.all_digits.2, by simp⟩
  | point integer all => exact ⟨_, _, .point integer.all_digits.1 all (.inl integer.all_digits.2), scaled _ _⟩
  | fraction all some_ => exact ⟨_, _, .point .nil all (.inr some_), scaled _ _⟩

theorem Mantissa.decimalText (mantissa : Mantissa mode front q) (written : Exponent power e) :
    ∃ n e', DecimalText (front ++ power) n e' ∧ q * 10 ^ e = n * 10 ^ e' := by
  obtain ⟨n, places, decimal, same⟩ := mantissa.decimalDigits
  exact ⟨n, e - places, .written decimal written, same e⟩

theorem DecimalInteger.push (integer : DecimalInteger mode whole) (more : whole ≠ ['0'])
    (digit : isDecimalDigit c = true) : DecimalInteger mode (whole ++ [c]) := by
  cases integer with
  | zero => exact absurd rfl more
  | plain first other all => exact .plain first other (all.push digit)
  | zeroLed all member large => exact .zeroLed (all.push digit) (List.mem_append_left _ member) large

theorem DecimalInteger.push_ne (integer : DecimalInteger mode whole) (c : Char) : whole ++ [c] ≠ ['0'] := by
  cases integer <;> simp

theorem Exponent.push (written : Exponent power e) (some_ : power ≠ []) (digit : isDecimalDigit c = true) :
    ∃ e', Exponent (power ++ [c]) e' := by
  cases written with
  | none => exact absurd rfl some_
  | unsigned letter all _ => exact ⟨_, .unsigned letter (all.push digit) (by simp)⟩
  | plus letter all _ => exact ⟨_, .plus letter (all.push digit) (by simp)⟩
  | minus letter all _ => exact ⟨_, .minus letter (all.push digit) (by simp)⟩

theorem exponentLetter_iff : isExponentLetter c = true ↔ c = 'e' ∨ c = 'E' := by
  simp [isExponentLetter]

theorem mem_radixLetters {radix : Radix} : (c, radix) ∈ radixLetters ↔ Radix.ofLetter? c = some radix := by
  unfold Radix.ofLetter? radixLetters
  split <;> cases radix <;> simp_all

namespace NumberPhase

/-! ### The texts of a phase -/

/-- The phase that a text leads to, if each of its characters continues the literal. -/
def after? (mode : Mode) (p : NumberPhase) (text : List Char) : Option NumberPhase :=
  text.foldlM (advance? mode) p

theorem after?_append (p : NumberPhase) (front back : List Char) :
    after? mode p (front ++ back) = (after? mode p front).bind (after? mode · back) :=
  List.foldlM_append

theorem after?_cons (p : NumberPhase) (c : Char) (text : List Char) :
    after? mode p (c :: text) = (p.advance? mode c).bind (after? mode · text) :=
  List.foldlM_cons

theorem after?_one (p : NumberPhase) (c : Char) : after? mode p [c] = p.advance? mode c := by
  simp [after?]

/-- The texts that lead to a phase. -/
def Holds (mode : Mode) (text : List Char) : NumberPhase → Prop
  | .start => text = []
  | .zero => text = ['0']
  | .integer => DecimalInteger mode text ∧ text ≠ ['0']
  | .dot => text = ['.']
  | .fraction =>
    (∃ whole places, DecimalInteger mode whole ∧ Digits places ∧ text = whole ++ '.' :: places) ∨
      ∃ places, Digits places ∧ places ≠ [] ∧ text = '.' :: places
  | .exponentMark => ∃ front q letter, Mantissa mode front q ∧ (letter = 'e' ∨ letter = 'E') ∧
      text = front ++ [letter]
  | .exponentSign => ∃ front q letter sign, Mantissa mode front q ∧ (letter = 'e' ∨ letter = 'E') ∧
      (sign = '+' ∨ sign = '-') ∧ text = front ++ [letter, sign]
  | .exponent => ∃ front q power e, Mantissa mode front q ∧ Exponent power e ∧ power ≠ [] ∧
      text = front ++ power
  | .radixMark radix => ∃ letter, (letter, radix) ∈ radixLetters ∧ text = ['0', letter]
  | .radixDigits radix => ∃ letter digits, (letter, radix) ∈ radixLetters ∧ digits ≠ [] ∧
      (∀ c ∈ digits, radix.hasDigit c = true) ∧ text = '0' :: letter :: digits
  | .legacyOctal => mode = .sloppy ∧ ∃ digits, digits ≠ [] ∧ (∀ c ∈ digits, isOctalDigit c = true) ∧
      text = '0' :: digits

theorem Holds.mark (before : Mantissa mode front q) (letter : isExponentLetter c = true) :
    Holds mode (front ++ [c]) .exponentMark :=
  ⟨front, q, c, before, exponentLetter_iff.1 letter, rfl⟩

theorem Holds.point (integer : DecimalInteger mode whole) : Holds mode (whole ++ ['.']) .fraction :=
  .inl ⟨whole, [], integer, .nil, rfl⟩

theorem Holds.mantissa (holds : Holds mode text .fraction) : ∃ q, Mantissa mode text q := by
  rcases holds with ⟨whole, places, integer, all, rfl⟩ | ⟨places, all, some_, rfl⟩
  · exact ⟨_, .point integer all⟩
  · exact ⟨_, .fraction all some_⟩

theorem Holds.advance_start (holds : Holds mode text .start)
    (advanced : NumberPhase.start.advance? mode c = some p') : Holds mode (text ++ [c]) p' := by
  obtain rfl := holds
  unfold advance? at advanced
  dsimp only at advanced
  split at advanced
  · rename_i zero
    cases advanced
    rw [zero]
    rfl
  split at advanced
  · rename_i other digit
    cases advanced
    exact ⟨.plain digit other .nil, by simpa using other⟩
  split at advanced
  · rename_i point
    cases advanced
    rw [point]
    rfl
  · cases advanced

theorem Holds.advance_zero (holds : Holds mode text .zero)
    (advanced : NumberPhase.zero.advance? mode c = some p') : Holds mode (text ++ [c]) p' := by
  obtain rfl := holds
  unfold advance? at advanced
  dsimp only at advanced
  split at advanced
  · rename_i radix letter
    cases advanced
    exact ⟨c, mem_radixLetters.2 letter, rfl⟩
  split at advanced
  · rename_i digit
    split at advanced
    · cases advanced
    · cases advanced
      unfold afterZero
      split
      · rename_i octal
        exact ⟨rfl, [c], by simp, by simpa using octal, rfl⟩
      · rename_i large
        have one : Digits [c] := Digits.nil.push digit
        exact ⟨.zeroLed one (List.mem_singleton_self c) (eq_false_of_ne_true large), by simp⟩
  split at advanced
  · rename_i point
    cases advanced
    rw [point]
    exact .point .zero
  split at advanced
  · rename_i letter
    cases advanced
    exact .mark (.integer .zero) letter
  · cases advanced

theorem Holds.advance_integer (holds : Holds mode text .integer)
    (advanced : NumberPhase.integer.advance? mode c = some p') : Holds mode (text ++ [c]) p' := by
  obtain ⟨integer, more⟩ := holds
  unfold advance? at advanced
  dsimp only at advanced
  split at advanced
  · rename_i digit
    cases advanced
    exact ⟨integer.push more digit, integer.push_ne c⟩
  split at advanced
  · rename_i point
    cases advanced
    rw [point]
    exact .point integer
  split at advanced
  · rename_i letter
    cases advanced
    exact .mark (.integer integer) letter
  · cases advanced

theorem Holds.advance_dot (holds : Holds mode text .dot)
    (advanced : NumberPhase.dot.advance? mode c = some p') : Holds mode (text ++ [c]) p' := by
  obtain rfl := holds
  unfold advance? at advanced
  dsimp only at advanced
  split at advanced
  · rename_i digit
    cases advanced
    exact .inr ⟨[c], Digits.nil.push digit, by simp, rfl⟩
  · cases advanced

theorem Holds.advance_fraction (holds : Holds mode text .fraction)
    (advanced : NumberPhase.fraction.advance? mode c = some p') : Holds mode (text ++ [c]) p' := by
  unfold advance? at advanced
  dsimp only at advanced
  split at advanced
  · rename_i digit
    cases advanced
    rcases holds with ⟨whole, places, integer, all, rfl⟩ | ⟨places, all, some_, rfl⟩
    · exact .inl ⟨whole, places ++ [c], integer, all.push digit, by simp⟩
    · exact .inr ⟨places ++ [c], all.push digit, by simp, rfl⟩
  split at advanced
  · rename_i letter
    cases advanced
    obtain ⟨q, before⟩ := holds.mantissa
    exact .mark before letter
  · cases advanced

theorem Holds.advance_exponentMark (holds : Holds mode text .exponentMark)
    (advanced : NumberPhase.exponentMark.advance? mode c = some p') : Holds mode (text ++ [c]) p' := by
  obtain ⟨front, q, letter, before, letter_, rfl⟩ := holds
  unfold advance? at advanced
  dsimp only at advanced
  split at advanced
  · rename_i sign
    cases advanced
    exact ⟨front, q, letter, c, before, letter_, by simpa using sign, by simp⟩
  split at advanced
  · rename_i digit
    cases advanced
    exact ⟨front, q, [letter, c], _, before, .unsigned letter_ (Digits.nil.push digit) (by simp), by simp,
      by simp⟩
  · cases advanced

theorem Holds.advance_exponentSign (holds : Holds mode text .exponentSign)
    (advanced : NumberPhase.exponentSign.advance? mode c = some p') : Holds mode (text ++ [c]) p' := by
  obtain ⟨front, q, letter, sign, before, letter_, sign_, rfl⟩ := holds
  unfold advance? at advanced
  dsimp only at advanced
  split at advanced
  · rename_i digit
    cases advanced
    have one : Digits [c] := Digits.nil.push digit
    rcases sign_ with rfl | rfl
    · exact ⟨front, q, [letter, '+', c], _, before, .plus letter_ one (by simp), by simp, by simp⟩
    · exact ⟨front, q, [letter, '-', c], _, before, .minus letter_ one (by simp), by simp, by simp⟩
  · cases advanced

theorem Holds.advance_exponent (holds : Holds mode text .exponent)
    (advanced : NumberPhase.exponent.advance? mode c = some p') : Holds mode (text ++ [c]) p' := by
  obtain ⟨front, q, power, e, before, written, some_, rfl⟩ := holds
  unfold advance? at advanced
  dsimp only at advanced
  split at advanced
  · rename_i digit
    cases advanced
    obtain ⟨e', written'⟩ := written.push some_ digit
    exact ⟨front, q, power ++ [c], e', before, written', by simp, by simp⟩
  · cases advanced

theorem Holds.advance_radixMark {radix : Radix} (holds : Holds mode text (.radixMark radix))
    (advanced : (NumberPhase.radixMark radix).advance? mode c = some p') : Holds mode (text ++ [c]) p' := by
  obtain ⟨letter, letter_, rfl⟩ := holds
  unfold advance? at advanced
  dsimp only at advanced
  split at advanced
  · rename_i digit
    cases advanced
    exact ⟨letter, [c], letter_, by simp, by simpa using digit, rfl⟩
  · cases advanced

theorem Holds.advance_radixDigits {radix : Radix} (holds : Holds mode text (.radixDigits radix))
    (advanced : (NumberPhase.radixDigits radix).advance? mode c = some p') : Holds mode (text ++ [c]) p' := by
  obtain ⟨letter, digits, letter_, some_, all, rfl⟩ := holds
  unfold advance? at advanced
  dsimp only at advanced
  split at advanced
  · rename_i digit
    cases advanced
    exact ⟨letter, digits ++ [c], letter_, by simp, forall_push all digit, rfl⟩
  · cases advanced

theorem Holds.advance_legacyOctal (holds : Holds mode text .legacyOctal)
    (advanced : NumberPhase.legacyOctal.advance? mode c = some p') : Holds mode (text ++ [c]) p' := by
  obtain ⟨rfl, digits, some_, all, rfl⟩ := holds
  unfold advance? at advanced
  dsimp only at advanced
  split at advanced
  · rename_i digit
    cases advanced
    unfold afterZero
    split
    · rename_i octal
      exact ⟨rfl, digits ++ [c], by simp, forall_push all octal, rfl⟩
    · rename_i large
      have decimal : Digits digits := fun d member => isDecimalDigit_of_octal (all d member)
      exact ⟨.zeroLed (decimal.push digit) (by simp) (eq_false_of_ne_true large), by simp⟩
  · cases advanced

/-- What a character adds to the text of a phase. -/
theorem Holds.advance (holds : Holds mode text p) (advanced : p.advance? mode c = some p') :
    Holds mode (text ++ [c]) p' := by
  cases p with
  | start => exact holds.advance_start advanced
  | zero => exact holds.advance_zero advanced
  | integer => exact holds.advance_integer advanced
  | dot => exact holds.advance_dot advanced
  | fraction => exact holds.advance_fraction advanced
  | exponentMark => exact holds.advance_exponentMark advanced
  | exponentSign => exact holds.advance_exponentSign advanced
  | exponent => exact holds.advance_exponent advanced
  | radixMark radix => exact holds.advance_radixMark advanced
  | radixDigits radix => exact holds.advance_radixDigits advanced
  | legacyOctal => exact holds.advance_legacyOctal advanced

theorem holds_after {start_ : NumberPhase} (holds : Holds mode front start_)
    (led : after? mode start_ text = some p) : Holds mode (front ++ text) p := by
  induction text generalizing front start_ with
  | nil =>
    cases led
    rwa [List.append_nil]
  | cons c text ih =>
    rw [after?_cons] at led
    obtain ⟨p₁, advanced, led⟩ := Option.bind_eq_some_iff.1 led
    rw [List.append_cons]
    exact ih (holds.advance advanced) led

/-- The texts of a complete phase are literals. -/
theorem Holds.literal (holds : Holds mode text p) (complete : p.isComplete = true) :
    ∃ q, NumericLiteral mode text q := by
  have alone {q : ℚ} (mantissa : Mantissa mode text q) : ∃ q, NumericLiteral mode text q := by
    refine ⟨q * 10 ^ (0 : ℤ), ?_⟩
    rw [← List.append_nil text]
    exact .decimal mantissa .none
  cases p with
  | zero =>
    obtain rfl := holds
    exact alone (.integer .zero)
  | integer => exact alone (.integer holds.1)
  | fraction =>
    obtain ⟨q, mantissa⟩ := holds.mantissa
    exact alone mantissa
  | exponent =>
    obtain ⟨front, q, power, e, before, written, _, rfl⟩ := holds
    exact ⟨_, .decimal before written⟩
  | radixDigits radix =>
    obtain ⟨letter, digits, letter_, some_, all, rfl⟩ := holds
    exact ⟨_, .radix letter_ some_ all⟩
  | legacyOctal =>
    obtain ⟨rfl, digits, some_, all, rfl⟩ := holds
    exact ⟨_, .legacyOctal some_ all⟩
  | _ => cases complete

/-! ### Literals lead to complete phases -/

theorem after?_stays (stays : ∀ c ∈ text, p.advance? mode c = some p) : after? mode p text = some p := by
  induction text with
  | nil => rfl
  | cons c text ih =>
    rw [after?_cons, stays c (by simp)]
    exact ih fun d member => stays d (by simp [member])

theorem ofLetter?_digit (digit : isDecimalDigit c = true) : Radix.ofLetter? c = none := by
  unfold Radix.ofLetter?
  split
  all_goals first | rfl | exact absurd digit (by decide)

theorem ofLetter?_exponent (letter : c = 'e' ∨ c = 'E') : Radix.ofLetter? c = none := by
  rcases letter with rfl | rfl <;> rfl

theorem exponentLetter_other (letter : c = 'e' ∨ c = 'E') : isDecimalDigit c = false ∧ c ≠ '.' := by
  rcases letter with rfl | rfl <;> decide

theorem advance?_integer (digit : isDecimalDigit c = true) : advance? mode .integer c = some .integer :=
  if_pos digit

theorem advance?_fraction (digit : isDecimalDigit c = true) : advance? mode .fraction c = some .fraction :=
  if_pos digit

theorem advance?_exponent (digit : isDecimalDigit c = true) : advance? mode .exponent c = some .exponent :=
  if_pos digit

theorem advance?_legacyOctal (digit : isDecimalDigit c = true) :
    advance? mode .legacyOctal c = some (afterZero c) :=
  if_pos digit

theorem advance?_zero (digit : isDecimalDigit c = true) :
    advance? .sloppy .zero c = some (afterZero c) := by
  unfold advance?
  dsimp only
  rw [ofLetter?_digit digit]
  exact if_pos digit

/-- Among the digits after a zero, an eight or a nine makes the literal decimal. -/
theorem afterZero_large (first : isDecimalDigit c = true) (all : Digits digits) {d : Char}
    (member : d ∈ c :: digits) (large : isOctalDigit d = false) :
    after? .sloppy (afterZero c) digits = some .integer := by
  induction digits generalizing c with
  | nil =>
    obtain rfl : d = c := by simpa using member
    simp [afterZero, large, after?]
  | cons c' digits ih =>
    obtain ⟨first', all'⟩ := List.forall_mem_cons.1 all
    unfold afterZero
    split
    · rename_i octal
      have later : d ∈ c' :: digits := by
        rcases List.mem_cons.1 member with rfl | later
        · rw [octal] at large
          cases large
        · exact later
      rw [after?_cons, advance?_legacyOctal first']
      exact ih first' all' later
    · exact after?_stays fun c member => advance?_integer (all c member)

theorem after?_decimalInteger (integer : DecimalInteger mode whole) :
    after? mode .start whole = some .zero ∨ after? mode .start whole = some .integer := by
  cases integer with
  | zero => exact .inl rfl
  | @plain _ c digits digit other all =>
    have begun : advance? mode .start c = some .integer := (if_neg other).trans (if_pos digit)
    rw [after?_cons, begun]
    exact .inr (after?_stays fun c member => advance?_integer (all c member))
  | @zeroLed d digits all member large =>
    refine .inr ?_
    rcases digits with _ | ⟨c, digits⟩
    · cases member
    obtain ⟨first, all⟩ := List.forall_mem_cons.1 all
    have begun : advance? .sloppy .start '0' = some .zero := rfl
    rw [after?_cons, begun, Option.bind_some, after?_cons, advance?_zero first]
    exact afterZero_large first all member large

/-- The phases in which an exponent may begin. -/
def isMantissa : NumberPhase → Bool
  | .zero | .integer | .fraction => true
  | _ => false

theorem after?_mantissa (mantissa : Mantissa mode front q) :
    ∃ p, after? mode .start front = some p ∧ p.isMantissa = true := by
  cases mantissa with
  | integer integer =>
    rcases after?_decimalInteger integer with led | led
    · exact ⟨_, led, rfl⟩
    · exact ⟨_, led, rfl⟩
  | @point whole places integer all =>
    have behind : after? mode .fraction places = some .fraction :=
      after?_stays fun c member => advance?_fraction (all c member)
    refine ⟨.fraction, ?_, rfl⟩
    rw [after?_append]
    rcases after?_decimalInteger integer with led | led
    · rw [led, Option.bind_some, after?_cons]
      exact behind
    · rw [led, Option.bind_some, after?_cons]
      exact behind
  | @fraction places all some_ =>
    obtain ⟨c, digits, rfl⟩ := List.exists_cons_of_ne_nil some_
    obtain ⟨first, all⟩ := List.forall_mem_cons.1 all
    have begun : advance? mode .start '.' = some .dot := rfl
    have digit : advance? mode .dot c = some .fraction := if_pos first
    refine ⟨.fraction, ?_, rfl⟩
    rw [after?_cons, begun, Option.bind_some, after?_cons, digit]
    exact after?_stays fun c member => advance?_fraction (all c member)

theorem advance?_exponentLetter (mantissa : p.isMantissa = true) (letter : c = 'e' ∨ c = 'E') :
    p.advance? mode c = some .exponentMark := by
  have known := exponentLetter_iff.2 letter
  obtain ⟨other, point⟩ := exponentLetter_other letter
  have digit : ¬isDecimalDigit c = true := by simp [other]
  cases p with
  | zero =>
    unfold advance?
    dsimp only
    rw [ofLetter?_exponent letter]
    exact (if_neg digit).trans ((if_neg point).trans (if_pos known))
  | integer => exact (if_neg digit).trans ((if_neg point).trans (if_pos known))
  | fraction => exact (if_neg digit).trans (if_pos known)
  | _ => cases mantissa

theorem after?_exponentDigits (all : Digits digits) (some_ : digits ≠ []) :
    after? mode .exponentMark digits = some .exponent ∧ after? mode .exponentSign digits = some .exponent := by
  obtain ⟨c, digits, rfl⟩ := List.exists_cons_of_ne_nil some_
  obtain ⟨first, all⟩ := List.forall_mem_cons.1 all
  have rest : after? mode .exponent digits = some .exponent :=
    after?_stays fun c member => advance?_exponent (all c member)
  have unsigned : (c = '+' || c = '-') = false := by
    by_contra sign
    simp only [Bool.not_eq_false, Bool.or_eq_true, decide_eq_true_eq] at sign
    rcases sign with rfl | rfl <;> exact absurd first (by decide)
  have mark : advance? mode .exponentMark c = some .exponent :=
    (if_neg (by simp [unsigned])).trans (if_pos first)
  have sign : advance? mode .exponentSign c = some .exponent := if_pos first
  rw [after?_cons, mark, after?_cons, sign]
  exact ⟨rest, rest⟩

/-- The phases of a complete decimal. -/
def isDecimal : NumberPhase → Bool
  | .zero | .integer | .fraction | .exponent => true
  | _ => false

theorem after?_exponent (mantissa : p.isMantissa = true) (written : Exponent power e) :
    ∃ p', after? mode p power = some p' ∧ p'.isDecimal = true := by
  cases written with
  | none => exact ⟨p, rfl, by cases p <;> first | rfl | cases mantissa⟩
  | unsigned letter all some_ =>
    rw [after?_cons, advance?_exponentLetter mantissa letter]
    exact ⟨_, (after?_exponentDigits all some_).1, rfl⟩
  | plus letter all some_ =>
    have sign : advance? mode .exponentMark '+' = some .exponentSign := rfl
    rw [after?_cons, advance?_exponentLetter mantissa letter, Option.bind_some, after?_cons, sign]
    exact ⟨_, (after?_exponentDigits all some_).2, rfl⟩
  | minus letter all some_ =>
    have sign : advance? mode .exponentMark '-' = some .exponentSign := rfl
    rw [after?_cons, advance?_exponentLetter mantissa letter, Option.bind_some, after?_cons, sign]
    exact ⟨_, (after?_exponentDigits all some_).2, rfl⟩

theorem after?_decimal (mantissa : Mantissa mode front q) (written : Exponent power e) :
    ∃ p, after? mode .start (front ++ power) = some p ∧ p.isDecimal = true := by
  obtain ⟨p, led, mantissa_⟩ := after?_mantissa mantissa
  rw [after?_append, led]
  exact after?_exponent mantissa_ written

theorem after?_radix {radix : Radix} (letter : (c, radix) ∈ radixLetters) (some_ : digits ≠ [])
    (all : ∀ d ∈ digits, radix.hasDigit d = true) :
    after? mode .start ('0' :: c :: digits) = some (.radixDigits radix) := by
  obtain ⟨d, digits, rfl⟩ := List.exists_cons_of_ne_nil some_
  obtain ⟨first, all⟩ := List.forall_mem_cons.1 all
  have zero : advance? mode .start '0' = some .zero := rfl
  have mark : advance? mode .zero c = some (.radixMark radix) := by
    unfold advance?
    dsimp only
    rw [mem_radixLetters.1 letter]
  have digit : advance? mode (.radixMark radix) d = some (.radixDigits radix) := if_pos first
  rw [after?_cons, zero, Option.bind_some, after?_cons, mark, Option.bind_some, after?_cons, digit]
  exact after?_stays fun d member => if_pos (all d member)

theorem after?_legacyOctal (some_ : digits ≠ []) (all : ∀ d ∈ digits, isOctalDigit d = true) :
    after? .sloppy .start ('0' :: digits) = some .legacyOctal := by
  obtain ⟨d, digits, rfl⟩ := List.exists_cons_of_ne_nil some_
  have stays (d : Char) (octal : isOctalDigit d = true) : afterZero d = .legacyOctal := if_pos octal
  obtain ⟨first, all⟩ := List.forall_mem_cons.1 all
  have zero : advance? .sloppy .start '0' = some .zero := rfl
  rw [after?_cons, zero, Option.bind_some, after?_cons, advance?_zero (isDecimalDigit_of_octal first),
    stays d first]
  refine after?_stays fun d member => ?_
  rw [advance?_legacyOctal (isDecimalDigit_of_octal (all d member)), stays d (all d member)]

theorem isComplete_of_decimal (decimal : p.isDecimal = true) : p.isComplete = true := by
  cases p <;> first | rfl | cases decimal

theorem after?_literal (literal : NumericLiteral mode text q) :
    ∃ p, after? mode .start text = some p ∧ p.isComplete = true := by
  cases literal with
  | decimal mantissa written =>
    obtain ⟨p, led, decimal⟩ := after?_decimal mantissa written
    exact ⟨p, led, isComplete_of_decimal decimal⟩
  | radix letter some_ all => exact ⟨_, after?_radix letter some_ all, rfl⟩
  | legacyOctal some_ all => exact ⟨_, after?_legacyOctal some_ all, rfl⟩

/-- From every phase a digit or nothing leads to a complete one. -/
theorem completable (mode : Mode) (p : NumberPhase) :
    ∃ rest p', after? mode p rest = some p' ∧ p'.isComplete = true := by
  by_cases complete : p.isComplete = true
  · exact ⟨[], p, rfl, complete⟩
  · refine ⟨['0'], ?_⟩
    cases p with
    | start => exact ⟨.zero, rfl, rfl⟩
    | dot => exact ⟨.fraction, rfl, rfl⟩
    | exponentMark => exact ⟨.exponent, rfl, rfl⟩
    | exponentSign => exact ⟨.exponent, rfl, rfl⟩
    | radixMark radix => exact ⟨.radixDigits radix, by cases radix <;> rfl, rfl⟩
    | _ => exact absurd rfl complete

end NumberPhase

open NumberPhase

theorem numericLiteral_iff :
    (∃ q, NumericLiteral mode text q) ↔ ∃ p, after? mode .start text = some p ∧ p.isComplete = true := by
  constructor
  · rintro ⟨q, literal⟩
    exact after?_literal literal
  · rintro ⟨p, led, complete⟩
    have begun : Holds mode [] .start := rfl
    exact (holds_after begun led).literal complete

theorem literalPrefix_iff : LiteralPrefix mode text ↔ ∃ p, after? mode .start text = some p := by
  constructor
  · rintro ⟨rest, q, literal⟩
    obtain ⟨p, led, _⟩ := after?_literal literal
    rw [after?_append] at led
    obtain ⟨p', led', _⟩ := Option.bind_eq_some_iff.1 led
    exact ⟨p', led'⟩
  · rintro ⟨p, led⟩
    obtain ⟨rest, p', led', complete⟩ := completable mode p
    refine ⟨rest, numericLiteral_iff.2 ⟨p', ?_, complete⟩⟩
    rw [after?_append, led]
    exact led'

/-! ### The longest beginning of a literal -/

theorem after?_exists_stop (mode : Mode) (p : NumberPhase) (text : List Char) :
    ∃ front rest p', text = front ++ rest ∧ after? mode p front = some p' ∧
      ∀ c, rest.head? = some c → p'.advance? mode c = none := by
  induction text generalizing p with
  | nil => exact ⟨[], [], p, rfl, rfl, by simp⟩
  | cons c text ih =>
    cases advanced : p.advance? mode c with
    | none =>
      refine ⟨[], c :: text, p, rfl, rfl, ?_⟩
      rintro d ⟨rfl⟩
      exact advanced
    | some p₁ =>
      obtain ⟨front, rest, p', rfl, led, stops⟩ := ih p₁
      refine ⟨c :: front, rest, p', rfl, ?_, stops⟩
      rw [after?_cons, advanced]
      exact led

/-- A text that leads to a phase is the longest beginning of a literal just where its next character does not
continue it. -/
theorem longestPrefix_iff {rest : List Char} (led : after? mode .start text = some p) :
    LongestPrefix mode text (text ++ rest) ↔ ∀ c, rest.head? = some c → p.advance? mode c = none := by
  constructor
  · intro longest c next
    obtain ⟨rest, rfl⟩ := List.head?_eq_some_iff.1 next
    by_contra goes
    obtain ⟨p', advanced⟩ := Option.ne_none_iff_exists'.1 goes
    have viable : LiteralPrefix mode (text ++ [c]) := by
      refine literalPrefix_iff.2 ⟨p', ?_⟩
      rw [after?_append, led, Option.bind_some, after?_one, advanced]
    have longer := longest.longest _ (List.prefix_append_right_inj text |>.2 ⟨rest, rfl⟩) viable
    rw [List.length_append, List.length_singleton] at longer
    omega
  · intro stops
    refine ⟨List.prefix_append text rest, literalPrefix_iff.2 ⟨p, led⟩, ?_⟩
    intro longer front viable
    by_contra past
    -- A longer beginning goes on with the next character.
    obtain ⟨more, rfl⟩ := List.prefix_of_prefix_length_le (List.prefix_append text rest) front (by omega)
    obtain ⟨p', led'⟩ := literalPrefix_iff.1 viable
    rw [after?_append, led] at led'
    have inside := (List.prefix_append_right_inj text).1 front
    rcases more with _ | ⟨c, more⟩
    · simp at past
    · obtain ⟨rest, rfl⟩ := inside
      rw [Option.bind_some, after?_cons, stops c rfl] at led'
      cases led'

end EcmaLex
