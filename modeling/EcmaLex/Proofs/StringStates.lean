import EcmaLex.Proofs.Reading.StringPhases
import Mathlib.Algebra.Group.Nat.Defs

/-!
A scanner of strings may be fed anything and may go on after it has answered the end of its literal. Its
counters and values stay in narrow bounds, so it can compute in bytes and words of 32 bits, and no character is
dispatched more than twice (`stringScanner_staysInBounds`).
-/
namespace EcmaLex
open Text

/-- A number, if it fits in so many bits. -/
def fit? (bits n : ℕ) : Option ℕ := if n < 2 ^ bits then some n else none

/-- A difference that is not negative. -/
def minus? (m n : ℕ) : Option ℕ := if n ≤ m then some (m - n) else none

theorem fit?_eq {bits n : ℕ} (small : n < 2 ^ bits) : fit? bits n = some n := if_pos small

theorem minus?_eq {m n : ℕ} (below : n ≤ m) : minus? m n = some (m - n) := if_pos below

/-- One more digit of a number in a word of 32 bits. -/
def appendDigit? (base value digit : ℕ) : Option ℕ :=
  (fit? 32 (value * base)).bind fun shifted => fit? 32 (shifted + digit)

theorem appendDigit?_eq {base value digit : ℕ} (small : value * base + digit < 2 ^ 32) :
    appendDigit? base value digit = some (value * base + digit) := by
  rw [appendDigit?, fit?_eq (by omega), Option.bind_some, fit?_eq small]

namespace Text.Utf16Text

/-- The character of a surrogate pair, computed in words of 32 bits. -/
def pair? (high low : ℕ) : Option Char :=
  (minus? high 0xD800).bind fun above => (fit? 32 (above * 0x400)).bind fun shifted =>
    (fit? 32 (0x10000 + shifted)).bind fun base => (minus? low 0xDC00).bind fun below =>
      (fit? 32 (base + below)).bind scalar?

/-- Adds a code unit; there is no answer if a pair makes no character. -/
def pushUnit? (t : Utf16Text) (unit : ℕ) : Option Utf16Text :=
  if isHighSurrogate unit then some { chars := t.settle.chars, high := some unit }
  else if isLowSurrogate unit then
    match t.high with
    | some high => (pair? high unit).map fun c => { chars := c :: t.chars }
    | none => some { chars := Utf8.replacement :: t.chars }
  else some (t.pushChar ((scalar? unit).getD Utf8.replacement))

/-- A surrogate pair always makes a character. -/
theorem pair?_eq {high low : ℕ} (isHigh : isHighSurrogate high = true) (isLow : isLowSurrogate low = true) :
    pair? high low = some (pair high low) := by
  have bounds := isHighSurrogate_iff.1 isHigh
  have bounds' := isLowSurrogate_iff.1 isLow
  have valid : (0x10000 + (high - 0xD800) * 0x400 + (low - 0xDC00)).isValidChar := by
    simp only [Nat.isValidChar]
    omega
  rw [pair?, minus?_eq bounds.1, Option.bind_some, fit?_eq (by omega), Option.bind_some, fit?_eq (by omega),
    Option.bind_some, minus?_eq bounds'.1, Option.bind_some, fit?_eq (by omega), Option.bind_some, scalar?,
    if_pos valid, pair]

theorem Waits.pushUnit? {t : Utf16Text} (waits : t.Waits) (unit : ℕ) : t.pushUnit? unit = some (t.pushUnit unit) := by
  unfold Utf16Text.pushUnit? Utf16Text.pushUnit
  split
  · rfl
  · split
    · rename_i isLow
      cases known : t.high with
      | none => rfl
      | some high =>
        simp only
        rw [pair?_eq (waits high known) isLow, Option.map_some]
    · rfl

end Text.Utf16Text

theorem octalDigit_bounds {c : Char} (octal : isOctalDigit c = true) :
    '0'.toNat ≤ c.toNat ∧ c.toNat ≤ '0'.toNat + 7 := by
  simp only [isOctalDigit, Bool.and_eq_true, decide_eq_true_eq] at octal
  exact octal

/-- What an input does to a scanner, and the code units that were added to its text on the way. -/
structure Feeding where
  answer : StringStep
  scanner : StringScanner
  units : List ℕ

/-- The same after a unit that was added before. -/
def Feeding.behind (unit : ℕ) (f : Feeding) : Feeding := { f with units := unit :: f.units }

namespace StringScanner

/-- A unit ends an escape. -/
def plainUnit? (s : StringScanner) (unit : ℕ) : Option StringScanner :=
  (s.text.pushUnit? unit).map fun text => { s with phase := .normal, text }

/-- A unit ends an escape together with the character that was fed. -/
def endWith? (s : StringScanner) (unit : ℕ) : Option Feeding :=
  (s.plainUnit? unit).map fun s => ⟨.proceed, s, [unit]⟩

/-- A digit of an escape that waits for `remaining` digits, this one among them. -/
def feedDigit? (s : StringScanner) (phase : ℕ → ℕ → StringPhase) (remaining value digit : ℕ) : Option Feeding :=
  (appendDigit? 16 value digit).bind fun value =>
    if remaining = 1 then s.endWith? value
    else (minus? remaining 1).map fun remaining => ⟨.proceed, s.setPhase (phase remaining value), []⟩

/-- An octal digit that there is still room for. -/
def feedOctal? (s : StringScanner) (value digits most : ℕ) (c : Char) : Option Feeding :=
  (minus? c.toNat '0'.toNat).bind fun digit => (appendDigit? 8 value digit).bind fun value =>
    (fit? 8 (digits + 1)).bind fun digits =>
      if digits = most then s.endWith? value
      else some ⟨.proceed, s.setPhase (.legacyOctal value digits most), []⟩

/-- One dispatch over the phase. Counters are bytes and numbers are words of 32 bits, and there is no answer
where one of them does not fit. `again` takes the same character once more. -/
def dispatch? (again : StringScanner → Option Feeding) (s : StringScanner) (c : Option Char) (loc : Location) :
    Option Feeding :=
  match s.phase with
  | .normal => some ⟨(s.feedNormal c loc).1, (s.feedNormal c loc).2, []⟩
  | .escape =>
    match c with
    | none => some ⟨.unterminated, s, []⟩
    | some c =>
      if s.mode = .sloppy ∧ isOctalDigit c = true then
        (minus? c.toNat '0'.toNat).map fun value =>
          ⟨.proceed, s.setPhase (.legacyOctal value 1 (mostOctalDigits value)), []⟩
      else some ⟨.proceed, s.feedEscape c, []⟩
  | .hex remaining value =>
    match c.bind hexValue? with
    | none => again (s.fail.setPhase .normal)
    | some digit => s.feedDigit? .hex remaining value digit
  | .unicodeStart =>
    if c = some '{' then some ⟨.proceed, s.setPhase (.codePoint 0 0), []⟩
    else
      match c.bind hexValue? with
      | none => again (s.fail.setPhase .normal)
      | some digit => some ⟨.proceed, s.setPhase (.unicode 3 digit), []⟩
  | .unicode remaining value =>
    match c.bind hexValue? with
    | none => again (s.fail.setPhase .normal)
    | some digit => s.feedDigit? .unicode remaining value digit
  | .codePoint value digits =>
    if c = some '}' then
      if digits = 0 ∨ pastCodePoints ≤ value then some ⟨.proceed, s.fail.setPhase .normal, []⟩
      else s.endWith? value
    else
      match c.bind hexValue? with
      | none => again (s.fail.setPhase .normal)
      | some digit =>
        (appendDigit? 16 value digit).map fun value =>
          ⟨.proceed, s.setPhase (.codePoint (min value pastCodePoints) (min (digits + 1) mostCounted)), []⟩
  | .legacyOctal value digits most =>
    match c.filter isOctalDigit with
    | some d =>
      if digits < most then s.feedOctal? value digits most d
      else (s.plainUnit? value).bind fun s => (again s).map (.behind value)
    | none => (s.plainUnit? value).bind fun s => (again s).map (.behind value)
  | .strictZero =>
    again (if c.any isDecimalDigit then s.fail.setPhase .normal else s.plainChar '\x00')

/-- Feeding in machine words. The character may be dispatched so many times again, and no more. -/
def feedInWords? : ℕ → StringScanner → Option Char → Location → Option Feeding
  | 0, s, c, loc => s.dispatch? (fun _ => none) c loc
  | n + 1, s, c, loc => s.dispatch? (fun s => s.feedInWords? n c loc) c loc

/-- In machine words the scanner does with an input what it does with exact numbers, and dispatches it once more
at most. The units that it adds are at most `most`. -/
def FeedsInWords (s : StringScanner) (c : Option Char) (loc : Location) (most : ℕ) : Prop :=
  ∃ units, s.feedInWords? 1 c loc = some ⟨(s.feed c loc).1, (s.feed c loc).2, units⟩ ∧ ∀ unit ∈ units, unit ≤ most

variable {s : StringScanner} {mode : Mode} {c : Option Char} {loc : Location} {most : ℕ}

theorem feedInWords?_one (s : StringScanner) (c : Option Char) (loc : Location) :
    s.feedInWords? 1 c loc = s.dispatch? (fun s => s.feedInWords? 0 c loc) c loc := rfl

theorem feedInWords?_plain (normal : s.phase = .normal) (n : ℕ) (c : Option Char) (loc : Location) :
    s.feedInWords? n c loc = some ⟨(s.feedNormal c loc).1, (s.feedNormal c loc).2, []⟩ := by
  cases n <;> simp only [feedInWords?, dispatch?, normal]

theorem Steady.plainUnit? (steady : s.Steady mode) (unit : ℕ) : s.plainUnit? unit = some (s.plainUnit unit) := by
  rw [StringScanner.plainUnit?, steady.waits.pushUnit? unit]
  rfl

theorem Steady.endWith? (steady : s.Steady mode) (unit : ℕ) :
    s.endWith? unit = some ⟨.proceed, s.plainUnit unit, [unit]⟩ := by
  rw [StringScanner.endWith?, steady.plainUnit? unit, Option.map_some]

theorem FeedsInWords.quiet (known : s.feedInWords? 1 c loc = some ⟨(s.feed c loc).1, (s.feed c loc).2, []⟩) :
    s.FeedsInWords c loc most := ⟨[], known, by simp⟩

theorem feedsInWords_normal (normal : s.phase = .normal) : s.FeedsInWords c loc most := by
  refine .quiet ?_
  rw [feedInWords?_plain normal]
  simp only [feed, normal]

theorem feedsInWords_escape (phase : s.phase = .escape) : s.FeedsInWords c loc most := by
  refine .quiet ?_
  simp only [feedInWords?_one, dispatch?, feed, phase]
  cases c with
  | none => rfl
  | some c =>
    simp only
    split
    · rename_i octal
      have below := (octalDigit_bounds octal.2).1
      have decimal := isDecimalDigit_of_octal octal.2
      have other (d : Char) (past : isDecimalDigit d = false) : c ≠ d := by
        rintro rfl
        rw [decimal] at past
        cases past
      have value : octalValue? c = some (c.toNat - '0'.toNat) := if_pos octal.2
      rw [minus?_eq below, Option.map_some, feedEscape, if_neg (other '\n' (by decide)),
        if_neg (other 'x' (by decide)), if_neg (other 'u' (by decide)), if_pos decimal, escapeDigit, octal.1]
      simp only [value]
    · rfl

/-- An escape that a character breaks. -/
theorem feedsInWords_broken (known : s.feed c loc = s.breakEscape c loc)
    (again : s.feedInWords? 1 c loc = (s.fail.setPhase .normal).feedInWords? 0 c loc) :
    s.FeedsInWords c loc most := by
  refine .quiet ?_
  rw [again, feedInWords?_plain rfl, known]
  rfl

/-- A phase with a fixed count of digits, whose number has room for one digit more. -/
theorem FixedDigits.feedsInWords {phase : ℕ → ℕ → StringPhase} {remaining value : ℕ} (fixed : FixedDigits phase)
    (steady : s.Steady mode) (known : s.phase = phase remaining value) (more : 0 < remaining) (small : value ≤ 0xFFF)
    (broken : c.bind hexValue? = none → s.feed c loc = s.breakEscape c loc)
    (dispatched : s.feedInWords? 1 c loc =
      match c.bind hexValue? with
      | none => (s.fail.setPhase .normal).feedInWords? 0 c loc
      | some digit => s.feedDigit? phase remaining value digit) :
    s.FeedsInWords c loc 0x10FFFF := by
  cases digit? : c.bind hexValue? with
  | none =>
    rw [digit?] at dispatched
    exact feedsInWords_broken (broken digit?) dispatched
  | some digit =>
    obtain ⟨d, rfl, value_⟩ := Option.bind_eq_some_iff.1 digit?
    have below := hexValue?_lt value_
    rw [digit?] at dispatched
    simp only [FeedsInWords, dispatched, fixed.digit loc known value_, feedDigit?,
      appendDigit?_eq (by omega : value * 16 + digit < 2 ^ 32), Option.bind_some]
    split
    · rw [steady.endWith?]
      refine ⟨_, rfl, ?_⟩
      simp only [List.mem_singleton, forall_eq]
      omega
    · rw [minus?_eq more, Option.map_some]
      exact ⟨_, rfl, by simp⟩

theorem feedsInWords_hex {remaining value : ℕ} (steady : s.Steady mode) (phase : s.phase = .hex remaining value)
    (more : 0 < remaining) (small : value ≤ 0xFFF) : s.FeedsInWords c loc 0x10FFFF := by
  refine hex_fixed.feedsInWords steady phase more small ?_ ?_
  · intro other
    simp only [feed, phase, other]
  · simp only [feedInWords?_one, dispatch?, phase]

theorem feedsInWords_unicode {remaining value : ℕ} (steady : s.Steady mode)
    (phase : s.phase = .unicode remaining value) (more : 0 < remaining) (small : value ≤ 0xFFF) :
    s.FeedsInWords c loc 0x10FFFF := by
  refine unicode_fixed.feedsInWords steady phase more small ?_ ?_
  · intro other
    simp only [feed, phase, other]
  · simp only [feedInWords?_one, dispatch?, phase]

theorem feedsInWords_unicodeStart (phase : s.phase = .unicodeStart) : s.FeedsInWords c loc most := by
  by_cases brace : c = some '{'
  · refine .quiet ?_
    simp only [feedInWords?_one, dispatch?, feed, phase, if_pos brace]
  · cases known : c.bind hexValue? with
    | none =>
      refine feedsInWords_broken ?_ ?_
      · simp only [feed, phase, if_neg brace, known]
      · simp only [feedInWords?_one, dispatch?, phase, if_neg brace, known]
    | some digit =>
      refine .quiet ?_
      simp only [feedInWords?_one, dispatch?, feed, phase, if_neg brace, known]

theorem feedsInWords_codePoint {value digits : ℕ} (steady : s.Steady mode) (phase : s.phase = .codePoint value digits)
    (small : value ≤ pastCodePoints) : s.FeedsInWords c loc 0x10FFFF := by
  unfold pastCodePoints at small
  by_cases brace : c = some '}'
  · subst brace
    by_cases unusable : digits = 0 ∨ pastCodePoints ≤ value
    · refine .quiet ?_
      simp only [feedInWords?_one, dispatch?, feed, phase, feedCodePoint?, Option.bind_some, if_true, if_pos unusable]
    · refine ⟨[value], ?_, ?_⟩
      · simp only [feedInWords?_one, dispatch?, feed, phase, feedCodePoint?, Option.bind_some, if_true, if_neg unusable,
          steady.endWith?]
      · unfold pastCodePoints at unusable
        simp only [List.mem_singleton, forall_eq]
        omega
  · cases known : c.bind hexValue? with
    | none =>
      have none_ : c.bind (s.feedCodePoint? value digits) = none := by
        cases c with
        | none => rfl
        | some d =>
          rw [Option.bind_some] at known ⊢
          rw [feedCodePoint?, if_neg fun same => brace (congrArg some same), known, Option.map_none]
      refine feedsInWords_broken ?_ ?_
      · simp only [feed, phase, none_]
      · simp only [feedInWords?_one, dispatch?, phase, if_neg brace, known]
    | some digit =>
      obtain ⟨d, rfl, value_⟩ := Option.bind_eq_some_iff.1 known
      have below := hexValue?_lt value_
      have other : d ≠ '}' := fun same => brace (congrArg some same)
      refine .quiet ?_
      simp only [feedInWords?_one, dispatch?, feed, phase, if_neg brace, known,
        appendDigit?_eq (by omega : value * 16 + digit < 2 ^ 32),
        Option.map_some, feedCodePoint?, Option.bind_some, if_neg other, value_]

/-- The units of an octal escape fit in a byte. -/
theorem feedsInWords_legacyOctal {value digits most : ℕ} (steady : s.Steady mode)
    (phase : s.phase = .legacyOctal value digits most) (few : digits < 3) (small : value ≤ 0o37) :
    s.FeedsInWords c loc 0o377 := by
  -- The escape is over, and the character is read as plain text.
  have left (known : s.feed c loc = (s.plainUnit value).feedNormal c loc)
      (again : s.feedInWords? 1 c loc =
        (s.plainUnit? value).bind fun s => (s.feedInWords? 0 c loc).map (.behind value)) :
      s.FeedsInWords c loc 0o377 := by
    refine ⟨[value], ?_, ?_⟩
    · rw [again, steady.plainUnit?, Option.bind_some, feedInWords?_plain rfl, known]
      rfl
    · simp only [List.mem_singleton, forall_eq]
      omega
  cases known : c.filter isOctalDigit with
  | none =>
    have none_ : c.bind octalValue? = none := by
      cases c with
      | none => rfl
      | some d => simp [octalValue?, (by simpa using known : isOctalDigit d = false)]
    refine left ?_ ?_
    · simp only [feed, phase, none_]
    · simp only [feedInWords?_one, dispatch?, phase, known]
  | some d =>
    obtain ⟨rfl, octal⟩ := Option.filter_eq_some_iff.1 known
    have value_ : octalValue? d = some (d.toNat - '0'.toNat) := if_pos octal
    by_cases room : digits < most
    · have bounds := octalDigit_bounds octal
      have fed : s.feedInWords? 1 (some d) loc = s.feedOctal? value digits most d := by
        simp only [feedInWords?_one, dispatch?, phase, known, if_pos room]
      simp only [FeedsInWords, fed, feedOctal?, minus?_eq bounds.1, Option.bind_some,
        fit?_eq (by omega : digits + 1 < 2 ^ 8),
        appendDigit?_eq (by omega : value * 8 + (d.toNat - '0'.toNat) < 2 ^ 32), feed, phase, value_, if_pos room]
      split
      · rw [steady.endWith?]
        refine ⟨_, rfl, ?_⟩
        simp only [List.mem_singleton, forall_eq]
        omega
      · exact ⟨_, rfl, by simp⟩
    · refine left ?_ ?_
      · simp only [feed, phase, Option.bind_some, value_, if_neg room]
      · simp only [feedInWords?_one, dispatch?, phase, known, if_neg room]

theorem feedsInWords_strictZero (phase : s.phase = .strictZero) : s.FeedsInWords c loc most := by
  refine .quiet ?_
  simp only [feedInWords?_one, dispatch?, feed, phase]
  split <;> exact feedInWords?_plain rfl 0 c loc

end StringScanner

namespace StringPhase

variable {mode : Mode} {text : List Char} {remaining value digits most : ℕ}

theorem Spelled.hex_bounds (spelled : Spelled mode text (.hex remaining value)) :
    (remaining = 1 ∨ remaining = 2) ∧ value < 16 ^ (2 - remaining) := by
  cases spelled with
  | @hex digits all few =>
    have count : 2 - (2 - digits.length) = digits.length := by omega
    rw [count]
    exact ⟨by omega, digitsValue_lt all⟩

theorem Spelled.unicode_bounds (spelled : Spelled mode text (.unicode remaining value)) :
    (remaining = 1 ∨ remaining = 2 ∨ remaining = 3) ∧ value < 16 ^ (4 - remaining) := by
  cases spelled with
  | @unicode digits begun all few =>
    have one := List.length_pos_iff.2 begun
    have count : 4 - (4 - digits.length) = digits.length := by omega
    rw [count]
    exact ⟨by omega, digitsValue_lt all⟩

/-- There is room for one digit more, and for two behind a small first one. -/
theorem Spelled.octal_cases (spelled : Spelled mode text (.legacyOctal value digits most)) :
    mode = .sloppy ∧ (digits = 1 ∧ value ≤ 7 ∧ (most = 2 ∨ most = 3 ∧ value ≤ 3) ∨
      digits = 2 ∧ value ≤ 0o37 ∧ most = 3) := by
  cases spelled with
  | @legacyOctal first digits sloppy all room =>
    refine ⟨sloppy, ?_⟩
    have first_ := digitsValue_one_le (all first (by simp))
    unfold StringScanner.mostOctalDigits at room ⊢
    rcases digits with _ | ⟨second, _ | ⟨third, digits⟩⟩
    · split
      · rename_i low
        exact .inl ⟨rfl, first_, .inr ⟨rfl, low⟩⟩
      · exact .inl ⟨rfl, first_, .inl rfl⟩
    · have second_ := digitsValue_one_le (all second (by simp))
      rw [digitsValue_two]
      simp only [List.length_cons, List.length_nil] at room
      split at room
      · rename_i low
        rw [if_pos low]
        exact .inr ⟨rfl, by omega, rfl⟩
      · omega
    · simp only [List.length_cons] at room
      split at room <;> omega

end StringPhase

/-- What a scanner is in this mode that has been fed these inputs. -/
structure StaysInBounds (mode : Mode) (inputs : List (Option Char)) (s : StringScanner) : Prop where
  hex : ∀ remaining value, s.phase = .hex remaining value →
    (remaining = 1 ∨ remaining = 2) ∧ value < 16 ^ (2 - remaining)
  unicode : ∀ remaining value, s.phase = .unicode remaining value →
    (remaining = 1 ∨ remaining = 2 ∨ remaining = 3) ∧ value < 16 ^ (4 - remaining)
  /-- The digits inside braces are the last inputs, and their number is cut off past the code points. -/
  codePoint : ∀ value digits, s.phase = .codePoint value digits → value ≤ 0x110000 ∧
    ∃ before written, inputs = before ++ ('u' :: '{' :: written).map some ∧ HexDigits written ∧
      value = min 0x110000 (digitsValue 16 written) ∧ digits = min 255 written.length
  legacyOctal : ∀ value digits most, s.phase = .legacyOctal value digits most → mode = .sloppy ∧
    1 ≤ digits ∧ digits < most ∧ most ≤ 3 ∧ value < 8 ^ digits ∧ (most = 3 → value < 4 * 8 ^ (digits - 1))
  strictZero : s.phase = .strictZero → mode = .strict
  feeds : ∀ c loc, s.FeedsInWords c loc 0x10FFFF
  octal_feeds : ∀ value digits most, s.phase = .legacyOctal value digits most →
    ∀ c loc, s.FeedsInWords c loc 0o377

namespace StringScanner

variable {s : StringScanner} {mode : Mode} {text : List Char} {c : Option Char} {loc : Location}

theorem feedsInWords_spelled (steady : s.Steady mode) (spelled : s.phase.Spelled mode text) :
    s.FeedsInWords c loc 0x10FFFF := by
  cases phase : s.phase with
  | normal => exact feedsInWords_normal phase
  | escape => exact feedsInWords_escape phase
  | hex remaining value =>
    rw [phase] at spelled
    obtain ⟨rfl | rfl, small⟩ := spelled.hex_bounds
    · exact feedsInWords_hex steady phase (by decide) (by omega)
    · exact feedsInWords_hex steady phase (by decide) (by omega)
  | unicodeStart => exact feedsInWords_unicodeStart phase
  | unicode remaining value =>
    rw [phase] at spelled
    obtain ⟨rfl | rfl | rfl, small⟩ := spelled.unicode_bounds
    all_goals exact feedsInWords_unicode steady phase (by decide) (by omega)
  | codePoint value digits =>
    rw [phase] at spelled
    cases spelled
    exact feedsInWords_codePoint steady phase (Nat.min_le_right _ _)
  | legacyOctal value digits most =>
    rw [phase] at spelled
    have few : digits < 3 ∧ value ≤ 0o37 := by
      have cases_ := spelled.octal_cases.2
      omega
    obtain ⟨units, fed, small⟩ := feedsInWords_legacyOctal steady phase few.1 few.2
    exact ⟨units, fed, fun unit member => Nat.le_trans (small unit member) (by decide)⟩
  | strictZero => exact feedsInWords_strictZero phase

end StringScanner

open StringScanner in
/-- Whatever a new scanner is fed, its counters and numbers stay in their bounds. -/
theorem stringScanner_staysInBounds (quote : Char) (mode : Mode) (inputs : List (Option Char × Location)) :
    StaysInBounds mode (inputs.map Prod.fst) ((StringScanner.start quote mode).fed inputs) := by
  obtain ⟨steady, inside⟩ := fed_spelled quote mode inputs
  generalize (StringScanner.start quote mode).fed inputs = s at steady inside
  have escape {p : StringPhase} (phase : s.phase = p) (some_ : p ≠ .normal) :
      ∃ text, EscapeBehind (inputs.map Prod.fst) text ∧ p.Spelled mode text := by
    rw [phase] at inside
    exact inside.resolve_left some_
  refine ⟨?_, ?_, ?_, ?_, ?_, ?_, ?_⟩
  · intro remaining value phase
    obtain ⟨_, _, spelled⟩ := escape phase nofun
    exact spelled.hex_bounds
  · intro remaining value phase
    obtain ⟨_, _, spelled⟩ := escape phase nofun
    exact spelled.unicode_bounds
  · intro value digits phase
    obtain ⟨_, ⟨before, ends, behind⟩, spelled⟩ := escape phase nofun
    cases spelled with
    | @codePoint written all =>
      refine ⟨Nat.min_le_right _ _, before ++ some '\\' :: List.replicate ends none, written, ?_, all,
        Nat.min_comm _ _, Nat.min_comm _ _⟩
      rw [behind]
      simp
  · intro value digits most phase
    obtain ⟨_, _, spelled⟩ := escape phase nofun
    obtain ⟨sloppy, ⟨rfl, few, room⟩ | ⟨rfl, few, rfl⟩⟩ := spelled.octal_cases
    · exact ⟨sloppy, by omega, by omega, by omega, by omega, by omega⟩
    · exact ⟨sloppy, by omega, by omega, by omega, by omega, by omega⟩
  · intro phase
    obtain ⟨_, _, spelled⟩ := escape phase nofun
    cases spelled
    assumption
  · intro c loc
    rcases inside with normal | ⟨text, _, spelled⟩
    · exact feedsInWords_normal normal
    · exact feedsInWords_spelled steady spelled
  · intro value digits most phase c loc
    obtain ⟨_, _, spelled⟩ := escape phase nofun
    have few : digits < 3 ∧ value ≤ 0o37 := by
      have cases_ := spelled.octal_cases.2
      omega
    exact feedsInWords_legacyOctal steady phase few.1 few.2

end EcmaLex
