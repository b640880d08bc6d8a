import EcmaLex.Literal.StringLiteral
import EcmaLex.Proofs.Grammar.StringPieces
import EcmaLex.Proofs.Source.HandedOut

/-!
How a string scanner passes over the pieces of a body. After each piece it is about to read what follows
as plain text (`Settles`): a piece has added its code units and, if it is broken, its backslash as the
fault. Some pieces are only known to have ended once the next character comes, so this is said of the
scanner together with that character.
-/
namespace EcmaLex
open Text

namespace StringScanner

/-- Taking these characters, the scanner goes from one state to another and goes on. -/
inductive Passes : StringScanner → List Mark → StringScanner → Prop
  | nil (s : StringScanner) : Passes s [] s
  | cons {s s₁ s' c loc marks} : s.feed (some c) loc = (.proceed, s₁) → Passes s₁ marks s' →
      Passes s ((c, loc) :: marks) s'

theorem Passes.one {s s' : StringScanner} {c : Char} {loc : Location}
    (fed : s.feed (some c) loc = (.proceed, s')) : Passes s [(c, loc)] s' := .cons fed (.nil s')

theorem Passes.append {s s₁ s' : StringScanner} {front back : List Mark} (first : Passes s front s₁)
    (second : Passes s₁ back s') : Passes s (front ++ back) s' := by
  induction first with
  | nil s => exact second
  | cons fed _ ih => exact .cons fed (ih second)

variable {quote : Char} {mode : Mode} {text : Utf16Text} {loc : Location} {fault : Option Location}

/-- The scanner reads this character as plain text behind `text`, with this fault. -/
def Settles (s : StringScanner) (quote : Char) (mode : Mode) (text : Utf16Text) (fault : Option Location)
    (c : Char) : Prop :=
  ∃ start, ∀ loc, s.feed (some c) loc =
    feedNormal ⟨quote, mode, .normal, text, start, fault⟩ (some c) loc

theorem settles_normal (start : Location) (c : Char) :
    Settles ⟨quote, mode, .normal, text, start, fault⟩ quote mode text fault c :=
  ⟨start, fun _ => rfl⟩

/-! ### Digits of a fixed count -/

/-- A phase that waits for so many digits more. -/
structure FixedDigits (phase : Nat → Nat → StringPhase) : Prop where
  digit {s : StringScanner} {remaining value digit : Nat} {c : Char} (loc : Location) :
    s.phase = phase remaining value → hexValue? c = some digit →
    s.feed (some c) loc = (.proceed,
      if remaining = 1 then s.plainUnit (value * 16 + digit)
      else s.setPhase (phase (remaining - 1) (value * 16 + digit)))
  other {s : StringScanner} {remaining value : Nat} {c : Char} (loc : Location) :
    s.phase = phase remaining value → hexValue? c = none → s.feed (some c) loc = s.breakEscape (some c) loc

theorem hex_fixed : FixedDigits .hex where
  digit loc phase value := by simp only [feed, phase, Option.bind_some, value]
  other loc phase value := by simp only [feed, phase, Option.bind_some, value]

theorem unicode_fixed : FixedDigits .unicode where
  digit loc phase value := by simp only [feed, phase, Option.bind_some, value]
  other loc phase value := by simp only [feed, phase, Option.bind_some, value]

theorem isHexDigit_value {c : Char} (digit : isHexDigit c = true) : ∃ value, hexValue? c = some value :=
  Option.isSome_iff_exists.1 digit

theorem hexValue?_none {c : Char} (other : isHexDigit c = false) : hexValue? c = none := by
  simpa [isHexDigit] using other

variable {phase : Nat → Nat → StringPhase}

/-- Digits that are not all yet. -/
theorem FixedDigits.passes (fixed : FixedDigits phase) {s : StringScanner} {n : Nat} {digits : List Char}
    {marks : List Mark} (known : s.phase = phase (n - digits.length) (digitsValue 16 digits))
    (all : HexDigits (marked marks)) (count : digits.length + marks.length < n) :
    Passes s marks (s.setPhase (phase (n - (digits.length + marks.length))
      (digitsValue 16 (digits ++ marked marks)))) := by
  induction marks generalizing s digits with
  | nil =>
    have same : s.setPhase (phase (n - (digits.length + 0)) (digitsValue 16 (digits ++ []))) = s := by
      rw [List.append_nil, Nat.add_zero, ← known]
      rfl
    exact same ▸ .nil s
  | cons m marks ih =>
    obtain ⟨c, loc⟩ := m
    rw [List.length_cons] at count
    obtain ⟨value, digit⟩ := isHexDigit_value (all c (by simp))
    have fed := fixed.digit loc known digit
    rw [if_neg (by omega)] at fed
    have pushed : digitsValue 16 digits * 16 + value = digitsValue 16 (digits ++ [c]) := by
      rw [digitsValue_push, digit, Option.getD_some]
    have known' : (s.setPhase (phase (n - digits.length - 1) (digitsValue 16 digits * 16 + value))).phase =
        phase (n - (digits ++ [c]).length) (digitsValue 16 (digits ++ [c])) := by
      rw [pushed, List.length_append, List.length_singleton, Nat.sub_add_eq]
      rfl
    have rest := ih known' (fun d member => all d (by simp [member])) (by simp; omega)
    refine .cons fed ?_
    rw [List.length_append, List.length_singleton, List.append_assoc] at rest
    rw [List.length_cons, Nat.add_comm marks.length 1, ← Nat.add_assoc]
    exact rest

/-- The last of the digits ends the escape. -/
theorem FixedDigits.completes (fixed : FixedDigits phase) {s : StringScanner} {n : Nat} {digits : List Char}
    {marks : List Mark} (known : s.phase = phase (n - digits.length) (digitsValue 16 digits))
    (all : HexDigits (marked marks)) (count : digits.length + marks.length = n) (more : marks ≠ []) :
    Passes s marks (s.plainUnit (digitsValue 16 (digits ++ marked marks))) := by
  rcases List.eq_nil_or_concat marks with rfl | ⟨front, ⟨c, loc⟩, rfl⟩
  · exact absurd rfl more
  rw [List.concat_eq_append] at all count ⊢
  rw [List.length_append, List.length_singleton] at count
  rw [marked_append] at all ⊢
  obtain ⟨value, digit⟩ := isHexDigit_value (all c (by simp))
  have all' : HexDigits (marked front) := fun d member => all d (by simp [member])
  have before := fixed.passes known all' (by omega)
  have pushed : digitsValue 16 (digits ++ marked front) * 16 + value =
      digitsValue 16 (digits ++ (marked front ++ [c])) := by
    rw [← List.append_assoc, digitsValue_push, digit, Option.getD_some]
  have phase_ : (s.setPhase (phase (n - (digits.length + front.length))
      (digitsValue 16 (digits ++ marked front)))).phase = _ := rfl
  have fed := fixed.digit loc phase_ digit
  rw [if_pos (by omega), pushed] at fed
  exact before.append (.one fed)

/-! ### Digits inside braces -/

theorem feed_codePoint_digit {s : StringScanner} {digits : List Char} {c : Char}
    (known : s.phase = .codePoint (min (digitsValue 16 digits) pastCodePoints)
      (min digits.length mostCounted)) (hex : isHexDigit c = true) (loc : Location) :
    s.feed (some c) loc = (.proceed, s.setPhase
      (.codePoint (min (digitsValue 16 (digits ++ [c])) pastCodePoints)
        (min (digits ++ [c]).length mostCounted))) := by
  obtain ⟨value, digit⟩ := isHexDigit_value hex
  have other : c ≠ '}' := by
    rintro rfl
    revert hex
    decide
  have value_ : min (min (digitsValue 16 digits) pastCodePoints * 16 + value) pastCodePoints =
      min (digitsValue 16 (digits ++ [c])) pastCodePoints := by
    rw [digitsValue_push, digit, Option.getD_some]
    unfold pastCodePoints
    omega
  have count : min (min digits.length mostCounted + 1) mostCounted =
      min (digits ++ [c]).length mostCounted := by
    rw [List.length_append, List.length_singleton]
    omega
  simp only [feed, known, Option.bind_some, feedCodePoint?, if_neg other, digit, Option.map_some,
    value_, count]

theorem codePoint_passes {s : StringScanner} {digits : List Char} {marks : List Mark}
    (known : s.phase = .codePoint (min (digitsValue 16 digits) pastCodePoints)
      (min digits.length mostCounted)) (all : HexDigits (marked marks)) :
    Passes s marks (s.setPhase (.codePoint (min (digitsValue 16 (digits ++ marked marks)) pastCodePoints)
      (min (digits ++ marked marks).length mostCounted))) := by
  induction marks generalizing s digits with
  | nil =>
    have same : s.setPhase (.codePoint (min (digitsValue 16 (digits ++ [])) pastCodePoints)
        (min (digits ++ []).length mostCounted)) = s := by
      rw [List.append_nil, ← known]
      rfl
    exact same ▸ .nil s
  | cons m marks ih =>
    obtain ⟨c, loc⟩ := m
    have fed := feed_codePoint_digit known (all c (by simp)) loc
    have known' : (s.setPhase (.codePoint (min (digitsValue 16 (digits ++ [c])) pastCodePoints)
        (min (digits ++ [c]).length mostCounted))).phase = _ := rfl
    have rest := ih known' fun d member => all d (by simp [member])
    rw [List.append_assoc] at rest
    exact .cons fed rest

/-! ### The escapes, one by one -/

/-- The scanner after the backslash of an escape at `loc`. -/
def escaped (quote : Char) (mode : Mode) (text : Utf16Text) (loc : Location) (fault : Option Location) :
    StringScanner := ⟨quote, mode, .escape, text, loc, fault⟩

/-- The scanner gets over these characters of an escape, and then it settles with this text and fault
before whatever comes next. -/
def Leaves (s : StringScanner) (marks : List Mark) (after : List Char) (quote : Char) (mode : Mode)
    (text : Utf16Text) (fault : Option Location) : Prop :=
  ∃ s', Passes s marks s' ∧ ∀ c, after.head? = some c → s'.Settles quote mode text fault c

theorem leaves_normal {s : StringScanner} {marks : List Mark} (start : Location)
    (passes : Passes s marks ⟨quote, mode, .normal, text, start, fault⟩) (after : List Char) :
    s.Leaves marks after quote mode text fault :=
  ⟨_, passes, fun c _ => settles_normal start c⟩

variable {marks : List Mark} {digits after : List Char}

theorem simple_leaves {letter c : Char} (listed : (letter, c) ∈ simpleEscapes)
    (same : marked marks = [letter]) :
    (escaped quote mode text loc fault).Leaves marks after quote mode
      ((utf16Units c.toNat).foldl Utf16Text.pushUnit text) fault := by
  obtain ⟨place, rfl⟩ := marked_eq_singleton same
  rw [← Utf16Text.pushChar_eq]
  refine leaves_normal loc (.one ?_) after
  simp only [simpleEscapes, List.mem_cons, Prod.mk.injEq, List.not_mem_nil, or_false] at listed
  rcases listed with ⟨rfl, rfl⟩ | ⟨rfl, rfl⟩ | ⟨rfl, rfl⟩ | ⟨rfl, rfl⟩ | ⟨rfl, rfl⟩ | ⟨rfl, rfl⟩ <;> rfl

theorem hex_leaves (all : HexDigits digits) (count : digits.length = 2)
    (same : marked marks = 'x' :: digits) :
    (escaped quote mode text loc fault).Leaves marks after quote mode
      ((utf16Units (digitsValue 16 digits)).foldl Utf16Text.pushUnit text) fault := by
  obtain ⟨place, marks, rfl, rfl⟩ := marked_eq_cons same
  have small := digitsValue_le all (by omega)
  rw [length_marked] at count
  rw [← Utf16Text.pushUnit_eq text (by omega)]
  have begun : (escaped quote mode text loc fault).feed (some 'x') place =
      (.proceed, ⟨quote, mode, .hex 2 0, text, loc, fault⟩) := rfl
  have some_ : marks ≠ [] := by
    rintro rfl
    cases count
  have phase : (⟨quote, mode, .hex 2 0, text, loc, fault⟩ : StringScanner).phase =
      .hex (2 - ([] : List Char).length) (digitsValue 16 []) := rfl
  have passes := hex_fixed.completes phase all (by simpa using count) some_
  exact leaves_normal loc (.cons begun passes) after

/-- The first of four digits tells them from braces. -/
theorem unicode_begins {c : Char} {value : Nat} (digit : hexValue? c = some value) (place place' : Location) :
    Passes (escaped quote mode text loc fault) [('u', place), (c, place')]
      ⟨quote, mode, .unicode (4 - [c].length) (digitsValue 16 [c]), text, loc, fault⟩ := by
  have other : some c ≠ some '{' := by
    rintro ⟨rfl⟩
    cases digit
  have one : digitsValue 16 [c] = value := by simp [digitsValue, digit]
  have fed : feed ⟨quote, mode, .unicodeStart, text, loc, fault⟩ (some c) place' =
      (.proceed, ⟨quote, mode, .unicode 3 value, text, loc, fault⟩) := by
    simp only [feed, if_neg other, Option.bind_some, digit]
    rfl
  rw [one]
  exact .cons rfl (.one fed)

theorem four_leaves (all : HexDigits digits) (count : digits.length = 4)
    (same : marked marks = 'u' :: digits) :
    (escaped quote mode text loc fault).Leaves marks after quote mode
      ((utf16Units (digitsValue 16 digits)).foldl Utf16Text.pushUnit text) fault := by
  obtain ⟨place, marks, rfl, rfl⟩ := marked_eq_cons same
  have small := digitsValue_le all (by omega)
  rw [length_marked] at count
  rw [← Utf16Text.pushUnit_eq text (by omega)]
  rcases marks with _ | ⟨⟨c, place'⟩, marks⟩
  · cases count
  rw [List.length_cons] at count
  obtain ⟨value, digit⟩ := isHexDigit_value (all c (by simp))
  have all' : HexDigits (marked marks) := fun d member => all d (by simp [member])
  have some_ : marks ≠ [] := by
    rintro rfl
    cases count
  have phase : (⟨quote, mode, .unicode (4 - [c].length) (digitsValue 16 [c]), text, loc, fault⟩ :
      StringScanner).phase = .unicode (4 - [c].length) (digitsValue 16 [c]) := rfl
  have passes := unicode_fixed.completes phase all' (by simp; omega) some_
  exact leaves_normal loc ((unicode_begins digit place place').append passes) after

/-- Up to the closing brace. -/
theorem braced_passes {place place' : Location} (all : HexDigits (marked marks)) :
    Passes (escaped quote mode text loc fault) (('u', place) :: ('{', place') :: marks)
      ⟨quote, mode, .codePoint (min (digitsValue 16 (marked marks)) pastCodePoints)
        (min (marked marks).length mostCounted), text, loc, fault⟩ := by
  have phase : (⟨quote, mode, .codePoint 0 0, text, loc, fault⟩ : StringScanner).phase =
      .codePoint (min (digitsValue 16 []) pastCodePoints) (min ([] : List Char).length mostCounted) := rfl
  exact .cons rfl (.cons rfl (codePoint_passes phase all))

theorem braced_leaves (all : HexDigits digits) (some_ : digits ≠ []) (inside : digitsValue 16 digits ≤ 0x10FFFF)
    (same : marked marks = 'u' :: '{' :: (digits ++ ['}'])) :
    (escaped quote mode text loc fault).Leaves marks after quote mode
      ((utf16Units (digitsValue 16 digits)).foldl Utf16Text.pushUnit text) fault := by
  obtain ⟨place, _, rfl, braced⟩ := marked_eq_cons same
  obtain ⟨place', _, rfl, closed⟩ := marked_eq_cons braced
  obtain ⟨marks, _, rfl, rfl, closing⟩ := marked_eq_append closed
  obtain ⟨place'', rfl⟩ := marked_eq_singleton closing
  rw [← Utf16Text.pushUnit_eq text inside]
  have value : min (digitsValue 16 (marked marks)) pastCodePoints = digitsValue 16 (marked marks) := by
    unfold pastCodePoints
    omega
  have count : min (marked marks).length mostCounted ≠ 0 := by
    have pos := List.length_pos_iff.2 some_
    unfold mostCounted
    omega
  have fed : feed ⟨quote, mode, .codePoint (min (digitsValue 16 (marked marks)) pastCodePoints)
      (min (marked marks).length mostCounted), text, loc, fault⟩ (some '}') place'' =
      (.proceed, ⟨quote, mode, .normal, text.pushUnit (digitsValue 16 (marked marks)), loc, fault⟩) := by
    have usable : ¬(min (marked marks).length mostCounted = 0 ∨
        pastCodePoints ≤ digitsValue 16 (marked marks)) := by
      unfold pastCodePoints
      omega
    simp only [feed, Option.bind_some, feedCodePoint?, if_true, value, if_neg usable]
    rfl
  exact leaves_normal loc ((braced_passes all).append (.one fed)) after

theorem zero_leaves (clear : ∀ c, after.head? = some c → isDecimalDigit c = false)
    (same : marked marks = ['0']) :
    (escaped quote .strict text loc fault).Leaves marks after quote .strict
      ((utf16Units 0).foldl Utf16Text.pushUnit text) fault := by
  obtain ⟨place, rfl⟩ := marked_eq_singleton same
  refine ⟨⟨quote, .strict, .strictZero, text, loc, fault⟩, .one rfl, ?_⟩
  intro c next
  refine ⟨loc, fun loc' => ?_⟩
  rw [show utf16Units 0 = utf16Units '\x00'.toNat from rfl, ← Utf16Text.pushChar_eq]
  simp only [feed, Option.any_some, clear c next]
  rfl

/-! ### Octal escapes -/

theorem octalValue?_eq {c : Char} (octal : isOctalDigit c = true) :
    octalValue? c = some (digitsValue 8 [c]) := by
  rw [octalValue?, if_pos octal, digitsValue_one, hexValue?_decimal (isDecimalDigit_of_octal octal),
    Option.getD_some]

/-- No letter that opens an escape is a digit. -/
theorem escaped_digit {c : Char} (digit : isDecimalDigit c = true) (place : Location) :
    (escaped quote mode text loc fault).feed (some c) place =
      (.proceed, (escaped quote mode text loc fault).escapeDigit c) := by
  have other (d : Char) (past : isDecimalDigit d = false) : c ≠ d := by
    rintro rfl
    rw [digit] at past
    cases past
  simp only [feed, escaped, feedEscape, if_neg (other '\n' (by decide)), if_neg (other 'x' (by decide)),
    if_neg (other 'u' (by decide)), digit, if_true]

theorem octal_begins {c : Char} (octal : isOctalDigit c = true) (place : Location) :
    (escaped quote .sloppy text loc fault).feed (some c) place =
      (.proceed, ⟨quote, .sloppy, .legacyOctal (digitsValue 8 [c]) 1 (mostOctalDigits (digitsValue 8 [c])),
        text, loc, fault⟩) := by
  rw [escaped_digit (isDecimalDigit_of_octal octal)]
  simp only [escapeDigit, escaped, octalValue?_eq octal]
  rfl

theorem octal_goes_on {c : Char} {value count most : Nat} (octal : isOctalDigit c = true)
    (more : count < most) (place : Location) :
    feed ⟨quote, mode, .legacyOctal value count most, text, loc, fault⟩ (some c) place =
      (.proceed, if count + 1 = most then
          ⟨quote, mode, .normal, text.pushUnit (value * 8 + digitsValue 8 [c]), loc, fault⟩
        else ⟨quote, mode, .legacyOctal (value * 8 + digitsValue 8 [c]) (count + 1) most, text, loc, fault⟩) := by
  simp only [feed, Option.bind_some, octalValue?_eq octal, if_pos more]
  rfl

theorem octal_settles {c : Char} {value count most : Nat} (other : isOctalDigit c = false) :
    Settles ⟨quote, mode, .legacyOctal value count most, text, loc, fault⟩ quote mode
      (text.pushUnit value) fault c := by
  have none_ : octalValue? c = none := by simp [octalValue?, other]
  refine ⟨loc, fun loc' => ?_⟩
  simp only [feed, Option.bind_some, none_]
  rfl

/-- After a small first digit there is room for three. -/
theorem octal_low {c d : Char} (first : isOctalDigit c = true) (second : isOctalDigit d = true)
    (low : digitsValue 8 [c] ≤ 3) (place place' : Location) :
    Passes (escaped quote .sloppy text loc fault) [(c, place), (d, place')]
      ⟨quote, .sloppy, .legacyOctal (digitsValue 8 [c, d]) 2 3, text, loc, fault⟩ := by
  have begun : (escaped quote .sloppy text loc fault).feed (some c) place = _ := octal_begins first place
  rw [mostOctalDigits, if_pos low] at begun
  rw [digitsValue_two]
  exact .cons begun (.one (octal_goes_on second (by decide) place'))

theorem octal_high {c d : Char} (first : isOctalDigit c = true) (second : isOctalDigit d = true)
    (high : ¬digitsValue 8 [c] ≤ 3) (place place' : Location) :
    Passes (escaped quote .sloppy text loc fault) [(c, place), (d, place')]
      ⟨quote, .sloppy, .normal, text.pushUnit (digitsValue 8 [c, d]), loc, fault⟩ := by
  have begun : (escaped quote .sloppy text loc fault).feed (some c) place = _ := octal_begins first place
  rw [mostOctalDigits, if_neg high] at begun
  rw [digitsValue_two]
  exact .cons begun (.one (octal_goes_on second (by decide) place'))

theorem octal_one_leaves {c : Char} (first : isOctalDigit c = true)
    (stops : ∀ d, after.head? = some d → isOctalDigit d = false) (place : Location) :
    (escaped quote .sloppy text loc fault).Leaves [(c, place)] after quote .sloppy
      (text.pushUnit (digitsValue 8 [c])) fault :=
  ⟨_, .one (octal_begins first place), fun d next => octal_settles (stops d next)⟩

/-- Two digits may leave room for a third. -/
theorem octal_two_leaves {c d : Char} (first : isOctalDigit c = true) (second : isOctalDigit d = true)
    (stops : digitsValue 8 [c] ≤ 3 → ∀ e, after.head? = some e → isOctalDigit e = false)
    (place place' : Location) :
    (escaped quote .sloppy text loc fault).Leaves [(c, place), (d, place')] after quote .sloppy
      (text.pushUnit (digitsValue 8 [c, d])) fault := by
  by_cases low : digitsValue 8 [c] ≤ 3
  · exact ⟨_, octal_low first second low place place', fun e next => octal_settles (stops low e next)⟩
  · exact leaves_normal loc (octal_high first second low place place') after

theorem octal_three_leaves {c d e : Char} (first : isOctalDigit c = true) (second : isOctalDigit d = true)
    (third : isOctalDigit e = true) (low : digitsValue 8 [c] ≤ 3) (place place' place'' : Location) :
    (escaped quote .sloppy text loc fault).Leaves [(c, place), (d, place'), (e, place'')] after quote .sloppy
      (text.pushUnit (digitsValue 8 [c, d, e])) fault := by
  have passes : Passes (escaped quote .sloppy text loc fault) _ _ :=
    octal_low first second low place place'
  have fed : feed ⟨quote, .sloppy, .legacyOctal (digitsValue 8 [c, d]) 2 3, text, loc, fault⟩ (some e)
      place'' = _ := octal_goes_on third (by decide) place''
  rw [← digitsValue_three] at fed
  exact leaves_normal loc (passes.append (.one fed)) after

/-- Where one more digit would always fit, none follows. -/
theorem octal_stops (longest : ∀ c, after.head? = some c → isOctalDigit c = true →
      digits.length = 3 ∨ 0o377 < digitsValue 8 (digits ++ [c]))
    (short : digits.length < 3) (fits : ∀ c, isOctalDigit c = true → digitsValue 8 (digits ++ [c]) ≤ 0o377)
    (c : Char) (next : after.head? = some c) : isOctalDigit c = false := by
  by_contra octal
  rw [Bool.not_eq_false] at octal
  have small := fits c octal
  rcases longest c next octal with three | large <;> omega

theorem octal_leaves (some_ : digits ≠ []) (all : ∀ c ∈ digits, isOctalDigit c = true)
    (count : digits.length ≤ 3) (small : digitsValue 8 digits ≤ 0o377)
    (longest : ∀ c, after.head? = some c → isOctalDigit c = true →
      digits.length = 3 ∨ 0o377 < digitsValue 8 (digits ++ [c])) (same : marked marks = digits) :
    (escaped quote .sloppy text loc fault).Leaves marks after quote .sloppy
      ((utf16Units (digitsValue 8 digits)).foldl Utf16Text.pushUnit text) fault := by
  rw [← Utf16Text.pushUnit_eq text (by omega)]
  rcases digits with _ | ⟨c, _ | ⟨d, _ | ⟨e, _ | ⟨f, digits⟩⟩⟩⟩
  · exact absurd rfl some_
  · obtain ⟨place, rfl⟩ := marked_eq_singleton same
    have first := all c (by simp)
    refine octal_one_leaves first (octal_stops longest (by simp) ?_) place
    intro d octal
    have two : digitsValue 8 [c, d] ≤ 63 := digitsValue_two_le first octal
    exact Nat.le_trans two (by decide)
  · obtain ⟨place, _, rfl, rest⟩ := marked_eq_cons same
    obtain ⟨place', rfl⟩ := marked_eq_singleton rest
    have second := all d (by simp)
    refine octal_two_leaves (all c (by simp)) second (fun low => octal_stops longest (by simp) ?_) place place'
    intro e octal
    have bound := digitsValue_one_le second
    have bound' := digitsValue_one_le octal
    change digitsValue 8 [c, d, e] ≤ 0o377
    rw [digitsValue_three, digitsValue_two]
    omega
  · obtain ⟨place, _, rfl, rest⟩ := marked_eq_cons same
    obtain ⟨place', _, rfl, rest'⟩ := marked_eq_cons rest
    obtain ⟨place'', rfl⟩ := marked_eq_singleton rest'
    have low : digitsValue 8 [c] ≤ 3 := by
      rw [digitsValue_three, digitsValue_two] at small
      omega
    exact octal_three_leaves (all c (by simp)) (all d (by simp)) (all e (by simp)) low place place' place''
  · simp only [List.length_cons] at count
    omega

/-! ### Other escapes -/

theorem itself_leaves {c : Char} (line : c ≠ '\n') (hex : c ≠ 'x') (unicode : c ≠ 'u')
    (plain : ∀ d, (c, d) ∉ simpleEscapes) (digit : opensNumber mode c = false)
    (same : marked marks = [c]) :
    (escaped quote mode text loc fault).Leaves marks after quote mode
      ((utf16Units c.toNat).foldl Utf16Text.pushUnit text) fault := by
  obtain ⟨place, rfl⟩ := marked_eq_singleton same
  rw [← Utf16Text.pushChar_eq]
  refine leaves_normal loc (.one ?_) after
  have none_ : controlEscape? c = none := by
    unfold controlEscape?
    split <;> first | rfl | simp [simpleEscapes] at plain
  simp only [feed, escaped, feedEscape, if_neg line, if_neg hex, if_neg unicode, none_,
    Option.getD_none]
  split
  · rename_i decimal
    cases mode with
    | strict => exact absurd decimal (by simpa [opensNumber] using digit)
    | sloppy =>
      have octal : octalValue? c = none := by simpa [octalValue?, opensNumber] using digit
      simp only [escapeDigit, octal]
      rfl
  · rfl

/-- A whole escape adds its code units. -/
theorem whole_leaves {units : List Nat} {escape : List Char} (whole : WholeEscape mode escape units after)
    (same : marked marks = escape) :
    (escaped quote mode text loc fault).Leaves marks after quote mode
      (units.foldl Utf16Text.pushUnit text) fault := by
  cases whole with
  | continuation =>
    obtain ⟨place, rfl⟩ := marked_eq_singleton same
    exact leaves_normal loc (.one rfl) after
  | simple listed => exact simple_leaves listed same
  | hex all count => exact hex_leaves all count same
  | unicode written inside =>
    cases written with
    | four all count => exact four_leaves all count same
    | braced all some_ => exact braced_leaves all some_ inside same
  | zero clear => exact zero_leaves clear same
  | octal some_ all count small longest => exact octal_leaves some_ all count small longest same
  | itself line hex unicode plain digit => exact itself_leaves line hex unicode plain digit same

/-! ### Broken escapes -/

theorem FixedDigits.settles (fixed : FixedDigits phase) {remaining value : Nat} {c : Char}
    (other : isHexDigit c = false) :
    Settles ⟨quote, mode, phase remaining value, text, loc, fault⟩ quote mode text (fault <|> some loc) c :=
  ⟨loc, fun loc' => fixed.other loc' rfl (hexValue?_none other)⟩

theorem brokenHex_leaves (all : HexDigits digits) (short : digits.length < 2)
    (stops : ∀ c, after.head? = some c → isHexDigit c = false) (same : marked marks = 'x' :: digits) :
    (escaped quote mode text loc fault).Leaves marks after quote mode text (fault <|> some loc) := by
  obtain ⟨place, marks, rfl, rfl⟩ := marked_eq_cons same
  rw [length_marked] at short
  have phase : (⟨quote, mode, .hex 2 0, text, loc, fault⟩ : StringScanner).phase =
      .hex (2 - ([] : List Char).length) (digitsValue 16 []) := rfl
  have passes := hex_fixed.passes phase all (by simpa using short)
  exact ⟨_, .cons rfl passes, fun c next => hex_fixed.settles (stops c next)⟩

theorem brokenUnicode_leaves (all : HexDigits digits) (short : digits.length < 4)
    (stops : ∀ c, after.head? = some c → isHexDigit c = false ∧ (digits = [] → c ≠ '{'))
    (same : marked marks = 'u' :: digits) :
    (escaped quote mode text loc fault).Leaves marks after quote mode text (fault <|> some loc) := by
  obtain ⟨place, marks, rfl, rfl⟩ := marked_eq_cons same
  rw [length_marked] at short
  rcases marks with _ | ⟨⟨c, place'⟩, marks⟩
  · refine ⟨⟨quote, mode, .unicodeStart, text, loc, fault⟩, .one rfl, ?_⟩
    intro c next
    obtain ⟨other, brace⟩ := stops c next
    have plain : some c ≠ some '{' := fun same => brace rfl (Option.some.inj same)
    refine ⟨loc, fun loc' => ?_⟩
    simp only [feed, if_neg plain, Option.bind_some, hexValue?_none other]
    rfl
  · rw [List.length_cons] at short
    obtain ⟨value, digit⟩ := isHexDigit_value (all c (by simp))
    have all' : HexDigits (marked marks) := fun d member => all d (by simp [member])
    have phase : (⟨quote, mode, .unicode (4 - [c].length) (digitsValue 16 [c]), text, loc, fault⟩ :
        StringScanner).phase = .unicode (4 - [c].length) (digitsValue 16 [c]) := rfl
    have passes := unicode_fixed.passes phase all' (by simp; omega)
    exact ⟨_, (unicode_begins digit place place').append passes,
      fun c next => unicode_fixed.settles (stops c next).1⟩

theorem unclosed_leaves (all : HexDigits digits)
    (stops : ∀ c, after.head? = some c → isHexDigit c = false ∧ c ≠ '}')
    (same : marked marks = 'u' :: '{' :: digits) :
    (escaped quote mode text loc fault).Leaves marks after quote mode text (fault <|> some loc) := by
  obtain ⟨place, _, rfl, rest⟩ := marked_eq_cons same
  obtain ⟨place', marks, rfl, rfl⟩ := marked_eq_cons rest
  refine ⟨_, braced_passes all, ?_⟩
  intro c next
  obtain ⟨other, brace⟩ := stops c next
  refine ⟨loc, fun loc' => ?_⟩
  simp only [feed, Option.bind_some, feedCodePoint?, if_neg brace, hexValue?_none other, Option.map_none]
  rfl

theorem brokenNumber_leaves (all : HexDigits digits) (unusable : digits = [] ∨ 0x10FFFF < digitsValue 16 digits)
    (same : marked marks = 'u' :: '{' :: (digits ++ ['}'])) :
    (escaped quote mode text loc fault).Leaves marks after quote mode text (fault <|> some loc) := by
  obtain ⟨place, _, rfl, braced⟩ := marked_eq_cons same
  obtain ⟨place', _, rfl, closed⟩ := marked_eq_cons braced
  obtain ⟨marks, _, rfl, rfl, closing⟩ := marked_eq_append closed
  obtain ⟨place'', rfl⟩ := marked_eq_singleton closing
  have bad : min (marked marks).length mostCounted = 0 ∨
      pastCodePoints ≤ min (digitsValue 16 (marked marks)) pastCodePoints := by
    rcases unusable with none_ | large
    · exact .inl (by simp [none_])
    · unfold pastCodePoints
      omega
  have fed : feed ⟨quote, mode, .codePoint (min (digitsValue 16 (marked marks)) pastCodePoints)
      (min (marked marks).length mostCounted), text, loc, fault⟩ (some '}') place'' =
      (.proceed, ⟨quote, mode, .normal, text, loc, fault <|> some loc⟩) := by
    simp only [feed, Option.bind_some, feedCodePoint?, if_true, if_pos bad]
    rfl
  exact leaves_normal loc ((braced_passes all).append (.one fed)) after

theorem brokenDigit_leaves {c : Char} (digit : isDecimalDigit c = true) (other : c ≠ '0')
    (same : marked marks = [c]) :
    (escaped quote .strict text loc fault).Leaves marks after quote .strict text (fault <|> some loc) := by
  obtain ⟨place, rfl⟩ := marked_eq_singleton same
  refine leaves_normal loc (.one ?_) after
  rw [escaped_digit digit]
  simp only [escapeDigit, escaped, if_neg other]
  rfl

theorem brokenZero_leaves {c : Char} (next : after.head? = some c) (digit : isDecimalDigit c = true)
    (same : marked marks = ['0']) :
    (escaped quote .strict text loc fault).Leaves marks after quote .strict text (fault <|> some loc) := by
  obtain ⟨place, rfl⟩ := marked_eq_singleton same
  refine ⟨⟨quote, .strict, .strictZero, text, loc, fault⟩, .one rfl, ?_⟩
  intro d next'
  obtain rfl := Option.some.inj (next.symm.trans next')
  refine ⟨loc, fun loc' => ?_⟩
  simp only [feed, Option.any_some, digit, if_true]
  rfl

/-- A broken escape adds nothing; if it is the first, its backslash is the fault. -/
theorem broken_leaves {escape : List Char} (broken : BrokenEscape mode escape after)
    (same : marked marks = escape) :
    (escaped quote mode text loc fault).Leaves marks after quote mode text (fault <|> some loc) := by
  cases broken with
  | hex all short stops => exact brokenHex_leaves all short stops same
  | unicode all short stops => exact brokenUnicode_leaves all short stops same
  | unclosed all stops => exact unclosed_leaves all stops same
  | number all unusable => exact brokenNumber_leaves all unusable same
  | digit digit other => exact brokenDigit_leaves digit other same
  | zero next digit => exact brokenZero_leaves next digit same

/-! ### Whole bodies -/

theorem feedNormal_char {c : Char} (line : c ≠ '\n') (s : StringScanner) (loc : Location) :
    s.feedNormal (some c) loc =
      if c = s.quote then (.closed, { s with text := s.text.settle })
      else if c = '\\' then (.proceed, { s with phase := .escape, escapeAt := loc })
      else (.proceed, s.plainChar c) := by
  unfold feedNormal
  split
  · contradiction
  · rename_i same
    exact absurd (Option.some.inj same) line
  · rename_i d _ same
    obtain rfl := Option.some.inj same
    rfl

theorem settles_plain {s : StringScanner} {c : Char} (settles : s.Settles quote mode text fault c)
    (inside : c ≠ quote) (plain : c ≠ '\\') (line : c ≠ '\n') (loc : Location) :
    ∃ start, s.feed (some c) loc =
      (.proceed, ⟨quote, mode, .normal, text.pushChar c, start, fault⟩) := by
  obtain ⟨start, fed⟩ := settles
  exact ⟨start, by rw [fed, feedNormal_char line, if_neg inside, if_neg plain]; rfl⟩

theorem settles_backslash {s : StringScanner} (settles : s.Settles quote mode text fault '\\')
    (quotes : quote ≠ '\\') (loc : Location) :
    s.feed (some '\\') loc = (.proceed, escaped quote mode text loc fault) := by
  obtain ⟨start, fed⟩ := settles
  rw [fed, feedNormal_char (by decide), if_neg quotes.symm, if_pos rfl]
  rfl

theorem settles_quote {s : StringScanner} (settles : s.Settles quote mode text fault quote)
    (line : quote ≠ '\n') (loc : Location) :
    ∃ start, s.feed (some quote) loc =
      (.closed, ⟨quote, mode, .normal, text.settle, start, fault⟩) := by
  obtain ⟨start, fed⟩ := settles
  exact ⟨start, by rw [fed, feedNormal_char line, if_pos rfl]⟩

theorem settles_line {s : StringScanner} (settles : s.Settles quote mode text fault '\n') (loc : Location) :
    ∃ s', s.feed (some '\n') loc = (.unterminated, s') := by
  obtain ⟨start, fed⟩ := settles
  exact ⟨_, fed loc⟩

end StringScanner

/-- The backslash of the first broken piece, among the marks of the pieces. -/
def firstFault : List StringPiece → List Mark → Option Location
  | [], _ => none
  | piece :: pieces, marks =>
    if piece.isBroken then marks.head?.map Prod.snd
    else firstFault pieces (marks.drop piece.source.length)

namespace StringScanner

variable {quote : Char} {mode : Mode} {text : Utf16Text} {fault : Option Location} {marks : List Mark}
  {after : List Char} {pieces : List StringPiece}

theorem body_leaves (body : Body mode quote after pieces) (quotes : quote ≠ '\\') {s : StringScanner}
    (same : marked marks = bodySource pieces)
    (settles : ∀ c, (bodySource pieces ++ after).head? = some c → s.Settles quote mode text fault c) :
    s.Leaves marks after quote mode ((pieces.flatMap StringPiece.units).foldl Utf16Text.pushUnit text)
      (fault <|> firstFault pieces marks) := by
  -- On the pieces from the left; each hands its text and fault on to the next.
  induction body generalizing s marks text fault with
  | nil =>
    obtain rfl := List.map_eq_nil_iff.1 same
    have known : (fault <|> firstFault [] []) = fault := by cases fault <;> rfl
    rw [marked_nil] at *
    rw [known]
    exact ⟨s, .nil s, settles⟩
  | @raw c pieces inside plain line body ih =>
    obtain ⟨loc, marks, rfl, rest⟩ := marked_eq_cons same
    obtain ⟨start, fed⟩ := settles_plain (settles c rfl) inside plain line loc
    obtain ⟨s', passes, settles'⟩ := ih rest fun d _ => settles_normal start d
    refine ⟨s', .cons fed passes, ?_⟩
    rw [Utf16Text.pushChar_eq] at settles'
    rw [List.flatMap_cons, List.foldl_append]
    exact settles'
  | @escape escape units pieces whole body ih =>
    obtain ⟨loc, _, rfl, rest⟩ := marked_eq_cons same
    obtain ⟨front, marks, rfl, spelled, rest'⟩ := marked_eq_append rest
    obtain ⟨s₁, first, settles₁⟩ := whole_leaves whole spelled
    obtain ⟨s', passes, settles'⟩ := ih rest' settles₁
    refine ⟨s', .cons (settles_backslash (settles _ rfl) quotes loc) (first.append passes), ?_⟩
    have skipped : (('\\', loc) :: (front ++ marks)).drop (('\\' :: escape).length) = marks := by
      rw [List.length_cons, List.drop_succ_cons, ← spelled, length_marked, List.drop_left]
    rw [List.flatMap_cons, List.foldl_append, firstFault]
    simp only [StringPiece.isBroken, StringPiece.source, skipped]
    exact settles'
  | @broken escape pieces broken body ih =>
    obtain ⟨loc, _, rfl, rest⟩ := marked_eq_cons same
    obtain ⟨front, marks, rfl, spelled, rest'⟩ := marked_eq_append rest
    obtain ⟨s₁, first, settles₁⟩ := broken_leaves broken spelled
    obtain ⟨s', passes, settles'⟩ := ih rest' settles₁
    refine ⟨s', .cons (settles_backslash (settles _ rfl) quotes loc) (first.append passes), ?_⟩
    have known : ((fault <|> some loc) <|> firstFault pieces marks) = (fault <|> some loc) := by
      cases fault <;> rfl
    rw [known] at settles'
    exact settles'

end StringScanner

/-! ### Runs -/

open StringScanner

variable {σ : Type} [CharSource σ] {source source' : σ} {s s' : StringScanner} {marks : List Mark}
  {mode : Mode} {quote : Char} {pieces : List StringPiece}

theorem run_passes (passes : Passes s marks s') (handed : HandsOut source marks source') :
    stringRecognizer.run s source = stringRecognizer.run s' source' := by
  induction passes generalizing source with
  | nil s =>
    cases handed
    rfl
  | @cons s s₁ s' c loc marks fed _ ih =>
    cases handed with
    | @cons _ source₁ _ _ _ answered rest =>
      have stepped : stringRecognizer.step s c (CharSource.here source₁) = .more s₁ := by
        simp only [stringRecognizer, fed]
      rw [Recognizer.run_char answered, Recognizer.resume_more stepped]
      exact ih rest

/-- A literal that is closed, read from behind its opening quote to behind its closing one. -/
structure ClosedLiteral (mode : Mode) (quote : Char) (source : σ) (pieces : List StringPiece)
    (marks : List Mark) (source' : σ) : Prop where
  body : Body mode quote [quote] pieces
  spelled : marked marks = bodySource pieces
  handed : ∃ loc, HandsOut source (marks ++ [(quote, loc)]) source'

/-- What a literal answers that is closed behind these pieces. -/
def closedOutcome (pieces : List StringPiece) (marks : List Mark) : StringOutcome :=
  match firstFault pieces marks with
  | none => .literal (bodyValue pieces)
  | some loc => .malformedEscape loc

/-- The scanner that has read the opening quote settles before anything. -/
theorem start_leaves {after : List Char} (body : Body mode quote after pieces) (quotes : quote ≠ '\\')
    (spelled : marked marks = bodySource pieces) :
    (StringScanner.start quote mode).Leaves marks after quote mode
      ((pieces.flatMap StringPiece.units).foldl Utf16Text.pushUnit {}) (firstFault pieces marks) :=
  body_leaves body quotes spelled fun c _ => settles_normal ⟨0, 0⟩ c

theorem ClosedLiteral.run (closed : ClosedLiteral mode quote source pieces marks source')
    (quotes : quote = '\x22' ∨ quote = '\x27') :
    stringRecognizer.run (.start quote mode) source = (.ok (closedOutcome pieces marks), source') := by
  have plain : quote ≠ '\\' ∧ quote ≠ '\n' := by rcases quotes with rfl | rfl <;> decide
  obtain ⟨loc, handed⟩ := closed.handed
  obtain ⟨source₁, inside, last⟩ := handed.split
  obtain ⟨s', passes, settles⟩ := start_leaves closed.body plain.1 closed.spelled
  rw [run_passes passes inside]
  cases last with
  | cons answered rest =>
    cases rest
    obtain ⟨start, fed⟩ := settles_quote (settles quote rfl) plain.2 (CharSource.here source')
    have stepped : stringRecognizer.step s' quote (CharSource.here source') =
        .stop [] (closedOutcome pieces marks) := by
      simp only [stringRecognizer, fed, outcome, finish, closedOutcome, bodyValue,
        ← Utf16Text.toList_pushUnits]
      cases firstFault pieces marks <;> rfl
    rw [Recognizer.run_char answered]
    exact Recognizer.resume_stop stepped

/-- At the end of what the source hands out, a result can only be that the literal is unterminated. -/
theorem run_last {result : StringOutcome} (last : ∀ c s'', CharSource.next false source ≠ (.ok (some c), s''))
    (answered : stringRecognizer.run s source = (.ok result, source')) : result = .unterminated := by
  rcases taken : CharSource.next false source with ⟨cause | _ | c, s''⟩
  · rw [Recognizer.run_error taken] at answered
    cases answered
  · rw [Recognizer.run_end taken] at answered
    cases answered
    rfl
  · exact absurd taken (last c s'')

/-- Where a scanner has settled, the answer is unterminated unless the quote comes next. -/
theorem run_unclosed {after : List Mark} {text : Utf16Text} {fault : Option Location}
    {result : StringOutcome} (settles : ∀ c, (marked after).head? = some c → s.Settles quote mode text fault c)
    (quotes : quote = '\x22' ∨ quote = '\x27') (handed : HandsOut source after source')
    (last : ∀ c s'', CharSource.next false source' ≠ (.ok (some c), s''))
    (ends : marked after = [] ∨ marked after = ['\\'] ∨ ∃ rest, marked after = '\n' :: rest)
    {source'' : σ} (answered : stringRecognizer.run s source = (.ok result, source'')) :
    result = .unterminated := by
  have plain : quote ≠ '\\' := by rcases quotes with rfl | rfl <;> decide
  rcases ends with none_ | backslash | ⟨rest, line⟩
  · obtain rfl := List.map_eq_nil_iff.1 none_
    cases handed
    exact run_last last answered
  · obtain ⟨place, rfl⟩ := marked_eq_singleton backslash
    have fed := settles_backslash (settles _ rfl) plain place
    rw [run_passes (.one fed) handed] at answered
    exact run_last last answered
  · obtain ⟨place, _, rfl, _⟩ := marked_eq_cons line
    cases handed with
    | @cons _ source₁ _ _ _ taken _ =>
      obtain ⟨s₁, fed⟩ := settles_line (settles _ rfl) (CharSource.here source₁)
      have stepped : stringRecognizer.step s '\n' (CharSource.here source₁) = .stop ['\n'] .unterminated := by
        simp only [stringRecognizer, fed]
      rw [Recognizer.run_char taken, Recognizer.resume_stop stepped] at answered
      cases answered
      rfl

/-- Only closed literals are answered with a value or a broken escape. -/
theorem exists_closedLiteral {result : StringOutcome} (quotes : quote = '\x22' ∨ quote = '\x27')
    (answered : stringRecognizer.run (.start quote mode) source = (.ok result, source'))
    (terminated : result ≠ .unterminated) :
    ∃ pieces marks, ClosedLiteral mode quote source pieces marks source' := by
  have plain : quote ≠ '\\' := by rcases quotes with rfl | rfl <;> decide
  obtain ⟨all, last, handed, none_⟩ := exists_handsOut source
  obtain ⟨pieces, stop, same, body, ends⟩ := exists_body mode quote (marked all)
  obtain ⟨marks, after, rfl, spelled, rfl⟩ := marked_eq_append same
  obtain ⟨source₁, inside, rest⟩ := handed.split
  by_cases closes : ∃ loc after', after = (quote, loc) :: after'
  · obtain ⟨loc, after', rfl⟩ := closes
    obtain ⟨source₂, closing, _⟩ := HandsOut.split (show HandsOut source₁ ([(quote, loc)] ++ after') last from rest)
    have closed : ClosedLiteral mode quote source pieces marks source₂ :=
      ⟨body.congr rfl, spelled, loc, inside.append closing⟩
    have answered' := closed.run quotes
    rw [answered] at answered'
    cases answered'
    exact ⟨pieces, marks, closed⟩
  · obtain ⟨s', passes, settles⟩ := start_leaves body plain spelled
    rw [run_passes passes inside] at answered
    refine absurd (run_unclosed settles quotes rest none_ ?_ answered) terminated
    rcases ends with none_ | backslash | ⟨c, text, same, rfl | rfl⟩
    · exact .inl none_
    · exact .inr (.inl backslash)
    · obtain ⟨loc, after', rfl, _⟩ := marked_eq_cons same
      exact absurd ⟨loc, after', rfl⟩ closes
    · exact .inr (.inr ⟨text, same⟩)

end EcmaLex
