import EcmaLex.Proofs.Grammar.Escapes
import EcmaLex.Proofs.Text.Utf16Units

/-!
The body of a string literal as a grammar. From left to right it is cut into raw characters, escapes with
the code units they stand for, and broken escapes, each of which ends before the character that breaks
it. Every text has such a cut up to where the literal ends (`exists_body`).
-/
namespace EcmaLex
open Text

/-- The letters that stand for a control character after a backslash. -/
def simpleEscapes : List (Char × Char) :=
  [('b', '\x08'), ('f', '\x0c'), ('n', '\n'), ('r', '\r'), ('t', '\t'), ('v', '\x0b')]

/-- The digits that may begin an escape of their own. -/
def opensNumber (mode : Mode) (c : Char) : Bool :=
  match mode with
  | .strict => isDecimalDigit c
  | .sloppy => isOctalDigit c

/-- The text of an escape after its backslash, its code units, and what may follow. -/
inductive WholeEscape : Mode → List Char → List Nat → List Char → Prop
  | continuation {mode after} : WholeEscape mode ['\n'] [] after
  | simple {mode after letter c} : (letter, c) ∈ simpleEscapes →
      WholeEscape mode [letter] (utf16Units c.toNat) after
  | hex {mode after digits} : HexDigits digits → digits.length = 2 →
      WholeEscape mode ('x' :: digits) (utf16Units (digitsValue 16 digits)) after
  | unicode {mode after number n} : WrittenNumber number n → n ≤ 0x10FFFF →
      WholeEscape mode ('u' :: number) (utf16Units n) after
  | zero {after} : (∀ c, after.head? = some c → isDecimalDigit c = false) →
      WholeEscape .strict ['0'] (utf16Units 0) after
  /-- As many digits as there are, up to three and up to 255. -/
  | octal {after digits} : digits ≠ [] → (∀ c ∈ digits, isOctalDigit c = true) → digits.length ≤ 3 →
      digitsValue 8 digits ≤ 0o377 →
      (∀ c, after.head? = some c → isOctalDigit c = true →
        digits.length = 3 ∨ 0o377 < digitsValue 8 (digits ++ [c])) →
      WholeEscape .sloppy digits (utf16Units (digitsValue 8 digits)) after
  /-- Any other character stands for itself. -/
  | itself {mode after c} : c ≠ '\n' → c ≠ 'x' → c ≠ 'u' → (∀ d, (c, d) ∉ simpleEscapes) →
      opensNumber mode c = false → WholeEscape mode [c] (utf16Units c.toNat) after

/-- The text of a broken escape after its backslash, and what follows. -/
inductive BrokenEscape : Mode → List Char → List Char → Prop
  | hex {mode after digits} : HexDigits digits → digits.length < 2 →
      (∀ c, after.head? = some c → isHexDigit c = false) → BrokenEscape mode ('x' :: digits) after
  | unicode {mode after digits} : HexDigits digits → digits.length < 4 →
      (∀ c, after.head? = some c → isHexDigit c = false ∧ (digits = [] → c ≠ '{')) →
      BrokenEscape mode ('u' :: digits) after
  | unclosed {mode after digits} : HexDigits digits →
      (∀ c, after.head? = some c → isHexDigit c = false ∧ c ≠ '}') →
      BrokenEscape mode ('u' :: '{' :: digits) after
  /-- Braces around nothing, or around a number past the last code point. -/
  | number {mode after digits} : HexDigits digits → (digits = [] ∨ 0x10FFFF < digitsValue 16 digits) →
      BrokenEscape mode ('u' :: '{' :: (digits ++ ['}'])) after
  | digit {after c} : isDecimalDigit c = true → c ≠ '0' → BrokenEscape .strict [c] after
  | zero {after c} : after.head? = some c → isDecimalDigit c = true → BrokenEscape .strict ['0'] after

inductive StringPiece where
  | raw (c : Char)
  | escape (text : List Char) (units : List Nat)
  | broken (text : List Char)

namespace StringPiece

def source : StringPiece → List Char
  | raw c => [c]
  | escape text _ => '\\' :: text
  | broken text => '\\' :: text

def units : StringPiece → List Nat
  | raw c => utf16Units c.toNat
  | escape _ units => units
  | broken _ => []

def isBroken : StringPiece → Bool
  | broken _ => true
  | _ => false

end StringPiece

/-- The text of these pieces. -/
def bodySource (pieces : List StringPiece) : List Char := pieces.flatMap StringPiece.source

/-- What these pieces stand for. -/
def bodyValue (pieces : List StringPiece) : List Char := utf16Lossy (pieces.flatMap StringPiece.units)

/-- The pieces of a body that this text follows. -/
inductive Body (mode : Mode) (quote : Char) (after : List Char) : List StringPiece → Prop
  | nil : Body mode quote after []
  | raw {c pieces} : c ≠ quote → c ≠ '\\' → c ≠ '\n' → Body mode quote after pieces →
      Body mode quote after (.raw c :: pieces)
  | escape {text units pieces} : WholeEscape mode text units (bodySource pieces ++ after) →
      Body mode quote after pieces → Body mode quote after (.escape text units :: pieces)
  | broken {text pieces} : BrokenEscape mode text (bodySource pieces ++ after) →
      Body mode quote after pieces → Body mode quote after (.broken text :: pieces)

variable {mode : Mode} {quote : Char} {c : Char} {text after : List Char}

theorem WholeEscape.congr {units : List Nat} {after' : List Char} (whole : WholeEscape mode text units after)
    (same : after.head? = after'.head?) : WholeEscape mode text units after' := by
  cases whole with
  | continuation => exact .continuation
  | simple listed => exact .simple listed
  | hex all count => exact .hex all count
  | unicode written inside => exact .unicode written inside
  | zero clear => exact .zero (same ▸ clear)
  | octal some_ all count small longest => exact .octal some_ all count small (same ▸ longest)
  | itself line hex unicode plain digit => exact .itself line hex unicode plain digit

theorem BrokenEscape.congr {after' : List Char} (broken : BrokenEscape mode text after)
    (same : after.head? = after'.head?) : BrokenEscape mode text after' := by
  cases broken with
  | hex all short stops => exact .hex all short (same ▸ stops)
  | unicode all short stops => exact .unicode all short (same ▸ stops)
  | unclosed all stops => exact .unclosed all (same ▸ stops)
  | number all unusable => exact .number all unusable
  | digit digit other => exact .digit digit other
  | zero next digit => exact .zero (same ▸ next) digit

theorem Body.congr {pieces : List StringPiece} {after' : List Char} (body : Body mode quote after pieces)
    (same : after.head? = after'.head?) : Body mode quote after' pieces := by
  induction body with
  | nil => exact .nil
  | raw inside plain line _ ih => exact .raw inside plain line ih
  | escape whole _ ih => exact .escape (whole.congr (by simp only [List.head?_append, same])) ih
  | broken broken _ ih => exact .broken (broken.congr (by simp only [List.head?_append, same])) ih

/-- Up to `n` digits that a text begins with. -/
theorem exists_digits (n : Nat) (text : List Char) :
    ∃ digits after, text = digits ++ after ∧ HexDigits digits ∧
      (digits.length = n ∨ digits.length < n ∧ ∀ c, after.head? = some c → isHexDigit c = false) := by
  induction n generalizing text with
  | zero => exact ⟨[], text, rfl, .nil, .inl rfl⟩
  | succ n ih =>
    rcases text with _ | ⟨c, text⟩
    · exact ⟨[], [], rfl, .nil, .inr ⟨by simp, by simp⟩⟩
    by_cases digit : isHexDigit c = true
    · obtain ⟨digits, after, rfl, all, count⟩ := ih text
      refine ⟨c :: digits, after, rfl, List.forall_mem_cons.2 ⟨digit, all⟩, ?_⟩
      simpa using count
    · refine ⟨[], c :: text, rfl, .nil, .inr ⟨by simp, ?_⟩⟩
      rintro d ⟨rfl⟩
      exact eq_false_of_ne_true digit

/-- All digits that a text begins with. -/
theorem exists_allDigits (text : List Char) :
    ∃ digits after, text = digits ++ after ∧ HexDigits digits ∧
      ∀ c, after.head? = some c → isHexDigit c = false := by
  obtain ⟨digits, after, rfl, all, count | ⟨_, stop⟩⟩ := exists_digits (text.length + 1) text
  · rw [List.length_append] at count
    omega
  · exact ⟨digits, after, rfl, all, stop⟩

theorem hexValue?_lt {digit : Nat} (value : hexValue? c = some digit) : digit < 16 := by
  unfold hexValue? at value
  split at value
  · rename_i decimal
    have high : c.toNat ≤ '9'.toNat := decimal.2
    have offset : '9'.toNat = '0'.toNat + 9 := rfl
    cases value
    omega
  · split at value
    · rename_i lower
      have high : c.toNat ≤ 'f'.toNat := lower.2
      have offset : 'f'.toNat = 'a'.toNat + 5 := rfl
      cases value
      omega
    · split at value
      · rename_i upper
        have high : c.toNat ≤ 'F'.toNat := upper.2
        have offset : 'F'.toNat = 'A'.toNat + 5 := rfl
        cases value
        omega
      · cases value

theorem digitsValue_lt {digits : List Char} (all : HexDigits digits) :
    digitsValue 16 digits < Nat.pow 16 digits.length := by
  induction digits using List.reverseRecOn with
  | nil => simp [digitsValue]
  | append_singleton digits c ih =>
    obtain ⟨digit, value⟩ := Option.isSome_iff_exists.1 (all c (by simp))
    have before := ih fun d member => all d (by simp [member])
    have small := hexValue?_lt value
    have power : Nat.pow 16 (digits.length + 1) = Nat.pow 16 digits.length * 16 := rfl
    rw [digitsValue_push, value, Option.getD_some, List.length_append, List.length_singleton, power]
    omega

theorem digitsValue_le {digits : List Char} (all : HexDigits digits) (few : digits.length ≤ 4) :
    digitsValue 16 digits ≤ 0xFFFF := by
  have most : Nat.pow 16 digits.length ≤ Nat.pow 16 4 := Nat.pow_le_pow_right (by decide) few
  exact Nat.le_of_lt_succ (Nat.lt_of_lt_of_le (digitsValue_lt all) most)

theorem isDecimalDigit_of_octal (octal : isOctalDigit c = true) : isDecimalDigit c = true := by
  simp only [isOctalDigit, isDecimalDigit, Bool.and_eq_true, decide_eq_true_eq] at octal ⊢
  exact ⟨octal.1, Char.le_trans octal.2 (by decide)⟩

theorem hexValue?_decimal (digit : isDecimalDigit c = true) : hexValue? c = some (c.toNat - '0'.toNat) := by
  simp only [isDecimalDigit, Bool.and_eq_true, decide_eq_true_eq] at digit
  rw [hexValue?, if_pos digit]

theorem octalDigit_le (octal : isOctalDigit c = true) : (hexValue? c).getD 0 ≤ 7 := by
  rw [hexValue?_decimal (isDecimalDigit_of_octal octal), Option.getD_some]
  simp only [isOctalDigit, Bool.and_eq_true, decide_eq_true_eq] at octal
  have high : c.toNat ≤ '7'.toNat := octal.2
  exact Nat.sub_le_sub_right high '0'.toNat

theorem digitsValue_one (c : Char) : digitsValue 8 [c] = (hexValue? c).getD 0 := by simp [digitsValue]

theorem digitsValue_two (c d : Char) : digitsValue 8 [c, d] = digitsValue 8 [c] * 8 + digitsValue 8 [d] := by
  rw [digitsValue_one d]
  exact digitsValue_push 8 [c] d

theorem digitsValue_three (c d e : Char) :
    digitsValue 8 [c, d, e] = digitsValue 8 [c, d] * 8 + digitsValue 8 [e] := by
  rw [digitsValue_one e]
  exact digitsValue_push 8 [c, d] e

theorem digitsValue_one_le (octal : isOctalDigit c = true) : digitsValue 8 [c] ≤ 7 := by
  rw [digitsValue_one]
  exact octalDigit_le octal

theorem digitsValue_two_le {d : Char} (first : isOctalDigit c = true) (second : isOctalDigit d = true) :
    digitsValue 8 [c, d] ≤ 63 := by
  have bound := digitsValue_one_le first
  have bound' := digitsValue_one_le second
  rw [digitsValue_two]
  omega

/-- The longest octal escape. -/
theorem exists_octal (first : isOctalDigit c = true) (text : List Char) :
    ∃ more after, text = more ++ after ∧
      WholeEscape .sloppy (c :: more) (utf16Units (digitsValue 8 (c :: more))) after := by
  have one := digitsValue_one_le first
  by_cases second : ∃ d text', text = d :: text' ∧ isOctalDigit d = true
  · obtain ⟨d, text, rfl, octal⟩ := second
    have two := digitsValue_two_le first octal
    by_cases third : ∃ e text', text = e :: text' ∧ isOctalDigit e = true ∧ digitsValue 8 [c, d, e] ≤ 0o377
    · obtain ⟨e, text, rfl, octal', small⟩ := third
      exact ⟨[d, e], text, rfl, .octal (by simp) (by simp [first, octal, octal']) (by simp) small
        fun _ _ _ => .inl rfl⟩
    · refine ⟨[d], text, rfl, .octal (by simp) (by simp [first, octal]) (by simp) (by omega) ?_⟩
      intro e next octal'
      obtain ⟨text, rfl⟩ := List.head?_eq_some_iff.1 next
      exact .inr (Nat.lt_of_not_le fun small => third ⟨e, text, rfl, octal', small⟩)
  · refine ⟨[], text, rfl, .octal (by simp) (by simp [first]) (by simp) (by omega) ?_⟩
    intro d next octal
    obtain ⟨text, rfl⟩ := List.head?_eq_some_iff.1 next
    exact absurd ⟨d, text, rfl, octal⟩ second

theorem exists_hexEscape (mode : Mode) (text : List Char) :
    ∃ digits after, text = digits ++ after ∧
      ((∃ units, WholeEscape mode ('x' :: digits) units after) ∨
        BrokenEscape mode ('x' :: digits) after) := by
  obtain ⟨digits, after, rfl, all, count | ⟨short, stop⟩⟩ := exists_digits 2 text
  · exact ⟨digits, after, rfl, .inl ⟨_, .hex all count⟩⟩
  · exact ⟨digits, after, rfl, .inr (.hex all short stop)⟩

theorem exists_bracedEscape (mode : Mode) (text : List Char) :
    ∃ tail after, text = tail ++ after ∧
      ((∃ units, WholeEscape mode ('u' :: '{' :: tail) units after) ∨
        BrokenEscape mode ('u' :: '{' :: tail) after) := by
  obtain ⟨digits, after, rfl, all, stop⟩ := exists_allDigits text
  by_cases closed : ∃ after', after = '}' :: after'
  · obtain ⟨after, rfl⟩ := closed
    refine ⟨digits ++ ['}'], after, by simp, ?_⟩
    by_cases inside : digits ≠ [] ∧ digitsValue 16 digits ≤ 0x10FFFF
    · exact .inl ⟨_, .unicode (.braced all inside.1) inside.2⟩
    · refine .inr (.number all ?_)
      rw [not_and_or, not_not, Nat.not_le] at inside
      exact inside
  · refine ⟨digits, after, rfl, .inr (.unclosed all ?_)⟩
    intro c next
    refine ⟨stop c next, ?_⟩
    rintro rfl
    obtain ⟨after', same⟩ := List.head?_eq_some_iff.1 next
    exact closed ⟨after', same⟩

theorem exists_unicodeEscape (mode : Mode) (text : List Char) :
    ∃ tail after, text = tail ++ after ∧
      ((∃ units, WholeEscape mode ('u' :: tail) units after) ∨
        BrokenEscape mode ('u' :: tail) after) := by
  by_cases brace : ∃ text', text = '{' :: text'
  · obtain ⟨text, rfl⟩ := brace
    obtain ⟨tail, after, rfl, cut⟩ := exists_bracedEscape mode text
    exact ⟨'{' :: tail, after, rfl, cut⟩
  · obtain ⟨digits, after, rfl, all, count | ⟨short, stop⟩⟩ := exists_digits 4 text
    · have value : digitsValue 16 digits ≤ 0x10FFFF := by
        have bound := digitsValue_le all (by omega)
        omega
      exact ⟨digits, after, rfl, .inl ⟨_, .unicode (.four all count) value⟩⟩
    · refine ⟨digits, after, rfl, .inr (.unicode all short ?_)⟩
      intro c next
      refine ⟨stop c next, ?_⟩
      rintro rfl rfl
      obtain ⟨after', same⟩ := List.head?_eq_some_iff.1 next
      exact brace ⟨after', same⟩

theorem exists_strictDigit (digit : isDecimalDigit c = true) (text : List Char) :
    (∃ units, WholeEscape .strict [c] units text) ∨ BrokenEscape .strict [c] text := by
  by_cases zero : c = '0'
  · subst zero
    by_cases followed : ∃ d, text.head? = some d ∧ isDecimalDigit d = true
    · obtain ⟨d, next, decimal⟩ := followed
      exact .inr (.zero next decimal)
    · refine .inl ⟨_, .zero ?_⟩
      intro d next
      exact eq_false_of_ne_true fun decimal => followed ⟨d, next, decimal⟩
  · exact .inr (.digit digit zero)

/-- An escape is whole or broken. -/
theorem exists_escape (mode : Mode) (c : Char) (text : List Char) :
    ∃ tail after, text = tail ++ after ∧
      ((∃ units, WholeEscape mode (c :: tail) units after) ∨ BrokenEscape mode (c :: tail) after) := by
  by_cases continuation : c = '\n'
  · subst continuation
    exact ⟨[], text, rfl, .inl ⟨_, .continuation⟩⟩
  by_cases hex : c = 'x'
  · subst hex
    exact exists_hexEscape mode text
  by_cases unicode : c = 'u'
  · subst unicode
    exact exists_unicodeEscape mode text
  by_cases simple : ∃ d, (c, d) ∈ simpleEscapes
  · obtain ⟨d, listed⟩ := simple
    exact ⟨[], text, rfl, .inl ⟨_, .simple listed⟩⟩
  by_cases number : opensNumber mode c = true
  · cases mode with
    | strict => exact ⟨[], text, rfl, exists_strictDigit number text⟩
    | sloppy =>
      obtain ⟨more, after, rfl, whole⟩ := exists_octal number text
      exact ⟨more, after, rfl, .inl ⟨_, whole⟩⟩
  · exact ⟨[], text, rfl, .inl ⟨_, .itself continuation hex unicode (not_exists.1 simple)
      (eq_false_of_ne_true number)⟩⟩

/-- Where a body ends: at its quote, at a line break, or at the end of the text, perhaps right after a
backslash. -/
def EndsBody (quote : Char) (stop : List Char) : Prop :=
  stop = [] ∨ stop = ['\\'] ∨ ∃ c rest, stop = c :: rest ∧ (c = quote ∨ c = '\n')

theorem exists_body (mode : Mode) (quote : Char) (text : List Char) :
    ∃ pieces stop, text = bodySource pieces ++ stop ∧ Body mode quote stop pieces ∧
      EndsBody quote stop := by
  -- On the length of the text: an escape takes a backslash and more.
  induction size : text.length using Nat.strongRecOn generalizing text with
  | ind n ih =>
    subst size
    rcases text with _ | ⟨c, text⟩
    · exact ⟨[], [], rfl, .nil, .inl rfl⟩
    by_cases ends : c = quote ∨ c = '\n'
    · exact ⟨[], c :: text, rfl, .nil, .inr (.inr ⟨c, text, rfl, ends⟩)⟩
    rw [not_or] at ends
    by_cases escape : c = '\\'
    · subst escape
      rcases text with _ | ⟨d, text⟩
      · exact ⟨[], ['\\'], rfl, .nil, .inr (.inl rfl)⟩
      obtain ⟨tail, after, rfl, cut⟩ := exists_escape mode d text
      obtain ⟨pieces, stop, rfl, body, stops⟩ := ih after.length (by simp; omega) after rfl
      rcases cut with ⟨units, whole⟩ | broken
      · exact ⟨.escape (d :: tail) units :: pieces, stop, by simp [bodySource, StringPiece.source],
          .escape whole body, stops⟩
      · exact ⟨.broken (d :: tail) :: pieces, stop, by simp [bodySource, StringPiece.source],
          .broken broken body, stops⟩
    · obtain ⟨pieces, stop, rfl, body, stops⟩ := ih text.length (by simp) text rfl
      exact ⟨.raw c :: pieces, stop, rfl, .raw ends.1 escape ends.2 body, stops⟩

end EcmaLex
