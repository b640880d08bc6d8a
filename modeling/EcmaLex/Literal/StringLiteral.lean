import EcmaLex.Mode
import EcmaLex.Recognizer
import EcmaLex.Text.Utf16

/-!
String literals. A scanner decodes the body one character at a time. A broken escape does not end the
literal: the first one is remembered, and the character that broke it is read as plain text.
-/
namespace EcmaLex
open Text

inductive StringPhase where
  | normal
  /-- After a backslash. -/
  | escape
  | hex (remaining value : Nat)
  /-- After `\u`. -/
  | unicodeStart
  | unicode (remaining value : Nat)
  /-- Inside the braces of `\u`. -/
  | codePoint (value digits : Nat)
  | legacyOctal (value digits most : Nat)
  /-- After `\0` in strict code, where no digit may follow. -/
  | strictZero
  deriving DecidableEq, Repr

/-- What became of a character. -/
inductive StringStep where
  | proceed
  | closed
  /-- The end of input or a bare line terminator, which is not part of the literal. -/
  | unterminated
  deriving DecidableEq, Repr

structure StringScanner where
  quote : Char
  mode : Mode
  phase : StringPhase := .normal
  text : Utf16Text := {}
  /-- The backslash of the escape read last. -/
  escapeAt : Location := ⟨0, 0⟩
  /-- The backslash of the first broken escape. -/
  fault : Option Location := none
  deriving DecidableEq, Repr

inductive StringOutcome where
  | literal (value : List Char)
  | malformedEscape (loc : Location)
  | unterminated
  deriving DecidableEq, Repr

namespace StringScanner

def start (quote : Char) (mode : Mode) : StringScanner := { quote, mode }

/-- A number just past the last code point. -/
def pastCodePoints : Nat := 0x110000

/-- The count of digits inside braces stops here; only whether there are any matters. -/
def mostCounted : Nat := 255

def fail (s : StringScanner) : StringScanner :=
  { s with fault := s.fault <|> some s.escapeAt }

def setPhase (s : StringScanner) (phase : StringPhase) : StringScanner := { s with phase }

def plainChar (s : StringScanner) (c : Char) : StringScanner :=
  { s with phase := .normal, text := s.text.pushChar c }

def plainUnit (s : StringScanner) (unit : Nat) : StringScanner :=
  { s with phase := .normal, text := s.text.pushUnit unit }

def octalValue? (c : Char) : Option Nat :=
  if isOctalDigit c then some (c.toNat - '0'.toNat) else none

def feedNormal (s : StringScanner) (c : Option Char) (loc : Location) : StringStep × StringScanner :=
  match c with
  | none => (.unterminated, s)
  | some '\n' => (.unterminated, s)
  | some c =>
    if c = s.quote then (.closed, { s with text := s.text.settle })
    else if c = '\\' then (.proceed, { s with phase := .escape, escapeAt := loc })
    else (.proceed, s.plainChar c)

/-- The character that breaks an escape is read as plain text. -/
def breakEscape (s : StringScanner) (c : Option Char) (loc : Location) :
    StringStep × StringScanner :=
  (s.fail.setPhase .normal).feedNormal c loc

/-- The control character that a letter stands for after a backslash. -/
def controlEscape? : Char → Option Char
  | 'b' => some '\x08'
  | 'f' => some '\x0c'
  | 'n' => some '\n'
  | 'r' => some '\r'
  | 't' => some '\t'
  | 'v' => some '\x0b'
  | _ => none

/-- The digits of a legacy octal escape stay below 256. -/
def mostOctalDigits (first : Nat) : Nat := if first ≤ 3 then 3 else 2

def escapeDigit (s : StringScanner) (c : Char) : StringScanner :=
  match s.mode with
  | .strict =>
    if c = '0' then s.setPhase .strictZero else (s.setPhase .normal).fail
  | .sloppy =>
    match octalValue? c with
    | some value => s.setPhase (.legacyOctal value 1 (mostOctalDigits value))
    | none => s.plainChar c

def feedEscape (s : StringScanner) (c : Char) : StringScanner :=
  if c = '\n' then s.setPhase .normal
  else if c = 'x' then s.setPhase (.hex 2 0)
  else if c = 'u' then s.setPhase .unicodeStart
  else if isDecimalDigit c then s.escapeDigit c
  else s.plainChar ((controlEscape? c).getD c)

/-- A character inside braces; `none` if it breaks the escape. -/
def feedCodePoint? (s : StringScanner) (value digits : Nat) (c : Char) : Option StringScanner :=
  if c = '}' then
    if digits = 0 ∨ pastCodePoints ≤ value then some (s.fail.setPhase .normal)
    else some (s.plainUnit value)
  else
    (hexValue? c).map fun digit =>
      s.setPhase
        (.codePoint (min (value * 16 + digit) pastCodePoints) (min (digits + 1) mostCounted))

def feed (s : StringScanner) (c : Option Char) (loc : Location) : StringStep × StringScanner :=
  match s.phase with
  | .normal => s.feedNormal c loc
  | .escape =>
    match c with
    | none => (.unterminated, s)
    | some c => (.proceed, s.feedEscape c)
  | .hex remaining value =>
    match c.bind hexValue? with
    | none => s.breakEscape c loc
    | some digit =>
      let value := value * 16 + digit
      (.proceed,
        if remaining = 1 then s.plainUnit value else s.setPhase (.hex (remaining - 1) value))
  | .unicodeStart =>
    if c = some '{' then (.proceed, s.setPhase (.codePoint 0 0))
    else
      match c.bind hexValue? with
      | none => s.breakEscape c loc
      | some digit => (.proceed, s.setPhase (.unicode 3 digit))
  | .unicode remaining value =>
    match c.bind hexValue? with
    | none => s.breakEscape c loc
    | some digit =>
      let value := value * 16 + digit
      (.proceed,
        if remaining = 1 then s.plainUnit value else s.setPhase (.unicode (remaining - 1) value))
  | .codePoint value digits =>
    match c.bind (s.feedCodePoint? value digits) with
    | none => s.breakEscape c loc
    | some s => (.proceed, s)
  | .legacyOctal value digits most =>
    match c.bind octalValue? with
    | some digit =>
      if digits < most then
        let value := value * 8 + digit
        (.proceed,
          if digits + 1 = most then s.plainUnit value
          else s.setPhase (.legacyOctal value (digits + 1) most))
      else (s.plainUnit value).feedNormal c loc
    | none => (s.plainUnit value).feedNormal c loc
  | .strictZero =>
    if c.any isDecimalDigit then (s.fail.setPhase .normal).feedNormal c loc
    else (s.plainChar '\x00').feedNormal c loc

/-- The decoded text, or the first broken escape. -/
def finish (s : StringScanner) : Except Location (List Char) :=
  match s.fault with
  | some loc => .error loc
  | none => .ok s.text.toList

def outcome (s : StringScanner) : StringOutcome :=
  match s.finish with
  | .ok value => .literal value
  | .error loc => .malformedEscape loc

theorem outcome_ne_unterminated (s : StringScanner) : s.outcome ≠ .unterminated := by
  unfold outcome
  split <;> simp

end StringScanner

/-- Reads a literal whose opening quote has been taken. -/
def stringRecognizer : Recognizer StringScanner StringOutcome where
  step s c loc :=
    match s.feed (some c) loc with
    | (.proceed, s) => .more s
    | (.closed, s) => .stop [] s.outcome
    | (.unterminated, _) => .stop [c] .unterminated
  atEnd _ := ([], .unterminated)

theorem remaining_stringRecognizer {σ : Type} [CharSource σ] (scanner : StringScanner) (s : σ) :
    CharSource.remaining (stringRecognizer.run scanner s).2 ≤ CharSource.remaining s := by
  refine Recognizer.remaining_run stringRecognizer (fun _ => 0) ?_ ?_ ?_ scanner s
  · simp
  · intro scanner c loc back result stepped
    simp only [stringRecognizer] at stepped
    split at stepped <;> cases stepped <;> simp
  · simp [stringRecognizer]

end EcmaLex
