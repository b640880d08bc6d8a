import EcmaLex.Keyword
import EcmaLex.Recognizer
import EcmaLex.Text.IdentifierClass

/-!
Identifiers, which may contain `\u` escapes. A word written with an escape is always a name. A broken
escape, or one whose character may not stand at its place, makes the word malformed; the rest of the
word goes with it. The rest stays where it is only after a number that is no character.
-/
namespace EcmaLex
open Text

inductive IdentifierOutcome where
  | name (text : List Char)
  | word (w : ReservedWord)
  /-- The backslash of the first bad escape. -/
  | malformedEscape (loc : Location)
  deriving DecidableEq, Repr

variable [Library]

namespace IdentifierRecognizer

/-- The name read so far, newest character first. -/
structure Name where
  chars : List Char := []
  escaped : Bool := false
  deriving DecidableEq, Repr

/-- An escape being read: the name before it and the place of its backslash. -/
structure Escape where
  before : Name
  loc : Location
  deriving DecidableEq, Repr

inductive State where
  | plain (name : Name)
  | backslash (e : Escape)
  /-- After `\u`. -/
  | marked (e : Escape)
  /-- After some of four digits. -/
  | fourDigits (e : Escape) (remaining value : Nat)
  /-- Inside braces. The digits are counted in 32 bits with a sign. -/
  | braced (e : Escape) (value : Nat) (digits : Int32)
  /-- Passing over the rest of a malformed word. -/
  | tail (loc : Location)
  deriving DecidableEq, Repr

/-- A number just past the last code point. -/
def pastCodePoints : Nat := 0x110000

def Name.admits (n : Name) (c : Char) : Bool :=
  if n.chars.isEmpty then isIdentifierStart c else isIdentifierPart c

def Name.push (n : Name) (c : Char) : Name := { n with chars := c :: n.chars }

def Name.outcome (mode : Mode) (n : Name) : IdentifierOutcome :=
  let text := n.chars.reverse
  match if n.escaped then none else reservedWord? (String.ofList text) mode with
  | some w => .word w
  | none => .name text

def stepTail (loc : Location) (c : Char) : Move State IdentifierOutcome :=
  if isWordTail c then .more (.tail loc) else .stop [c] (.malformedEscape loc)

def Escape.complete (e : Escape) (value : Nat) : Move State IdentifierOutcome :=
  match scalar? value with
  | none => .stop [] (.malformedEscape e.loc)
  | some c =>
    if e.before.admits c then .more (.plain { e.before.push c with escaped := true })
    else .more (.tail e.loc)

def stepPlain (mode : Mode) (n : Name) (c : Char) (loc : Location) :
    Move State IdentifierOutcome :=
  if c = '\\' then .more (.backslash ⟨n, loc⟩)
  else if n.admits c then .more (.plain (n.push c))
  else .stop [c] (n.outcome mode)

def stepDigit (e : Escape) (remaining value : Nat) (c : Char) : Move State IdentifierOutcome :=
  match hexValue? c with
  | none => stepTail e.loc c
  | some digit =>
    let value := value * 16 + digit
    if remaining = 1 then e.complete value else .more (.fourDigits e (remaining - 1) value)

def stepBraced (e : Escape) (value : Nat) (digits : Int32) (c : Char) :
    Move State IdentifierOutcome :=
  if c = '}' ∧ 0 < digits then e.complete value
  else
    match hexValue? c with
    | none => stepTail e.loc c
    | some digit => .more (.braced e (min (value * 16 + digit) pastCodePoints) (digits + 1))

def step (mode : Mode) : State → Char → Location → Move State IdentifierOutcome
  | .plain n, c, loc => stepPlain mode n c loc
  | .backslash e, c, _ => if c = 'u' then .more (.marked e) else stepTail e.loc c
  | .marked e, c, _ => if c = '{' then .more (.braced e 0 0) else stepDigit e 4 0 c
  | .fourDigits e remaining value, c, _ => stepDigit e remaining value c
  | .braced e value digits, c, _ => stepBraced e value digits c
  | .tail loc, c, _ => stepTail loc c

def atEnd (mode : Mode) : State → IdentifierOutcome
  | .plain n => n.outcome mode
  | .backslash e | .marked e | .fourDigits e _ _ | .braced e _ _ => .malformedEscape e.loc
  | .tail loc => .malformedEscape loc

end IdentifierRecognizer

/-- Reads a word; its first character, an identifier start or a backslash, is the first one stepped. -/
def identifierRecognizer (mode : Mode) :
    Recognizer IdentifierRecognizer.State IdentifierOutcome where
  step := IdentifierRecognizer.step mode
  atEnd state := ([], IdentifierRecognizer.atEnd mode state)

namespace IdentifierRecognizer

def start : State := .plain {}

variable {mode : Mode} {c : Char} {back : List Char} {result : IdentifierOutcome}

theorem stepTail_stop {loc : Location} (stepped : stepTail loc c = .stop back result) :
    back = [c] ∧ .malformedEscape loc = result := by
  unfold stepTail at stepped
  split at stepped <;> cases stepped
  exact ⟨rfl, rfl⟩

theorem complete_stop {e : Escape} {value : Nat} (stepped : e.complete value = .stop back result) :
    back = [] ∧ .malformedEscape e.loc = result := by
  unfold Escape.complete at stepped
  split at stepped
  · cases stepped
    exact ⟨rfl, rfl⟩
  · split at stepped <;> cases stepped

theorem stepDigit_stop {e : Escape} {remaining value : Nat}
    (stepped : stepDigit e remaining value c = .stop back result) :
    (back = [] ∨ back = [c]) ∧ .malformedEscape e.loc = result := by
  unfold stepDigit at stepped
  split at stepped
  · exact (stepTail_stop stepped).imp_left .inr
  · split at stepped
    · exact (complete_stop stepped).imp_left .inl
    · cases stepped

theorem stepBraced_stop {e : Escape} {value : Nat} {digits : Int32}
    (stepped : stepBraced e value digits c = .stop back result) :
    (back = [] ∨ back = [c]) ∧ .malformedEscape e.loc = result := by
  unfold stepBraced at stepped
  split at stepped
  · exact (complete_stop stepped).imp_left .inl
  · split at stepped
    · exact (stepTail_stop stepped).imp_left .inr
    · cases stepped

theorem stepPlain_stop {n : Name} {loc : Location}
    (stepped : stepPlain mode n c loc = .stop back result) :
    back = [c] ∧ n.outcome mode = result ∧
      ∀ mode', stepPlain mode' n c loc = .stop [c] (n.outcome mode') := by
  unfold stepPlain at stepped ⊢
  split at stepped
  · cases stepped
  · rename_i plain
    split at stepped
    · cases stepped
    · rename_i other
      cases stepped
      exact ⟨rfl, rfl, fun _ => by rw [if_neg plain, if_neg other]⟩

/-- A word ends before a character that is no part of it, or at an escape. -/
theorem step_stop {state : State} {loc : Location} (stepped : step mode state c loc = .stop back result) :
    (∃ n, state = .plain n ∧ stepPlain mode n c loc = .stop back result) ∨
      (back = [] ∨ back = [c]) ∧ ∃ place, .malformedEscape place = result ∧
        ∀ mode', step mode' state c loc = .stop back result ∧ atEnd mode' state = result := by
  cases state with
  | plain n => exact .inl ⟨n, rfl, stepped⟩
  | backslash e =>
    have broken : stepTail e.loc c = .stop back result := by
      simp only [step] at stepped
      split at stepped
      · cases stepped
      · exact stepped
    obtain ⟨backs, rfl⟩ := stepTail_stop broken
    exact .inr ⟨.inr backs, e.loc, rfl, fun _ => ⟨stepped, rfl⟩⟩
  | marked e =>
    have broken : stepDigit e 4 0 c = .stop back result := by
      simp only [step] at stepped
      split at stepped
      · cases stepped
      · exact stepped
    obtain ⟨backs, rfl⟩ := stepDigit_stop broken
    exact .inr ⟨backs, e.loc, rfl, fun _ => ⟨stepped, rfl⟩⟩
  | fourDigits e remaining value =>
    obtain ⟨backs, rfl⟩ := stepDigit_stop stepped
    exact .inr ⟨backs, e.loc, rfl, fun _ => ⟨stepped, rfl⟩⟩
  | braced e value digits =>
    obtain ⟨backs, rfl⟩ := stepBraced_stop stepped
    exact .inr ⟨backs, e.loc, rfl, fun _ => ⟨stepped, rfl⟩⟩
  | tail place =>
    obtain ⟨backs, rfl⟩ := stepTail_stop stepped
    exact .inr ⟨.inr backs, place, rfl, fun _ => ⟨stepped, rfl⟩⟩

theorem step_back {state : State} {loc : Location} (stepped : step mode state c loc = .stop back result) :
    back.length ≤ 1 := by
  rcases step_stop stepped with ⟨n, _, plain⟩ | ⟨rfl | rfl, _⟩
  · simp [(stepPlain_stop plain).1]
  · exact Nat.zero_le 1
  · exact Nat.le_refl 1

/-- A character that may begin a word is part of it. -/
theorem step_start (mode : Mode) (loc : Location) (begins : c = '\\' ∨ isIdentifierStart c = true) :
    ∃ state, (identifierRecognizer mode).step start c loc = .more state := by
  by_cases backslash : c = '\\'
  · exact ⟨.backslash ⟨{}, loc⟩, if_pos backslash⟩
  · have admitted : (Name.admits {} c) = true := begins.resolve_left backslash
    exact ⟨.plain (Name.push {} c), (if_neg backslash).trans (if_pos admitted)⟩

end IdentifierRecognizer

theorem remaining_identifierRecognizer {σ : Type} [CharSource σ] (mode : Mode)
    (state : IdentifierRecognizer.State) (s : σ) :
    CharSource.remaining ((identifierRecognizer mode).run state s).2 ≤ CharSource.remaining s :=
  Recognizer.remaining_run (identifierRecognizer mode) (fun _ => 0)
    (by simp) (fun stepped => IdentifierRecognizer.step_back stepped)
    (by simp [identifierRecognizer]) state s

/-- A character that may begin a word is not given back. -/
theorem remaining_resume_identifier {σ : Type} [CharSource σ] {mode : Mode} {c : Char} (s : σ)
    (begins : c = '\\' ∨ isIdentifierStart c = true) :
    CharSource.remaining ((identifierRecognizer mode).resume IdentifierRecognizer.start c s).2 ≤
      CharSource.remaining s := by
  obtain ⟨state, stepped⟩ := IdentifierRecognizer.step_start mode (CharSource.here s) begins
  rw [Recognizer.resume, stepped]
  exact remaining_identifierRecognizer mode state s

end EcmaLex
