import EcmaLex.Recognizer

/-!
Punctuators, matched longest first: a punctuator is extended as long as the next character makes a
longer one. Only `...` and `?.` look further, the first because `..` is no punctuator and the second
because `?.5` is a conditional.
-/
namespace EcmaLex
open Text

inductive Punctuator where
  | leftParen | rightParen | leftBrace | rightBrace | leftBracket | rightBracket
  | semicolon | comma | colon | dot | ellipsis | question | optionalChain | arrow
  | bitOr | bitXor | bitAnd | bitNot | or | and | nullish | not
  | shiftLeft | shiftRight | shiftRightUnsigned
  | add | sub | mul | div | mod | exp | increment | decrement
  | eq | ne | strictEq | strictNe | less | lessEq | greater | greaterEq
  | assign | assignBitOr | assignBitXor | assignBitAnd
  | assignShiftLeft | assignShiftRight | assignShiftRightUnsigned
  | assignAdd | assignSub | assignMul | assignDiv | assignMod | assignExp
  | assignAnd | assignOr | assignNullish
  deriving DecidableEq, Repr

namespace Punctuator

def spelling : Punctuator → String
  | leftParen => "("
  | rightParen => ")"
  | leftBrace => "\x7b"
  | rightBrace => "\x7d"
  | leftBracket => "["
  | rightBracket => "]"
  | semicolon => ";"
  | comma => ","
  | colon => ":"
  | dot => "."
  | ellipsis => "..."
  | question => "?"
  | optionalChain => "?."
  | arrow => "=>"
  | bitOr => "|"
  | bitXor => "^"
  | bitAnd => "&"
  | bitNot => "~"
  | or => "||"
  | and => "&&"
  | nullish => "??"
  | not => "!"
  | shiftLeft => "<<"
  | shiftRight => ">>"
  | shiftRightUnsigned => ">>>"
  | add => "+"
  | sub => "-"
  | mul => "*"
  | div => "/"
  | mod => "%"
  | exp => "**"
  | increment => "++"
  | decrement => "--"
  | eq => "=="
  | ne => "!="
  | strictEq => "==="
  | strictNe => "!=="
  | less => "<"
  | lessEq => "<="
  | greater => ">"
  | greaterEq => ">="
  | assign => "="
  | assignBitOr => "|="
  | assignBitXor => "^="
  | assignBitAnd => "&="
  | assignShiftLeft => "<<="
  | assignShiftRight => ">>="
  | assignShiftRightUnsigned => ">>>="
  | assignAdd => "+="
  | assignSub => "-="
  | assignMul => "*="
  | assignDiv => "/="
  | assignMod => "%="
  | assignExp => "**="
  | assignAnd => "&&="
  | assignOr => "||="
  | assignNullish => "??="

/-- The name of the token. -/
def label : Punctuator → String
  | leftParen => "LeftParen"
  | rightParen => "RightParen"
  | leftBrace => "LeftBrace"
  | rightBrace => "RightBrace"
  | leftBracket => "LeftBracket"
  | rightBracket => "RightBracket"
  | semicolon => "Semicolon"
  | comma => "Comma"
  | colon => "Colon"
  | dot => "Dot"
  | ellipsis => "Ellipsis"
  | question => "Question"
  | optionalChain => "OptionalChain"
  | arrow => "Arrow"
  | bitOr => "BitOr"
  | bitXor => "BitXor"
  | bitAnd => "BitAnd"
  | bitNot => "BitNot"
  | or => "Or"
  | and => "And"
  | nullish => "Nullish"
  | not => "Not"
  | shiftLeft => "Lsh"
  | shiftRight => "Rsh"
  | shiftRightUnsigned => "Ursh"
  | add => "Add"
  | sub => "Sub"
  | mul => "Mul"
  | div => "Div"
  | mod => "Mod"
  | exp => "Exp"
  | increment => "Inc"
  | decrement => "Dec"
  | eq => "Eq"
  | ne => "Ne"
  | strictEq => "StrictEq"
  | strictNe => "StrictNe"
  | less => "Lt"
  | lessEq => "Le"
  | greater => "Gt"
  | greaterEq => "Ge"
  | assign => "Assign"
  | assignBitOr => "AssignBitOr"
  | assignBitXor => "AssignBitXor"
  | assignBitAnd => "AssignBitAnd"
  | assignShiftLeft => "AssignLsh"
  | assignShiftRight => "AssignRsh"
  | assignShiftRightUnsigned => "AssignUrsh"
  | assignAdd => "AssignAdd"
  | assignSub => "AssignSub"
  | assignMul => "AssignMul"
  | assignDiv => "AssignDiv"
  | assignMod => "AssignMod"
  | assignExp => "AssignExp"
  | assignAnd => "AssignAnd"
  | assignOr => "AssignOr"
  | assignNullish => "AssignNullish"

/-- The punctuator of one character. -/
def single? : Char → Option Punctuator
  | '(' => some leftParen
  | ')' => some rightParen
  | '{' => some leftBrace
  | '}' => some rightBrace
  | '[' => some leftBracket
  | ']' => some rightBracket
  | ';' => some semicolon
  | ',' => some comma
  | ':' => some colon
  | '.' => some dot
  | '?' => some question
  | '~' => some bitNot
  | '!' => some not
  | '=' => some assign
  | '<' => some less
  | '>' => some greater
  | '+' => some add
  | '-' => some sub
  | '*' => some mul
  | '/' => some div
  | '%' => some mod
  | '&' => some bitAnd
  | '|' => some bitOr
  | '^' => some bitXor
  | _ => none

/-- The punctuator that one more character makes. -/
def extend? : Punctuator → Char → Option Punctuator
  | not, '=' => some ne
  | ne, '=' => some strictNe
  | assign, '=' => some eq
  | assign, '>' => some arrow
  | eq, '=' => some strictEq
  | less, '<' => some shiftLeft
  | less, '=' => some lessEq
  | shiftLeft, '=' => some assignShiftLeft
  | greater, '>' => some shiftRight
  | greater, '=' => some greaterEq
  | shiftRight, '>' => some shiftRightUnsigned
  | shiftRight, '=' => some assignShiftRight
  | shiftRightUnsigned, '=' => some assignShiftRightUnsigned
  | add, '+' => some increment
  | add, '=' => some assignAdd
  | sub, '-' => some decrement
  | sub, '=' => some assignSub
  | mul, '*' => some exp
  | mul, '=' => some assignMul
  | exp, '=' => some assignExp
  | div, '=' => some assignDiv
  | mod, '=' => some assignMod
  | bitAnd, '&' => some and
  | bitAnd, '=' => some assignBitAnd
  | and, '=' => some assignAnd
  | bitOr, '|' => some or
  | bitOr, '=' => some assignBitOr
  | or, '=' => some assignOr
  | bitXor, '=' => some assignBitXor
  | question, '?' => some nullish
  | question, '.' => some optionalChain
  | nullish, '=' => some assignNullish
  | _, _ => none

theorem spelling_single? {c : Char} {p : Punctuator} (found : single? c = some p) :
    p.spelling.toList = [c] := by
  unfold single? at found
  split at found <;> cases found <;> rfl

theorem spelling_extend? {p q : Punctuator} {c : Char} (found : p.extend? c = some q) :
    q.spelling.toList = p.spelling.toList ++ [c] := by
  unfold extend? at found
  split at found <;> cases found <;> rfl

inductive State where
  | whole (p : Punctuator)
  /-- Two points, which only a third one makes a punctuator. -/
  | twoDots
  deriving DecidableEq, Repr

def step : State → Char → Move State Punctuator
  | .whole p, c =>
    match p.extend? c with
    | some longer => .more (.whole longer)
    | none =>
      if p = dot ∧ c = '.' then .more .twoDots
      else if p = optionalChain ∧ isDecimalDigit c then .stop [c, '.'] question
      else .stop [c] p
  | .twoDots, c => if c = '.' then .stop [] ellipsis else .stop [c, '.'] dot

def atEnd : State → List Char × Punctuator
  | .whole p => ([], p)
  | .twoDots => (['.'], dot)

end Punctuator

/-- Extends a punctuator whose first character has been taken. -/
def punctuatorRecognizer : Recognizer Punctuator.State Punctuator where
  step state c _ := Punctuator.step state c
  atEnd := Punctuator.atEnd

namespace Punctuator

/-- How much of a state may still be given back. -/
def State.held : State → Nat
  | .whole p => if p = optionalChain then 1 else 0
  | .twoDots => 1

theorem single?_ne_optionalChain {c : Char} {p : Punctuator} (found : single? c = some p) :
    p ≠ optionalChain := by
  rintro rfl
  have one : 2 = 1 := congrArg List.length (spelling_single? found)
  exact absurd one (by decide)

theorem held_le_one (state : State) : state.held ≤ 1 := by
  cases state with
  | whole p =>
    simp only [State.held]
    split <;> decide
  | twoDots => exact Nat.le_refl 1

theorem back_le_held {state : State} {c : Char} {back : List Char} {result : Punctuator}
    (stepped : step state c = .stop back result) : back.length ≤ state.held + 1 := by
  cases state with
  | whole p =>
    simp only [step] at stepped
    split at stepped
    · cases stepped
    · split at stepped
      · cases stepped
      · split at stepped <;> cases stepped
        · rename_i chain
          simp [State.held, chain.1]
        · simp
  | twoDots =>
    simp only [step] at stepped
    split at stepped <;> cases stepped <;> simp [State.held]

theorem atEnd_le_held (state : State) : (atEnd state).1.length ≤ state.held := by
  cases state <;> simp [atEnd, State.held]

theorem remaining_run {σ : Type} [CharSource σ] (state : State) (s : σ) :
    CharSource.remaining (punctuatorRecognizer.run state s).2 ≤
      CharSource.remaining s + state.held :=
  Recognizer.remaining_run punctuatorRecognizer State.held
    (fun _ => Nat.le_add_left_of_le (held_le_one _)) (fun stepped => back_le_held stepped)
    atEnd_le_held state s

end Punctuator

section
open CharSource

variable {σ : Type} [CharSource σ]

/-- The longest punctuator that begins with a character already taken; `none` if there is none, and
then nothing more is taken. -/
def scanPunctuator (first : Char) (s : σ) : Except ReadFailure (Option Punctuator) × σ :=
  match Punctuator.single? first with
  | none => (.ok none, s)
  | some p =>
    let answer := punctuatorRecognizer.run (.whole p) s
    (answer.1.map some, answer.2)

theorem remaining_scanPunctuator (first : Char) (s : σ) :
    remaining (scanPunctuator first s).2 ≤ remaining s := by
  unfold scanPunctuator
  split
  · exact Nat.le_refl _
  · rename_i p found
    have := Punctuator.remaining_run (.whole p) s
    simpa [Punctuator.State.held, Punctuator.single?_ne_optionalChain found] using this

end
end EcmaLex
