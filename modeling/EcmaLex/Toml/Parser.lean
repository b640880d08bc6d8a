/-!
Parsers of a beginning of a text. One that fails takes nothing, so that another can be tried in its
place.
-/
namespace EcmaLex.Toml

/-- Answers the value and the rest of the text. -/
abbrev Parser := StateT (List Char) Option

namespace Parser

variable {α : Type}

def satisfy (p : Char → Bool) : Parser Char := fun
  | c :: rest => if p c then some (c, rest) else none
  | [] => none

def char (c : Char) : Parser Unit := discard (satisfy (· == c))

def word (cs : List Char) : Parser Unit := cs.forM char

/-- The longest run of characters that satisfy `p`. -/
def span (p : Char → Bool) : Parser (List Char) := fun text =>
  some (text.takeWhile p, text.dropWhile p)

def atEnd : Parser Unit := fun text => if text.isEmpty then some ((), []) else none

/-- Takes nothing, and fails at the end of the text. -/
def notAtEnd : Parser Unit := fun text => if text.isEmpty then none else some ((), text)

/-- Repeats a parser as long as it matches, but no more than `most` times. -/
def upTo (p : Parser α) : (most : Nat) → List Char → List α × List Char
  | 0, text => ([], text)
  | most + 1, text =>
    match p text with
    | some (a, rest) =>
      let (others, last) := upTo p most rest
      (a :: others, last)
    | none => ([], text)

/-- Repeats a parser that takes something whenever it matches. No text allows more repetitions than
it has characters. -/
def many (p : Parser α) : Parser (List α) := fun text => some (upTo p text.length text)

def count (n : Nat) (p : Parser α) : Parser (List α) := (List.replicate n p).mapM id

def sepBy₁ (p : Parser α) (separator : Parser Unit) : Parser (List α) := do
  let first ← p
  return first :: (← many (separator *> p))

def sepBy (p : Parser α) (separator : Parser Unit) : Parser (List α) :=
  sepBy₁ p separator <|> pure []

end Parser
end EcmaLex.Toml
