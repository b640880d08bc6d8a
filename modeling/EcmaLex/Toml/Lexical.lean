import EcmaLex.Number.Binary64
import EcmaLex.Number.Radix
import EcmaLex.Toml.Parser

/-! The words of TOML: space between them, strings, keys, numbers, dates and times. -/
namespace EcmaLex.Toml
open EcmaLex.Toml.Parser Text

def isBlank (c : Char) : Bool := c == ' ' || c == '\t'

/-- Tab and all characters but the ASCII controls. -/
def isPrintable (c : Char) : Bool := c == '\t' || (0x20 ≤ c.toNat && c.toNat != 0x7F)

def blank : Parser Unit := discard (span isBlank)

def newline : Parser Unit := char '\n' <|> (char '\r' *> char '\n')

def comment : Parser Unit := char '#' *> discard (span isPrintable)

/-- What may follow the last word of a line. -/
def lineEnd : Parser Unit := blank *> discard (optional comment) *> (newline <|> atEnd)

/-- Space over any number of lines. -/
def gap : Parser Unit :=
  discard (many (discard (satisfy isBlank) <|> newline <|> (comment *> newline)))

/-- The scalar value of a given number of hexadecimal digits. -/
def codePoint (width : Nat) : Parser Char := do
  match scalar? (digitsValue 16 (← count width (satisfy isHexDigit))) with
  | some c => return c
  | none => failure

def escape : Parser Char := do
  char '\\'
  match ← satisfy fun _ => true with
  | 'b' => return '\x08'
  | 't' => return '\t'
  | 'n' => return '\n'
  | 'f' => return '\x0c'
  | 'r' => return '\r'
  | '"' => return '"'
  | '\\' => return '\\'
  | 'u' => codePoint 4
  | 'U' => codePoint 8
  | _ => failure

def isBasic (c : Char) : Bool := isPrintable c && c != '"' && c != '\\'

def isLiteral (c : Char) : Bool := isPrintable c && c != '\''

def basicString : Parser String := do
  char '"'
  let content ← many (satisfy isBasic <|> escape)
  char '"'
  return String.ofList content

def literalString : Parser String := do
  char '\''
  let content ← span isLiteral
  char '\''
  return String.ofList content

/-- One or two quotes in the text of a multi-line string. -/
def looseQuotes (quote : Char) : Parser (List Char) := do
  let run ← span (· == quote)
  if run.length = 1 ∨ run.length = 2 then return run else failure

/-- A text between three quotes, without a line end at its beginning. The quotes that close it may
follow one or two that belong to the text. -/
def multiLineString (quote : Char) (content : Parser (List Char)) : Parser String := do
  discard (count 3 (char quote))
  discard (optional newline)
  let text ← many (content <|> looseQuotes quote)
  let run ← span (· == quote)
  if 3 ≤ run.length ∧ run.length ≤ 5 then return String.ofList (text.flatten ++ run.drop 3)
  else failure

/-- Every line end of a text is a line feed. -/
def textLineEnd : Parser (List Char) := newline *> pure ['\n']

/-- A backslash at the end of a line takes away the space up to the next word. -/
def joinLines : Parser (List Char) := do
  char '\\'
  blank
  newline
  discard (many (discard (satisfy isBlank) <|> newline))
  return []

def string : Parser String :=
  multiLineString '"'
      (List.singleton <$> satisfy isBasic <|> joinLines <|> List.singleton <$> escape <|>
        textLineEnd)
    <|> basicString
    <|> multiLineString '\'' (List.singleton <$> satisfy isLiteral <|> textLineEnd)
    <|> literalString

/-- The depth to which arrays and tables in braces nest, and the number of parts of a key. -/
def maxDepth : Nat := 79

structure Path where
  first : String
  rest : List String
  deriving DecidableEq, Repr

def isBareKey (c : Char) : Bool := isAsciiLetter c || isDecimalDigit c || c == '-' || c == '_'

def bareKey : Parser String := do
  match ← span isBareKey with
  | [] => failure
  | key => return String.ofList key

def path : Parser Path := do
  match ← sepBy₁ (blank *> (basicString <|> literalString <|> bareKey) <* blank) (char '.') with
  | first :: rest => if rest.length < maxDepth then return ⟨first, rest⟩ else failure
  | [] => failure

/-- Digits, with single underscores between them. -/
def digits (isDigit : Char → Bool) : Parser (List Char) := do
  let first ← satisfy isDigit
  return first :: (← many (optional (char '_') *> satisfy isDigit))

def sign : Parser (List Char) :=
  List.singleton <$> satisfy (fun c => c == '+' || c == '-') <|> pure []

/-- An optional sign, and digits of which only a lone one is zero at the front. -/
def decimal : Parser (List Char) := do
  let sign ← sign
  match ← digits isDecimalDigit with
  | '0' :: _ :: _ => failure
  | digits => return sign ++ digits

/-- Integers have 64 bits and a sign. -/
def fitsInteger (n : Int) : Bool := -9223372036854775808 ≤ n && n ≤ 9223372036854775807

def radixInteger (letter : Char) (radix : Radix) : Parser Int := do
  char '0'
  char letter
  let n : Int := digitsValue radix.base (← digits radix.hasDigit)
  if fitsInteger n then return n else failure

def integer : Parser Int :=
  radixInteger 'x' .hex <|> radixInteger 'o' .octal <|> radixInteger 'b' .binary <|> do
    let n := signedValue (← decimal)
    if fitsInteger n then return n else failure

def exponent : Parser Int := do
  discard (satisfy fun c => c == 'e' || c == 'E')
  return exponentValue ((← sign) ++ (← digits isDecimalDigit))

/-- A number with a fraction or an exponent. One too large is refused, but for a negative one. -/
def finiteFloat : Parser Unit := do
  let whole ← decimal
  let fraction ← (char '.' *> digits isDecimalDigit) <|> pure []
  let exponent ← if fraction.isEmpty then exponent else exponent <|> pure 0
  let magnitude :=
    Binary64.ofDecimal (signedValue (whole ++ fraction)).natAbs (exponent - fraction.length)
  if magnitude = .infinity ∧ whole.head? ≠ some '-' then failure

def specialFloat : Parser Unit := discard sign *> (word ['i', 'n', 'f'] <|> word ['n', 'a', 'n'])

def float : Parser Unit := finiteFloat <|> specialFloat

def isLeapYear (year : Nat) : Bool := year % 4 == 0 && (year % 100 != 0 || year % 400 == 0)

def daysInMonth (year month : Nat) : Nat :=
  if month = 2 then if isLeapYear year then 29 else 28
  else if month ∈ [4, 6, 9, 11] then 30
  else 31

def field (width low high : Nat) : Parser Nat := do
  let n := digitsValue 10 (← count width (satisfy isDecimalDigit))
  if low ≤ n ∧ n ≤ high then return n else failure

def date : Parser Unit := do
  let year ← field 4 0 9999
  char '-'
  let month ← field 2 1 12
  char '-'
  discard (field 2 1 (daysInMonth year month))

def hourMinute : Parser Unit := field 2 0 23 *> char ':' *> discard (field 2 0 59)

def time : Parser Unit := do
  hourMinute
  char ':'
  discard (field 2 0 60)
  discard (optional (char '.' *> satisfy isDecimalDigit *> span isDecimalDigit))

def zone : Parser Unit :=
  char 'Z' <|> char 'z' <|> ((char '+' <|> char '-') *> hourMinute)

def dateTime : Parser Unit := do
  date
  discard (optional ((char 'T' <|> char 't' <|> char ' ') *> time *> optional zone))

def moment : Parser Unit := dateTime <|> time

end EcmaLex.Toml
