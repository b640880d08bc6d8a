import EcmaLex.Keyword
import EcmaLex.Location
import EcmaLex.Number.Shortest
import EcmaLex.Punctuator
import EcmaLex.Text.Quoted

/-! Tokens and their descriptions. -/
namespace EcmaLex
open Text

/-- What can be wrong with source text, or with its delivery. -/
inductive LexFault where
  | unterminatedString
  | unterminatedComment
  | malformedEscapeSequence
  | malformedNumericLiteral
  /-- No token begins with the character. -/
  | unrecognizedCharacter
  | inputFailure
  deriving DecidableEq, Repr

namespace LexFault

def label : LexFault → String
  | unterminatedString => "UnterminatedString"
  | unterminatedComment => "UnterminatedComment"
  | malformedEscapeSequence => "MalformedEscapeSequence"
  | malformedNumericLiteral => "MalformedNumericLiteral"
  | unrecognizedCharacter => "UnrecognizedCharacter"
  | inputFailure => "UnderlyingIoFailure"

def message : LexFault → String
  | unterminatedString => "unterminated string literal"
  | unterminatedComment => "unterminated block comment"
  | malformedEscapeSequence => "malformed escape sequence"
  | malformedNumericLiteral => "malformed numeric literal"
  | unrecognizedCharacter => "unrecognized character"
  | inputFailure => "underlying input failure"

end LexFault

inductive TokenKind where
  /-- End of input. -/
  | eof
  /-- A line break. -/
  | eol
  | error (fault : LexFault)
  | name (text : String)
  | string (value : String)
  | number (value : Binary64)
  | punctuator (p : Punctuator)
  | word (w : ReservedWord)
  deriving DecidableEq, Repr

namespace TokenKind

def isKeyword : TokenKind → Bool
  | word _ => true
  | _ => false

def isLiteral : TokenKind → Bool
  | number _ | string _ => true
  | word (.keyword k) => k == .true_ || k == .false_ || k == .null
  | _ => false

def isPunctuator : TokenKind → Bool
  | punctuator _ => true
  | _ => false

/-- The spelling of a kind that has only one. -/
def spelling? : TokenKind → Option String
  | punctuator p => some p.spelling
  | word (.keyword k) => some k.spelling
  | _ => none

/-- The name of the kind without its payload. -/
def label : TokenKind → String
  | eof => "Eof"
  | eol => "Eol"
  | error _ => "Error"
  | name _ => "Name"
  | string _ => "String"
  | number _ => "Number"
  | punctuator p => p.label
  | word (.keyword k) => k.label
  | word .reserved => "Reserved"

/-- The name of the kind with its payload. -/
def detail : TokenKind → String
  | error fault => "Error(" ++ fault.label ++ ")"
  | name text => "Name(" ++ quote text ++ ")"
  | string value => "String(" ++ quote value ++ ")"
  | number value => "Number(" ++ value.general ++ ")"
  | kind => kind.label

def describe : TokenKind → String
  | eof => "end of input"
  | eol => "line terminator"
  | error fault => "error: " ++ fault.message
  | name text => "name `" ++ text ++ "`"
  | string value => "string " ++ quote value
  | number value => "number " ++ value.plain
  | punctuator p => "`" ++ p.spelling ++ "`"
  | word (.keyword k) => "`" ++ k.spelling ++ "`"
  | word .reserved => "reserved word"

def fault? : TokenKind → Option LexFault
  | error fault => some fault
  | _ => none

end TokenKind

/-- A token, the source text it was read from, and its start; for a fault the place of the fault. -/
structure Token where
  kind : TokenKind
  lexeme : String
  position : Position
  deriving DecidableEq, Repr

def Token.isEof (t : Token) : Bool := t.kind == .eof

end EcmaLex
