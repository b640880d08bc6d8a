import EcmaLex.Text.CharClass
import EcmaLex.Text.DisplayTable

/-!
Text in double quotes, with an escape for every character that would not show as itself.
-/
namespace EcmaLex.Text

/-- Private use areas. -/
def privateUse : RangeTable := #[
  (0xE000, 0xF8FF), (0xF0000, 0xFFFFD), (0x100000, 0x10FFFD)]

def isControl (c : Char) : Bool := c.toNat < 0x20 || (0x7F ≤ c.toNat && c.toNat < 0xA0)

/-- The character shows as itself inside quotes. -/
def isPlain (c : Char) : Bool :=
  c == ' ' ||
    !(isControl c || isFormatControl c || isLineTerminator c || isWhitespace c ||
      privateUse.contains c.toNat || graphemeExtend.contains c.toNat ||
      unassigned.contains c.toNat)

def escape (c : Char) : List Char :=
  match c with
  | '\x00' => ['\\', '0']
  | '\t' => ['\\', 't']
  | '\r' => ['\\', 'r']
  | '\n' => ['\\', 'n']
  | '\x22' => ['\\', '\x22']
  | '\\' => ['\\', '\\']
  | c =>
    if isPlain c then [c]
    else ['\\', 'u', '\x7b'] ++ Nat.toDigits 16 c.toNat ++ ['\x7d']

/-- The text in quotes. -/
def quote (text : String) : String :=
  String.ofList ('\x22' :: text.toList.flatMap escape ++ ['\x22'])

end EcmaLex.Text
