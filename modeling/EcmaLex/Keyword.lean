import EcmaLex.Mode

/-! Keywords, and the words that are reserved without being keywords. -/
namespace EcmaLex

inductive Keyword where
  | break_ | case | catch_ | continue_ | debugger | default | delete | do_ | else_ | export_
  | false_ | finally_ | for_ | function | if_ | import_ | in_ | instanceof | new | null | return_
  | switch | this | throw | true_ | try_ | typeof | var | void | while_ | with_ | yield
  deriving DecidableEq, Repr

namespace Keyword

def spelling : Keyword → String
  | break_ => "break"
  | case => "case"
  | catch_ => "catch"
  | continue_ => "continue"
  | debugger => "debugger"
  | default => "default"
  | delete => "delete"
  | do_ => "do"
  | else_ => "else"
  | export_ => "export"
  | false_ => "false"
  | finally_ => "finally"
  | for_ => "for"
  | function => "function"
  | if_ => "if"
  | import_ => "import"
  | in_ => "in"
  | instanceof => "instanceof"
  | new => "new"
  | null => "null"
  | return_ => "return"
  | switch => "switch"
  | this => "this"
  | throw => "throw"
  | true_ => "true"
  | try_ => "try"
  | typeof => "typeof"
  | var => "var"
  | void => "void"
  | while_ => "while"
  | with_ => "with"
  | yield => "yield"

/-- The name of the token: the spelling with a capital. -/
def label (k : Keyword) : String := k.spelling.capitalize

/-- The keyword with this spelling. -/
def ofSpelling? : String → Option Keyword
  | "break" => some break_
  | "case" => some case
  | "catch" => some catch_
  | "continue" => some continue_
  | "debugger" => some debugger
  | "default" => some default
  | "delete" => some delete
  | "do" => some do_
  | "else" => some else_
  | "export" => some export_
  | "false" => some false_
  | "finally" => some finally_
  | "for" => some for_
  | "function" => some function
  | "if" => some if_
  | "import" => some import_
  | "in" => some in_
  | "instanceof" => some instanceof
  | "new" => some new
  | "null" => some null
  | "return" => some return_
  | "switch" => some switch
  | "this" => some this
  | "throw" => some throw
  | "true" => some true_
  | "try" => some try_
  | "typeof" => some typeof
  | "var" => some var
  | "void" => some void
  | "while" => some while_
  | "with" => some with_
  | "yield" => some yield
  | _ => none

end Keyword

/-- Words that no code may use. -/
def alwaysReserved : List String := ["class", "const", "enum", "extends", "super"]

/-- Words that only strict code may not use. -/
def strictReserved : List String :=
  ["implements", "interface", "let", "package", "private", "protected", "public", "static"]

/-- What a word that is no plain name stands for. -/
inductive ReservedWord where
  | keyword (k : Keyword)
  /-- Usable neither as a keyword nor as a name. -/
  | reserved
  deriving DecidableEq, Repr

def reservedWord? (word : String) (mode : Mode) : Option ReservedWord :=
  match Keyword.ofSpelling? word with
  | some k => some (.keyword k)
  | none =>
    if word ∈ alwaysReserved ∨ (mode = .strict ∧ word ∈ strictReserved) then some .reserved
    else none

end EcmaLex
