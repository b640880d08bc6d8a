import EcmaLex.Toml.Lexical
import EcmaLex.Toml.Value

/-! Documents: values, the lines of a document, and the table that they make up. -/
namespace EcmaLex.Toml
open EcmaLex.Toml.Parser

structure Assignment where
  path : Path
  value : Value

inductive Header where
  | table (path : Path)
  /-- One more table of an array. -/
  | element (path : Path)

/-- A header and the assignments that follow it. -/
structure Block where
  header : Header
  assignments : List Assignment

def Table.assignAll (assignments : List Assignment) (t : Table) : Option Table :=
  assignments.foldlM (fun t a => t.assign a.value a.path.first a.path.rest) t

/-- A header may take up a table that so far is only the parent of another. -/
def Table.addBlock (t : Table) (b : Block) : Option Table :=
  match b.header with
  | .table path => t.alterAt (fun
      | none => .table .header <$> Table.assignAll b.assignments []
      | some (.table .parent entries) => .table .header <$> Table.assignAll b.assignments entries
      | some _ => none) path.first path.rest
  | .element path => t.alterAt (fun
      | none => (.tables · []) <$> Table.assignAll b.assignments []
      | some (.tables last earlier) =>
        (.tables · (last :: earlier)) <$> Table.assignAll b.assignments []
      | some _ => none) path.first path.rest

def boolean : Parser Unit := word ['t', 'r', 'u', 'e'] <|> word ['f', 'a', 'l', 's', 'e']

def scalar : Parser Value :=
  .string <$> string <|> (boolean *> pure .other) <|> (moment *> pure .other) <|>
    (float *> pure .other) <|> .integer <$> integer

def array (item : Parser Value) : Parser Value := do
  char '['
  let items ← sepBy (gap *> item <* gap) (char ',')
  unless items.isEmpty do discard (optional (char ','))
  gap
  char ']'
  return .array items

def assignment (value : Parser Value) : Parser Assignment := do
  let path ← path
  char '='
  blank
  return ⟨path, ← value⟩

def inlineTable (value : Parser Value) : Parser Value := do
  char '\x7b'
  let assignments ← sepBy (assignment value <* blank) (char ',')
  blank
  char '\x7d'
  .table .braces <$> Table.assignAll assignments []

/-- A value in which arrays and tables in braces nest no deeper than given. -/
def value : Nat → Parser Value
  | 0 => scalar
  | depth + 1 => scalar <|> array (value depth) <|> inlineTable (value depth)

/-- The end of the text is no line of its own. -/
def line {α : Type} (content : Parser α) : Parser α := notAtEnd *> blank *> content <* lineEnd

def assignments : Parser (List Assignment) := do
  return (← many (line (optional (assignment (value maxDepth))))).reduceOption

def header : Parser Header := do
  char '['
  (do char '['
      let path ← path
      char ']'
      char ']'
      return .element path)
    <|> do
      let path ← path
      char ']'
      return .table path

def block : Parser Block := do
  let header ← line header
  return ⟨header, ← assignments⟩

def document : Parser (List Assignment × List Block) := do
  discard (optional (char '\ufeff'))
  let top ← assignments
  let blocks ← many block
  atEnd
  return (top, blocks)

/-- The table that a text describes, if it is a document. -/
def ofText? (text : String) : Option Table := do
  let ((top, blocks), _) ← document text.toList
  blocks.foldlM Table.addBlock (← Table.assignAll top [])

end EcmaLex.Toml
