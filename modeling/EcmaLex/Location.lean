/-! Places in source text. -/
namespace EcmaLex

/-- A line number and a zero-based column in that line, in words of 32 bits. -/
structure Location where
  line : UInt32
  column : UInt32
  deriving DecidableEq, Repr, Inhabited

/-- A location in a named file. -/
structure Position where
  file : String
  location : Location
  deriving DecidableEq, Repr

/-- Written `file:line:column`. -/
def Position.render (p : Position) : String :=
  p.file ++ ":" ++ Nat.repr p.location.line.toNat ++ ":" ++ Nat.repr p.location.column.toNat

end EcmaLex
