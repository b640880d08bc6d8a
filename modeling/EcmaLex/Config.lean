import EcmaLex.Mode

/-! Settings of a token stream. -/
namespace EcmaLex

structure Config where
  /-- The name in positions and messages. -/
  fileName : String := "unknown"
  startLine : UInt32 := 1
  mode : Mode := .sloppy
  /-- The number of characters the source window starts with. -/
  bufferCapacity : Nat := 512
  deriving DecidableEq, Repr

inductive ConfigError where
  | zeroCapacity
  /-- A document that is not well formed or holds a value of a wrong type or out of range. -/
  | unreadable
  deriving DecidableEq, Repr

/-- The text of an error in the settings themselves. -/
def ConfigError.message? : ConfigError → Option String
  | .zeroCapacity => some "Configuration error: buffer_capacity must be at least 1"
  | .unreadable => none

def Config.validate (c : Config) : Except ConfigError Config :=
  if c.bufferCapacity = 0 then .error .zeroCapacity else .ok c

end EcmaLex
