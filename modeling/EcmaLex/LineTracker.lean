import EcmaLex.Location
import EcmaLex.Text.CharClass

/-!
Line and column bookkeeping. Every line terminator leaves the tracker as a line feed, and a carriage
return with a line feed after it is one terminator. A terminator only opens the next line once the
character after it is seen or the input ends, so the two halves of that pair need not arrive together.
Lines and columns are counted in words of 32 bits: the number after the last one is zero.
-/
namespace EcmaLex
open Text

structure LineTracker where
  line : UInt32
  column : UInt32 := 0
  /-- The terminator that ends the current line, once it has been read. -/
  pending : Option Char := none
  deriving DecidableEq, Repr

namespace LineTracker

/-- What one raw character contributes. -/
inductive Advance where
  /-- The line feed of a carriage return pair contributes nothing. -/
  | absorbed
  | char (c : Char) (loc : Location) (opensLine : Bool)
  deriving DecidableEq, Repr

def start (line : UInt32) : LineTracker := { line }

/-- Where the next character stands. -/
def location (t : LineTracker) : Location := ⟨t.line, t.column⟩

def openLine (t : LineTracker) : LineTracker := { line := t.line + 1 }

/-- Places a character on the current line. -/
def place (t : LineTracker) (raw : Char) (opensLine : Bool) : Advance × LineTracker :=
  if isLineTerminator raw then
    (.char '\n' t.location opensLine, { t with column := t.column + 1, pending := some raw })
  else (.char raw t.location opensLine, { t with column := t.column + 1 })

def advance (t : LineTracker) (raw : Char) : Advance × LineTracker :=
  match t.pending with
  | none => t.place raw false
  | some ending =>
    if ending = '\r' ∧ raw = '\n' then (.absorbed, { t with pending := some '\n' })
    else t.openLine.place raw true

/-- Closes a terminator that the end of input left open. -/
def finish (t : LineTracker) : LineTracker :=
  match t.pending with
  | none => t
  | some _ => t.openLine

end LineTracker
end EcmaLex
