import EcmaLex.Config
import EcmaLex.Toml.Document

/-!
Settings from a TOML document. A key that is missing leaves its default, and keys that name no
setting are passed over.
-/
namespace EcmaLex

def Mode.ofName? : String → Option Mode
  | "sloppy" => some .sloppy
  | "strict" => some .strict
  | _ => none

namespace Config
open Toml

def textOf? : Value → Option String
  | .string text => some text
  | _ => none

/-- An integer from zero up to a limit. -/
def natOf? (limit : Nat) : Value → Option Nat
  | .integer n => if 0 ≤ n ∧ n ≤ limit then some n.toNat else none
  | _ => none

def isEmpty : Value → Bool
  | .array [] | .table _ [] => true
  | _ => false

/-- The name of a mode, or a table whose only key is the name and has no content. -/
def modeOf? : Value → Option Mode
  | .string name => Mode.ofName? name
  | .table _ [(name, content)] => if isEmpty content then Mode.ofName? name else none
  | _ => none

/-- The value of a key, or the default if the key is missing. -/
def settingOf? {α : Type} (t : Table) (key : String) (default : α) (read : Value → Option α) :
    Option α :=
  match t.lookup key with
  | none => some default
  | some value => read value

/-- Lines are numbered with 32 bits. -/
def lineOf? (v : Value) : Option UInt32 := (natOf? 4294967295 v).map UInt32.ofNat

/-- The largest integer of a document. -/
def maxBufferCapacity : Nat := 9223372036854775807

def ofTable? (t : Table) : Option Config := do
  let defaults : Config := {}
  return {
    fileName := ← settingOf? t "file_name" defaults.fileName textOf?
    startLine := ← settingOf? t "start_line" defaults.startLine lineOf?
    mode := ← settingOf? t "mode" defaults.mode modeOf?
    bufferCapacity :=
      ← settingOf? t "buffer_capacity" defaults.bufferCapacity (natOf? maxBufferCapacity) }

/-- The settings that a document describes. That it can be read at all comes first. -/
def ofToml (text : String) : Except ConfigError Config :=
  match Toml.ofText? text >>= ofTable? with
  | some c => c.validate
  | none => .error .unreadable

end Config
end EcmaLex
