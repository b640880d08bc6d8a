import EcmaLex.SourceWindow

/-! Log entries: a level, a fixed message and named fields. -/
namespace EcmaLex

inductive LogLevel where
  | trace
  | debug
  | warning
  | error
  deriving DecidableEq, Repr

inductive LogField where
  | number (n : Nat)
  | text (s : String)
  deriving DecidableEq, Repr

structure LogEntry where
  level : LogLevel
  message : String
  fields : List (String × LogField)
  deriving DecidableEq, Repr

def WindowEvent.entry : WindowEvent → LogEntry
  | .reclaimed characters capacity =>
    ⟨.debug, "Reclaimed source window",
      [("reclaimed", .number characters), ("capacity", .number capacity)]⟩
  | .grew capacity => ⟨.debug, "Grew source window", [("capacity", .number capacity)]⟩
  | .truncated bytes =>
    ⟨.warning, "Truncated UTF-8 sequence at end of input", [("bytes", .number bytes)]⟩
  | .illFormed bytes =>
    ⟨.warning, "Invalid UTF-8 in source, substituting U+FFFD", [("bytes", .number bytes)]⟩

end EcmaLex
