import EcmaLex.Number.Conversions
import EcmaLex.Text.IdentifierTable

/-! The libraries that the lexer runs with, for whoever opens `Running`. -/
namespace EcmaLex.Running

scoped instance library : Library where
  identifiers := Text.unicode16
  numbers := conversions

end EcmaLex.Running
