/-! The two modes of the grammar. -/
namespace EcmaLex

/-- Strict code has no legacy octal forms and reserves more words. -/
inductive Mode where
  | sloppy
  | strict
  deriving DecidableEq, Repr

end EcmaLex
