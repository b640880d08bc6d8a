/-!
Values and tables of a TOML document, and the two ways in which a table grows: by headers, which name
the table that follows, and by dotted keys, which only go through tables that such keys have made.
-/
namespace EcmaLex.Toml

/-- What made a table. -/
inductive Origin where
  /-- A header of its own, or the document itself. -/
  | header
  /-- A header of a table below it. -/
  | parent
  /-- A dotted key. -/
  | dotted
  /-- Braces. Such a table is closed. -/
  | braces
  deriving DecidableEq, Repr

inductive Value where
  | string (text : String)
  | integer (n : Int)
  /-- A boolean, a float, or a date or time. -/
  | other
  | array (items : List Value)
  | table (origin : Origin) (entries : List (String × Value))
  /-- The tables that headers in double brackets make, the newest first. -/
  | tables (last : List (String × Value)) (earlier : List (List (String × Value)))
  deriving Repr

/-- The entries in the order of their first mention. -/
abbrev Table := List (String × Value)

namespace Table

/-- Changes the value at a key by a function that may refuse it. -/
def alter (key : String) (f : Option Value → Option Value) : Table → Option Table
  | [] => do return [(key, ← f none)]
  | (k, v) :: others => do
    if k = key then return (k, ← f (some v)) :: others
    else return (k, v) :: (← alter key f others)

/-- Sets the value of a dotted key, which must be new. A table that the key takes its last step from
must itself come from a dotted key. -/
def assign (value : Value) : String → List String → Table → Option Table
  | key, [], t => t.alter key fun
    | none => some value
    | some _ => none
  | key, next :: rest, t => t.alter key fun
    | none => .table .dotted <$> assign value next rest []
    | some (.table .dotted entries) => .table .dotted <$> assign value next rest entries
    | some (.table .parent entries) =>
      if rest.isEmpty then none else .table .parent <$> assign value next rest entries
    | some (.tables last earlier) =>
      if rest.isEmpty then none else (.tables · earlier) <$> assign value next rest last
    | some _ => none

/-- Changes the value at the end of the path of a header. -/
def alterAt (f : Option Value → Option Value) : String → List String → Table → Option Table
  | key, [], t => t.alter key f
  | key, next :: rest, t => t.alter key fun
    | none => .table .parent <$> alterAt f next rest []
    | some (.table .braces _) => none
    | some (.table origin entries) => .table origin <$> alterAt f next rest entries
    | some (.tables last earlier) => (.tables · earlier) <$> alterAt f next rest last
    | some _ => none

end Table
end EcmaLex.Toml
