/-!
Sorted tables of inclusive code point ranges. Membership is decided by bisection, and
`runs` lists the maximal runs of a property of characters.
-/
namespace EcmaLex.Text

/-- Inclusive ranges in increasing order, each ending before the next begins. -/
abbrev RangeTable := Array (Nat × Nat)

namespace RangeTable

/-- Bisection of the window `[lo, hi)`. -/
def bisect (t : RangeTable) (n lo hi : Nat) (inside : hi ≤ t.size) : Bool :=
  if open_ : lo < hi then
    let mid := lo + (hi - lo) / 2
    have : mid < t.size := by omega
    if t[mid].2 < n then bisect t n (mid + 1) hi inside
    else if n < t[mid].1 then bisect t n lo mid (by omega)
    else true
  else false
termination_by hi - lo

def contains (t : RangeTable) (n : Nat) : Bool :=
  t.bisect n 0 t.size (Nat.le_refl _)

end RangeTable

/-- The scalar value with this code point; a surrogate or a number past the last plane has none. -/
def scalar? (n : Nat) : Option Char :=
  if n.isValidChar then some (Char.ofNat n) else none

/-- The runs found so far, newest first, and the start of a run that is still open. -/
structure RunSearch where
  found : List (Nat × Nat) := []
  current : Option Nat := none

namespace RunSearch

/-- Ends the open run, if there is one, just before `next`. -/
def close (search : RunSearch) (next : Nat) : RunSearch :=
  match search.current with
  | some start => ⟨(start, next - 1) :: search.found, none⟩
  | none => search

/-- Examines `count` code points from `next` on. -/
def advance (property : Char → Bool) : (count next : Nat) → RunSearch → RunSearch
  | 0, next, search => search.close next
  | count + 1, next, search =>
    if (scalar? next).any property then
      advance property count (next + 1) { search with current := some (search.current.getD next) }
    else advance property count (next + 1) (search.close next)

end RunSearch

/-- The maximal runs in `first..=last` of characters with the property, in increasing order.
Surrogates have no property. -/
def runs (property : Char → Bool) (first last : Nat) : List (Nat × Nat) :=
  (RunSearch.advance property (last + 1 - first) first {}).found.reverse

end EcmaLex.Text
