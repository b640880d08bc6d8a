import EcmaLex.Number.Binary64

/-!
Integers of any width, rounded from their leading bits. An integer is held in words of 64 bits. Its
64 leading bits are rounded, and the last of them is set first where the words below the first word
hold a trace of what is cut off. Up to 64 bits nothing is cut off and the result is the nearest number
(`ofLeadingBits_eq_ofNat`).
-/
namespace EcmaLex
namespace LeadingBits

def wordBits : Nat := 64

/-- The words of an integer after its first, which holds the highest bit that is set. -/
def lowerWords (n : Nat) : Nat := n.log2 / wordBits

/-- The bits of the first word. -/
def firstWordBits (n : Nat) : Nat := n.log2 % wordBits + 1

/-- The bits after the 64 leading ones. -/
def droppedBits (n : Nat) : Nat := n.log2 + 1 - wordBits

/-- Of each lower word only the low bits count, as many as the first word has. They hold all that is
cut off from the second word; a bit higher up in a later word leaves no trace. -/
def hasTrace (n : Nat) : Bool :=
  (List.range (lowerWords n)).any fun i =>
    n / Nat.pow 2 (wordBits * i) % Nat.pow 2 (firstWordBits n) != 0

/-- The 64 leading bits of an integer, made odd if there is a trace of others. -/
def leadingBits (n : Nat) : Nat :=
  let head := n / Nat.pow 2 (droppedBits n)
  if hasTrace n then head - head % 2 + 1 else head

theorem log2_lt_wordBits {n : Nat} (narrow : n < Nat.pow 2 wordBits) : n.log2 < wordBits := by
  by_cases zero : n = 0
  · subst zero; decide
  · exact (Nat.log2_lt zero).2 narrow

theorem leadingBits_of_lt {n : Nat} (narrow : n < Nat.pow 2 wordBits) : leadingBits n = n := by
  have short := log2_lt_wordBits narrow
  have noWords : lowerWords n = 0 := Nat.div_eq_of_lt short
  have noDrop : droppedBits n = 0 := by unfold droppedBits; omega
  simp [leadingBits, hasTrace, noWords, noDrop]

end LeadingBits

namespace Binary64
open LeadingBits

/-- The number nearest to the leading bits of an integer, at their place. -/
def ofLeadingBits (n : Nat) : Binary64 :=
  ofNat (leadingBits n * Nat.pow 2 (droppedBits n))

theorem ofLeadingBits_eq_ofNat {n : Nat} (narrow : n < Nat.pow 2 wordBits) :
    ofLeadingBits n = ofNat n := by
  have short := log2_lt_wordBits narrow
  have noDrop : droppedBits n = 0 := by unfold droppedBits; omega
  simp [ofLeadingBits, leadingBits_of_lt narrow, noDrop]

end Binary64
end EcmaLex
