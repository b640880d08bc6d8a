import EcmaLex.CharSource
import EcmaLex.Proofs.Text.LineTerminators
import Mathlib.Data.List.TakeWhile

/-!
The plainest source of characters: all of the text lies ahead, each character with its place. Nothing
is decoded, refilled or normalized here, so the scanners can be understood on it.
-/
namespace EcmaLex
open Text

structure Tape where
  /-- What is still to be handed out. -/
  ahead : List Mark
  /-- The current lexeme, newest first. -/
  taken : List Mark := []
  last : Location
  /-- Where the end of input stands. -/
  ending : Location

namespace Tape

def ofText (line : UInt32) (text : List Char) : Tape where
  ahead := located ⟨line, 0⟩ text
  last := ⟨line, 0⟩
  ending := Location.past ⟨line, 0⟩ text

/-- The format controls that a call passes over. -/
def dropped (skipFormat : Bool) (m : Mark) : Bool := skipFormat && isFormatControl m.1

def next (skipFormat : Bool) (t : Tape) : Except ReadFailure (Option Char) × Tape :=
  match t.ahead.dropWhile (dropped skipFormat) with
  | [] => (.ok none, { t with ahead := [], last := t.ending })
  | m :: ahead => (.ok (some m.1), { t with ahead, taken := m :: t.taken, last := m.2 })

def putBack (c : Char) (t : Tape) : Tape :=
  match t.taken with
  | (_, loc) :: taken => { t with taken, ahead := (c, loc) :: t.ahead }
  | [] => { t with ahead := (c, t.last) :: t.ahead }

def lexemeStart (t : Tape) : Location :=
  match t.taken.getLast? with
  | some (_, loc) => loc
  | none => t.last

theorem next_length {skipFormat : Bool} {t t' : Tape} {answer : Except ReadFailure (Option Char)}
    (took : t.next skipFormat = (answer, t')) :
    t'.ahead.length ≤ t.ahead.length ∧
      ∀ c, answer = .ok (some c) → t'.ahead.length < t.ahead.length := by
  have shorter := (List.dropWhile_sublist (l := t.ahead) (dropped skipFormat)).length_le
  unfold next at took
  split at took
  · cases took
    exact ⟨Nat.zero_le _, fun _ eq => nomatch eq⟩
  · rename_i rest
    rw [rest, List.length_cons] at shorter
    cases took
    exact ⟨Nat.le_of_lt shorter, fun _ _ => shorter⟩

instance : CharSource Tape where
  next := next
  putBack := putBack
  beginLexeme t := { t with taken := [] }
  lexeme t := marked t.taken.reverse
  lexemeStart := lexemeStart
  here := last
  remaining t := t.ahead.length
  remaining_next_some took := (next_length took).2 _ rfl
  remaining_next took := (next_length took).1
  remaining_putBack c t := by
    unfold putBack
    split <;> exact Nat.le_refl _
  remaining_beginLexeme _ := Nat.le_refl _

theorem next_end {skipFormat : Bool} {t : Tape}
    (none_ : ∀ m ∈ t.ahead, dropped skipFormat m = true) :
    CharSource.next skipFormat t =
      ((.ok none : Except ReadFailure (Option Char)), { t with ahead := [], last := t.ending }) := by
  have rest : t.ahead.dropWhile (dropped skipFormat) = [] := List.dropWhile_eq_nil_iff.2 none_
  change t.next skipFormat = _
  rw [next, rest]

/-- The next character is the first one that is not dropped. -/
theorem next_char {skipFormat : Bool} {t : Tape} {before rest : List Mark} {m : Mark}
    (split : t.ahead = before ++ m :: rest) (dropped_ : ∀ d ∈ before, dropped skipFormat d = true)
    (kept : dropped skipFormat m = false) :
    CharSource.next skipFormat t =
      ((.ok (some m.1) : Except ReadFailure (Option Char)),
        { t with ahead := rest, taken := m :: t.taken, last := m.2 }) := by
  have found : t.ahead.dropWhile (dropped skipFormat) = m :: rest := by
    rw [split, List.dropWhile_append_of_pos dropped_, List.dropWhile_cons_of_neg (by simp [kept])]
  change t.next skipFormat = _
  rw [next, found]

theorem next_kept {skipFormat : Bool} {t : Tape} {m : Mark} {rest : List Mark}
    (ahead : t.ahead = m :: rest) (kept : dropped skipFormat m = false) :
    CharSource.next skipFormat t =
      ((.ok (some m.1) : Except ReadFailure (Option Char)),
        { t with ahead := rest, taken := m :: t.taken, last := m.2 }) :=
  next_char (show t.ahead = [] ++ m :: rest from ahead) (by simp) kept

theorem next_dropped {skipFormat : Bool} {t : Tape} {m : Mark} {rest : List Mark}
    (split : t.ahead = m :: rest) (passed : dropped skipFormat m = true) :
    CharSource.next skipFormat t = CharSource.next skipFormat { t with ahead := rest } := by
  change t.next skipFormat = Tape.next skipFormat _
  simp only [next, split, List.dropWhile_cons_of_pos passed]

theorem putBack_taken {t : Tape} {m : Mark} {taken : List Mark} (took : t.taken = m :: taken) :
    CharSource.putBack m.1 t = { t with taken, ahead := m :: t.ahead } := by
  change t.putBack m.1 = _
  rw [putBack, took]

end Tape
end EcmaLex
