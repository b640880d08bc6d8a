import EcmaLex.Text.CharClass
import Mathlib.Data.List.SplitBy
import Mathlib.Data.List.Induction

/-!
The lines of a text as it is written. A line ends with its terminator, and a carriage return with the line
feed after it is one terminator of two characters.
-/
namespace EcmaLex
open Text

/-- Two neighbours stand on one line. -/
def onOneLine (a b : Char) : Bool := !isLineTerminator a || (a == '\r' && b == '\n')

def lines (text : List Char) : List (List Char) := text.splitBy onOneLine

/-- The line that holds the last character of a text. -/
def lastLine (text : List Char) : List Char := (lines text).getLastD []

/-- How many characters the longest line has. -/
def longestLine (text : List Char) : Nat := ((lines text).map List.length).max?.getD 0

example : lines ['a', '\r', '\n', '\n', 'b', 'c'] = [['a', '\r', '\n'], ['\n'], ['b', 'c']] := by
  decide

variable {text line : List Char} {front : List (List Char)} {a c : Char}

theorem lines_ne_nil (some_ : text ≠ []) : lines text ≠ [] := List.splitBy_ne_nil.2 some_

theorem flatten_lines (text : List Char) : (lines text).flatten = text := List.flatten_splitBy onOneLine text

theorem lastLine_of_split (split : lines text = front ++ [line]) : lastLine text = line := by
  simp [lastLine, split]

theorem text_of_split (split : lines text = front ++ [line]) : text = front.flatten ++ line := by
  rw [← flatten_lines text, split, List.flatten_append, List.flatten_singleton]

/-- A text that is not empty has a last line, and its last character ends that line. -/
theorem exists_split (last : text.getLast? = some a) :
    ∃ front line, lines text = front ++ [line] ∧ line.getLast? = some a := by
  have some_ : text ≠ [] := by
    rintro rfl
    cases last
  have more := lines_ne_nil some_
  have split := (List.dropLast_append_getLast more).symm
  refine ⟨_, _, split, ?_⟩
  have nonempty : (lines text).getLast more ≠ [] := List.ne_nil_of_mem_splitBy (List.getLast_mem more)
  have ends := congrArg List.getLast? (text_of_split split)
  rw [last, List.getLast?_append_of_ne_nil _ nonempty] at ends
  exact ends.symm

/-- Between two lines stand two characters that are not on one line. -/
theorem lines_apart {earlier later : List (List Char)} {next : List Char}
    (split : lines text = earlier ++ line :: next :: later) :
    ∃ a c rest, line.getLast? = some a ∧ next = c :: rest ∧ onOneLine a c = false := by
  obtain ⟨_, _, _, chain⟩ := List.splitBy_eq_iff.1 (split : text.splitBy onOneLine = _)
  obtain ⟨_, ⟨some_, more, apart⟩, _⟩ := List.isChain_append_cons_cons.1 chain
  obtain ⟨c, rest, rfl⟩ := List.exists_cons_of_ne_nil more
  exact ⟨_, c, rest, List.getLast?_eq_some_getLast some_, rfl, apart⟩

/-- A character that does not stand on the line before it begins a line. -/
theorem lines_begin (new : ∀ a ∈ text.getLast?, onOneLine a c = false) :
    lines (text ++ [c]) = lines text ++ [[c]] :=
  List.splitBy_append_cons [] new

/-- Any other character goes on with the last line. -/
theorem lines_goOn (split : lines text = front ++ [line]) (last : line.getLast? = some a)
    (joined : onOneLine a c = true) : lines (text ++ [c]) = front ++ [line ++ [c]] := by
  obtain ⟨rfl, nonempty, chains, apart⟩ := List.splitBy_eq_iff.1 (split : text.splitBy onOneLine = _)
  have some_ : line ≠ [] := by
    rintro rfl
    cases last
  refine List.splitBy_eq_iff.2 ⟨by simp, ?_, ?_, ?_⟩
  · rw [List.mem_append, not_or] at nonempty ⊢
    exact ⟨nonempty.1, by simp⟩
  · intro m among
    rcases List.mem_append.1 among with earlier | same
    · exact chains m (List.mem_append_left _ earlier)
    · obtain rfl := List.mem_singleton.1 same
      have own := chains line (List.mem_append_right _ (List.mem_singleton_self _))
      refine List.isChain_append.2 ⟨own, .singleton c, ?_⟩
      simp [last, joined]
  · obtain ⟨before, _, here⟩ := List.isChain_append.1 apart
    refine List.isChain_append.2 ⟨before, .singleton _, ?_⟩
    intro m among n same
    obtain rfl : line ++ [c] = n := by simpa using same
    obtain ⟨left, right, parted⟩ := here m among line rfl
    exact ⟨left, by simp, by simpa [List.head_append_of_ne_nil some_] using parted⟩

theorem lastLine_begin (new : ∀ a ∈ text.getLast?, onOneLine a c = false) : lastLine (text ++ [c]) = [c] :=
  lastLine_of_split (lines_begin new)

/-- The last line of a first part of a text is the beginning of a line of the whole. The lines before it are
the same in both. -/
theorem lines_append {part : List Char} (some_ : part ≠ []) (more : List Char) :
    ∃ earlier whole later, lines (part ++ more) = earlier ++ whole :: later ∧
      lines part = earlier ++ [lastLine part] ∧ lastLine part <+: whole := by
  induction more using List.reverseRecOn with
  | nil =>
    obtain ⟨front, line, split, _⟩ := exists_split (List.getLast?_eq_some_getLast some_)
    obtain rfl := lastLine_of_split split
    refine ⟨front, _, [], ?_, split, List.prefix_rfl⟩
    rw [List.append_nil, split]
  | append_singleton more c ih =>
    obtain ⟨earlier, whole, later, split, own, front⟩ := ih
    rw [← List.append_assoc]
    by_cases joined : ∃ a, (part ++ more).getLast? = some a ∧ onOneLine a c = true
    · obtain ⟨a, last, joined⟩ := joined
      obtain ⟨before, line, split', ends⟩ := exists_split last
      rw [lines_goOn split' ends joined]
      rw [split'] at split
      rcases List.eq_nil_or_concat later with rfl | ⟨between, final, rfl⟩
      · obtain ⟨rfl, same⟩ := List.append_inj' split rfl
        obtain rfl := List.singleton_inj.1 same
        exact ⟨before, line ++ [c], [], rfl, own, front.trans (List.prefix_append _ _)⟩
      · rw [List.concat_eq_append, ← List.cons_append, ← List.append_assoc] at split
        obtain ⟨rfl, same⟩ := List.append_inj' split rfl
        obtain rfl := List.singleton_inj.1 same
        exact ⟨earlier, whole, between ++ [line ++ [c]], by simp, own, front⟩
    · have new : ∀ a ∈ (part ++ more).getLast?, onOneLine a c = false := by
        intro a last
        exact eq_false_of_ne_true fun same => joined ⟨a, last, same⟩
      refine ⟨earlier, whole, later ++ [[c]], ?_, own, front⟩
      rw [lines_begin new, split]
      simp

/-- Behind `before` this character is the first of a line, and there are lines before that one. -/
def BeginsLine (before : List Char) (c : Char) (rest : List Char) : Prop :=
  ∃ earlier line later, lines (before ++ c :: rest) = earlier ++ (c :: line) :: later ∧ earlier ≠ [] ∧
    before = earlier.flatten

theorem beginsLine_iff {before rest : List Char} :
    BeginsLine before c rest ↔ ∃ a, before.getLast? = some a ∧ onOneLine a c = false := by
  constructor
  · rintro ⟨earlier, line, later, split, some_, rfl⟩
    obtain ⟨front, m, rfl⟩ := (List.eq_nil_or_concat earlier).resolve_left some_
    rw [List.concat_eq_append, List.append_assoc, List.singleton_append] at split
    obtain ⟨a, _, _, last, same, apart⟩ := lines_apart split
    cases same
    refine ⟨a, ?_, apart⟩
    rw [List.concat_eq_append, List.flatten_append, List.flatten_singleton, List.getLast?_append, last]
    rfl
  · rintro ⟨a, last, apart⟩
    have new : ∀ b ∈ before.getLast?, onOneLine b c = false := by
      rintro b found
      cases last.symm.trans found
      exact apart
    have some_ : before ++ [c] ≠ [] := by simp
    obtain ⟨earlier, whole, later, split, same, front⟩ := lines_append some_ rest
    rw [lastLine_begin new] at same front
    obtain ⟨line, rfl⟩ := front
    obtain rfl := List.append_cancel_right (text_of_split same)
    refine ⟨earlier, line, later, by simpa using split, ?_, rfl⟩
    rintro rfl
    cases last

theorem length_le_longestLine (among : line ∈ lines text) : line.length ≤ longestLine text :=
  List.le_max?_getD_of_mem (List.mem_map_of_mem among)

/-- No line of a first part of a text is longer than the longest line of the whole. -/
theorem length_lastLine_le {part : List Char} (front : part <+: text) :
    (lastLine part).length ≤ longestLine text := by
  obtain ⟨more, rfl⟩ := front
  by_cases none_ : part = []
  · rw [none_]
    exact Nat.zero_le _
  · obtain ⟨earlier, whole, later, split, _, front⟩ := lines_append none_ more
    have among : whole ∈ lines (part ++ more) := by simp [split]
    exact front.length_le.trans (length_le_longestLine among)

end EcmaLex
