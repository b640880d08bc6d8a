import EcmaLex.Proofs.Reading.Escapes
import Mathlib.Data.List.TakeWhile

/-!
Numbers of escapes in words. A word counts the digits in braces in 32 bits, and reads a number only if the
count is positive (`WordNumber`). A surrogate, or a number past the last code point, may be written in full and
still name no character: a word can end right behind such a number (`EndsInBadNumber`). No other broken escape
is a number written in full (`Unwritten`).
-/
namespace EcmaLex
open Text

theorem HexDigits.nil_of_brace {digits text rest : List Char} (all : HexDigits digits)
    (same : digits ++ text = '{' :: rest) : digits = [] := by
  cases digits with
  | nil => rfl
  | cons c digits =>
    obtain ⟨rfl, _⟩ := List.cons.inj same
    exact absurd (all '{' (by simp)) (by decide)

theorem scalar?_min (n : Nat) : scalar? (min n 0x110000) = scalar? n := by
  by_cases small : n ≤ 0x10FFFF
  · rw [Nat.min_eq_left (by omega)]
  · rw [Nat.min_eq_right (by omega), scalar?, scalar?, if_neg (by decide),
      if_neg (by simp only [Nat.isValidChar]; omega)]

namespace WrittenNumber

variable {number number' rest rest' : List Char} {n n' : Nat}

/-- No two numbers are written at the front of one text. -/
theorem unique (written : WrittenNumber number n) (written' : WrittenNumber number' n')
    (same : number ++ rest = number' ++ rest') : number = number' ∧ n = n' := by
  cases written with
  | four all count =>
    cases written' with
    | four all' count' =>
      obtain ⟨rfl, _⟩ := List.append_inj same (count.trans count'.symm)
      exact ⟨rfl, rfl⟩
    | braced all' some' =>
      obtain rfl := all.nil_of_brace same
      cases count
  | @braced digits all some_ =>
    cases written' with
    | four all' count' =>
      obtain rfl := all'.nil_of_brace same.symm
      cases count'
    | @braced digits' all' some' =>
      have tails : digits ++ '}' :: rest = digits' ++ '}' :: rest' := by simpa using same
      obtain rfl : digits = digits' := by
        rw [← takeWhile_exact all closes_digits, tails, takeWhile_exact all' closes_digits]
      exact ⟨rfl, rfl⟩

/-- The count does not depend on what comes after the number. -/
theorem countsDigits_append (written : WrittenNumber number n) (text : List Char) :
    countsDigits (number ++ text) = countsDigits number := by
  cases written with
  | four all count =>
    have some_ : number ≠ [] := by
      rintro rfl
      cases count
    rw [countsDigits_digits all some_, ← List.append_nil number, countsDigits_digits all some_]
  | @braced digits all some_ =>
    have shape : '{' :: (digits ++ ['}']) ++ text = '{' :: (digits ++ '}' :: text) := by simp
    rw [shape, countsDigits_braced all _ closes_digits, countsDigits_braced all _ closes_digits]

theorem plain (written : WrittenNumber number n) : '\\' ∉ number := by
  cases written with
  | four all count => exact all.plain
  | braced all some_ =>
    have plain := all.plain
    simp [plain]

/-- What is written is what is read, as far as characters go. -/
theorem scalar (written : WrittenNumber number n) (text : List Char) :
    (unicodeNumber? (number ++ text)).bind scalar? = scalar? n := by
  cases written with
  | four all count =>
    rw [unicodeNumber?_digits all count]
    rfl
  | @braced digits all some_ =>
    rw [← scalar?_min, ← scalar?_braced all some_ text]
    simp

end WrittenNumber

theorem exists_braced {text : List Char} {n : Nat} (read : bracedNumber? text = some n) :
    ∃ digits rest, text = digits ++ '}' :: rest ∧ HexDigits digits ∧ digits ≠ [] ∧ digitsValue 16 digits = n := by
  simp only [bracedNumber?, Option.ite_none_right_eq_some, Option.some.injEq] at read
  obtain ⟨⟨some_, close, _⟩, value⟩ := read
  have all : HexDigits (text.takeWhile isHexDigit) := fun c member => List.mem_takeWhile_imp member
  have parts : text.takeWhile isHexDigit ++ text.dropWhile isHexDigit = text := List.takeWhile_append_dropWhile
  generalize text.takeWhile isHexDigit = digits at *
  generalize text.dropWhile isHexDigit = after at *
  subst parts
  rw [List.getElem?_append_right (Nat.le_refl _), Nat.sub_self, ← List.head?_eq_getElem?] at close
  obtain ⟨rest, rfl⟩ := List.head?_eq_some_iff.1 close
  exact ⟨digits, rest, rfl, all, some_, value⟩

theorem exists_writtenNumber {text : List Char} {n : Nat} (read : unicodeNumber? text = some n) :
    ∃ number rest, text = number ++ rest ∧ WrittenNumber number n := by
  unfold unicodeNumber? at read
  split at read
  · rename_i brace
    obtain ⟨text, rfl⟩ := List.head?_eq_some_iff.1 brace
    obtain ⟨digits, rest, same, all, some_, rfl⟩ := exists_braced read
    refine ⟨'{' :: (digits ++ ['}']), rest, ?_, .braced all some_⟩
    simpa using same
  · obtain ⟨digits, found, rfl⟩ := Option.map_eq_some_iff.1 read
    simp only [hexPrefix?, Option.ite_none_right_eq_some, Option.some.injEq] at found
    obtain ⟨⟨count, all⟩, rfl⟩ := found
    exact ⟨_, _, (List.take_append_drop 4 text).symm, .four (List.all_eq_true.1 all) count⟩

/-- The number of an escape in a word: one whose digits count. -/
structure WordNumber (number : List Char) (n : Nat) : Prop where
  written : WrittenNumber number n
  counts : countsDigits number = true

namespace WordNumber

variable {digits number : List Char} {n : Nat}

theorem four (all : HexDigits digits) (count : digits.length = 4) : WordNumber digits (digitsValue 16 digits) where
  written := .four all count
  counts := by
    have some_ : digits ≠ [] := by
      rintro rfl
      cases count
    rw [← List.append_nil digits, countsDigits_digits all some_]

theorem braced (all : HexDigits digits) (counted : Counted digits) :
    WordNumber ('{' :: (digits ++ ['}'])) (digitsValue 16 digits) where
  written := .braced all counted.ne_nil
  counts := by rw [countsDigits_braced all _ closes_digits, decide_eq_true counted]

theorem counts_append (known : WordNumber number n) (text : List Char) : countsDigits (number ++ text) = true :=
  (known.written.countsDigits_append text).trans known.counts

theorem counted {digits : List Char} (known : WordNumber ('{' :: (digits ++ ['}'])) n) (all : HexDigits digits) :
    Counted digits := by
  have counts := known.counts
  rwa [countsDigits_braced all _ closes_digits, decide_eq_true_eq] at counts

end WordNumber

/-- No number is written in full after the backslash. -/
def Unwritten (text : List Char) : Prop :=
  ∀ number n rest, WordNumber number n → text ≠ 'u' :: (number ++ rest)

variable {first : Bool} {digits text escape : List Char} {read : List Mark} {loc : Location}

namespace Unwritten

theorem nil : Unwritten [] := fun _ _ _ _ same => nomatch same

theorem other {c : Char} (plain : c ≠ 'u') (text : List Char) : Unwritten (c :: text) :=
  fun _ _ _ _ same => plain (List.cons.inj same).1

theorem short (all : HexDigits digits) (short : digits.length < 4)
    (stops : ∀ c, text.head? = some c → isHexDigit c = false ∧ (digits = [] → c ≠ '{')) :
    Unwritten ('u' :: (digits ++ text)) := by
  intro number n rest known same
  replace same := (List.cons.inj same).2
  cases known.written with
  | four all' count =>
    obtain ⟨more, rfl, rest_⟩ | ⟨more, rfl, _⟩ := List.append_eq_append_iff.1 same
    · cases more with
      | nil => simp at count; omega
      | cons c more =>
        have hex := all' c (by simp)
        rw [(stops c (by rw [rest_]; rfl)).1] at hex
        cases hex
    · rw [List.length_append] at short
      omega
  | braced all' some_ =>
    obtain rfl := all.nil_of_brace same
    rw [List.nil_append] at same
    exact (stops '{' (by rw [same]; rfl)).2 rfl rfl

theorem cut_short (all : HexDigits digits) (short_ : digits.length < 4) : Unwritten ('u' :: digits) := by
  have none_ : Unwritten ('u' :: (digits ++ [])) := short all short_ (by simp)
  rwa [List.append_nil] at none_

theorem unclosed (all : HexDigits digits)
    (stops : ∀ c, text.head? = some c → isHexDigit c = false ∧ (Counted digits → c ≠ '}')) :
    Unwritten ('u' :: '{' :: (digits ++ text)) := by
  intro number n rest known same
  replace same := (List.cons.inj same).2
  cases known.written with
  | four all' count =>
    obtain rfl := all'.nil_of_brace same.symm
    cases count
  | @braced digits' all' some_ =>
    have tails : digits ++ text = digits' ++ '}' :: rest := by simpa using same
    obtain rfl : digits = digits' := by
      rw [← takeWhile_exact all fun c head => (stops c head).1, tails,
        takeWhile_exact all' closes_digits]
    obtain rfl := List.append_cancel_left tails
    exact (stops '}' rfl).2 (known.counted all') rfl

theorem cut_open (all : HexDigits digits) : Unwritten ('u' :: '{' :: digits) := by
  have none_ : Unwritten ('u' :: '{' :: (digits ++ [])) := unclosed all (by simp)
  rwa [List.append_nil] at none_

theorem broken [Library] (unwritten : Unwritten text) (first : Bool) : wholeInWord first text = false := by
  cases text with
  | nil => rfl
  | cons c text =>
    by_contra whole
    simp only [wholeInWord, Bool.not_eq_false, Bool.and_eq_true, decide_eq_true_eq] at whole
    obtain ⟨⟨rfl, counts⟩, admitted⟩ := whole
    cases value : unicodeNumber? text with
    | none => simp [value] at admitted
    | some n =>
      obtain ⟨number, rest, rfl, written⟩ := exists_writtenNumber value
      exact unwritten number n rest ⟨written, (written.countsDigits_append rest).symm.trans counts⟩ rfl

end Unwritten

variable [Library]

/-- The first broken escape of the word is a number in full that is no character, and the word ends
behind it. -/
def EndsInBadNumber (word : List Char) : Prop :=
  ∃ front number n, word = front ++ '\\' :: 'u' :: number ∧ WordNumber number n ∧ scalar? n = none ∧
    firstBroken? wholeInWord true word = some front.length

theorem Unbroken.not_bad (unbroken : Unbroken wholeInWord read []) : ¬EndsInBadNumber (marked read) := by
  rintro ⟨front, number, n, _, _, _, place⟩
  rw [Unbroken, List.append_nil] at unbroken
  rw [unbroken] at place
  cases place

theorem Escaping.ends_bad {number : List Char} {n : Nat}
    (escaping : Escaping wholeInWord first read loc ('u' :: number)) (known : WordNumber number n)
    (none_ : scalar? n = none) : EndsInBadNumber (marked read) := by
  have broken : wholeInWord first ('u' :: number) = false := by
    have scalar := known.written.scalar []
    rw [List.append_nil, none_] at scalar
    simp [wholeInWord, scalar]
  obtain ⟨pre, marks, rfl, same, rfl, unbroken⟩ := escaping
  have whole := unbroken ('u' :: number)
  rw [Unbroken, firstBroken?_broken broken, Option.map_some, Nat.zero_add] at whole
  refine ⟨marked pre, number, n, by simp [same], known, none_, ?_⟩
  rw [marked_append, marked_cons, same, length_marked]
  exact whole

/-- Where an escape is broken, the word can only end in a bad number if the escape is that number. -/
theorem Escaping.bad_number (escaping : Escaping wholeInWord first read loc escape)
    (broken : wholeInWord first (escape ++ text) = false) (ends : EndsInBadNumber (marked read ++ text)) :
    ∃ number n, escape ++ text = 'u' :: number ∧ WordNumber number n ∧ scalar? n = none := by
  obtain ⟨pre, marks, rfl, rfl, rfl, unbroken⟩ := escaping
  obtain ⟨front, number, n, same, known, none_, place⟩ := ends
  have all : marked (pre ++ ('\\', loc) :: marks) ++ text =
      marked pre ++ '\\' :: (marked marks ++ text) := by simp
  rw [all, unbroken, firstBroken?_broken broken, Option.map_some, Nat.zero_add] at place
  have count : (marked pre).length = front.length := by
    rw [length_marked]
    exact Option.some.inj place
  rw [all] at same
  have tails := (List.append_inj same count).2
  exact ⟨number, n, (List.cons.inj tails).2, known, none_⟩

theorem Escaping.not_bad (escaping : Escaping wholeInWord first read loc escape)
    (unwritten : Unwritten (escape ++ text)) : ¬EndsInBadNumber (marked read ++ text) := by
  intro ends
  obtain ⟨number, n, same, known, _⟩ := escaping.bad_number (unwritten.broken first) ends
  exact unwritten number n [] known (by rw [same, List.append_nil])

end EcmaLex
