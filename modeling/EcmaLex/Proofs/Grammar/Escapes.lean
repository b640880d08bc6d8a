import EcmaLex.Mode
import EcmaLex.Proofs.Text.LineTerminators
import EcmaLex.Text.IdentifierClass

/-!
Which escapes are whole, and where the first broken one stands, said of plain text and without a
scanner. An escape is judged by the text after its backslash.
-/
namespace EcmaLex
open Text

/-- The hexadecimal digits that a text begins with, if there are `n` of them. -/
def hexPrefix? (n : Nat) (text : List Char) : Option (List Char) :=
  if (text.take n).length = n ∧ (text.take n).all isHexDigit then some (text.take n) else none

/-- The code point between braces, after the opening one. -/
def bracedNumber? (text : List Char) : Option Nat :=
  let digits := text.takeWhile isHexDigit
  if digits ≠ [] ∧ text[digits.length]? = some '}' ∧ digitsValue 16 digits ≤ 0x10FFFF then
    some (digitsValue 16 digits)
  else none

/-- The number of a unicode escape: four digits, or any in braces. -/
def unicodeNumber? (text : List Char) : Option Nat :=
  if text.head? = some '{' then bracedNumber? text.tail
  else (hexPrefix? 4 text).map (digitsValue 16)

/-- In strict code a digit is no escape, but for a zero that no digit follows. It does not matter what
stands before an escape in a string. -/
def wholeInString (mode : Mode) (_ : Bool) : List Char → Bool
  | [] => false
  | c :: text =>
    if c = 'x' then (hexPrefix? 2 text).isSome
    else if c = 'u' then (unicodeNumber? text).isSome
    else !(isDecimalDigit c && mode == .strict && (c != '0' || text.head?.any isDecimalDigit))

/-- The count of the digits is positive. It is kept in 32 bits with a sign, so it is so of any digits at all
as long as there are fewer than 2³¹ (`counted_of_lt`). -/
def Counted (digits : List Char) : Prop := 0 < Int32.ofNat digits.length

instance (digits : List Char) : Decidable (Counted digits) := inferInstanceAs (Decidable (_ < _))

/-- If the number of an escape is in braces, its digits are counted. -/
def countsDigits (text : List Char) : Bool :=
  text.head? != some '{' || decide (Counted (text.tail.takeWhile isHexDigit))

/-- An escape in a word stands for a character that may stand at its place. -/
def wholeInWord [Library] (first : Bool) : List Char → Bool
  | [] => false
  | c :: text => c = 'u' && countsDigits text && ((unicodeNumber? text).bind scalar?).any
      (if first then isIdentifierStart else isIdentifierPart)

/-- The place of the first backslash whose escape is not whole; `first` tells that nothing stands
before the text. Beyond its first character a whole escape holds no backslash, so the rest of it is
passed over like plain text. -/
def firstBroken? (whole : Bool → List Char → Bool) (first : Bool) : List Char → Option Nat
  | [] => none
  | ['\\'] => some 0
  | '\\' :: c :: text =>
    if whole first (c :: text) then (firstBroken? whole false text).map (· + 2) else some 0
  | _ :: text => (firstBroken? whole false text).map (· + 1)

/-- The first broken escape of a string literal or a word. -/
def brokenEscape? [Library] (mode : Mode) (slice : List Char) : Option Nat :=
  if slice.head? = some '\x22' ∨ slice.head? = some '\x27' then
    firstBroken? (wholeInString mode) true slice
  else firstBroken? wholeInWord true slice

theorem digitsValue_push (base : Nat) (digits : List Char) (c : Char) :
    digitsValue base (digits ++ [c]) = digitsValue base digits * base + (hexValue? c).getD 0 := by
  simp [digitsValue]

theorem isHexDigit_of_value {c : Char} {digit : Nat} (value : hexValue? c = some digit) :
    isHexDigit c = true := by simp [isHexDigit, value]

def HexDigits (digits : List Char) : Prop := ∀ c ∈ digits, isHexDigit c = true

instance : DecidablePred HexDigits := fun digits =>
  decidable_of_iff (digits.all isHexDigit = true) List.all_eq_true

theorem HexDigits.nil : HexDigits [] := List.forall_mem_nil _

theorem HexDigits.push {digits : List Char} {c : Char} {digit : Nat} (all : HexDigits digits)
    (value : hexValue? c = some digit) : HexDigits (digits ++ [c]) := by
  intro d member
  rcases List.mem_append.1 member with before | last
  · exact all d before
  · rw [List.mem_singleton.1 last]
    exact isHexDigit_of_value value

theorem HexDigits.plain {digits : List Char} (all : HexDigits digits) : '\\' ∉ digits :=
  fun member => absurd (all _ member) (by decide)

theorem hexPrefix?_digits {n : Nat} {digits : List Char} (all : HexDigits digits)
    (count : digits.length = n) (text : List Char) : hexPrefix? n (digits ++ text) = some digits := by
  have front : (digits ++ text).take n = digits := List.take_left' count
  rw [hexPrefix?, front, if_pos ⟨count, List.all_eq_true.2 all⟩]

theorem hexPrefix?_short {n : Nat} {digits text : List Char} (short : digits.length < n)
    (broken : ∀ c, text.head? = some c → isHexDigit c = false) : hexPrefix? n (digits ++ text) = none := by
  unfold hexPrefix?
  rw [if_neg]
  rintro ⟨count, all⟩
  cases text with
  | nil =>
    simp only [List.append_nil, List.length_take] at count
    omega
  | cons c text =>
    have member : c ∈ (digits ++ c :: text).take n := by
      obtain ⟨k, rfl⟩ := Nat.exists_eq_add_of_lt short
      simp [List.take_append, Nat.add_assoc]
    have other := broken c rfl
    rw [List.all_eq_true.1 all c member] at other
    cases other

theorem takeWhile_exact {p : Char → Bool} {front text : List Char} (all : ∀ c ∈ front, p c = true)
    (broken : ∀ c, text.head? = some c → p c = false) : (front ++ text).takeWhile p = front := by
  rw [List.takeWhile_append_of_pos all]
  cases text with
  | nil => simp
  | cons c text => rw [List.takeWhile_cons_of_neg (by simp [broken c rfl]), List.append_nil]

/-- A brace is no digit. -/
theorem closes_digits {text : List Char} : ∀ c, ('}' :: text).head? = some c → isHexDigit c = false := by
  rintro c ⟨rfl⟩
  decide

theorem bracedNumber?_closed {digits : List Char} (all : HexDigits digits)
    (text : List Char) : bracedNumber? (digits ++ '}' :: text) =
      if digits ≠ [] ∧ digitsValue 16 digits ≤ 0x10FFFF then some (digitsValue 16 digits) else none := by
  unfold bracedNumber?
  rw [takeWhile_exact all closes_digits]
  simp

theorem bracedNumber?_open {digits text : List Char} (all : HexDigits digits)
    (broken : ∀ c, text.head? = some c → isHexDigit c = false ∧ c ≠ '}') :
    bracedNumber? (digits ++ text) = none := by
  unfold bracedNumber?
  rw [takeWhile_exact all fun c head => (broken c head).1]
  rw [if_neg]
  rintro ⟨_, close, _⟩
  rw [List.getElem?_append_right (Nat.le_refl _), Nat.sub_self, ← List.head?_eq_getElem?] at close
  exact (broken '}' close).2 rfl

theorem unicodeNumber?_braced (text : List Char) : unicodeNumber? ('{' :: text) = bracedNumber? text :=
  rfl

theorem unicodeNumber?_digits {digits : List Char} (all : HexDigits digits)
    (count : digits.length = 4) (text : List Char) :
    unicodeNumber? (digits ++ text) = some (digitsValue 16 digits) := by
  have plain : (digits ++ text).head? ≠ some '{' := by
    cases digits with
    | nil => simp at count
    | cons c digits =>
      rintro ⟨rfl⟩
      exact absurd (all '{' (by simp)) (by decide)
  rw [unicodeNumber?, if_neg plain, hexPrefix?_digits all count]
  rfl

theorem unicodeNumber?_short {digits text : List Char} (all : HexDigits digits)
    (short : digits.length < 4)
    (broken : ∀ c, text.head? = some c → isHexDigit c = false ∧ (digits = [] → c ≠ '{')) :
    unicodeNumber? (digits ++ text) = none := by
  have plain : (digits ++ text).head? ≠ some '{' := by
    cases digits with
    | nil => exact fun brace => (broken '{' brace).2 rfl rfl
    | cons c digits =>
      rintro ⟨rfl⟩
      exact absurd (all '{' (by simp)) (by decide)
  rw [unicodeNumber?, if_neg plain, hexPrefix?_short short fun c head => (broken c head).1]
  rfl

/-- A number cut off past the last code point stands for no character, as the number itself does. -/
theorem scalar?_braced {digits : List Char} (all : HexDigits digits)
    (some_ : digits ≠ []) (text : List Char) :
    (unicodeNumber? ('{' :: (digits ++ '}' :: text))).bind scalar? =
      scalar? (min (digitsValue 16 digits) 0x110000) := by
  rw [unicodeNumber?_braced, bracedNumber?_closed all]
  by_cases small : digitsValue 16 digits ≤ 0x10FFFF
  · rw [if_pos ⟨some_, small⟩, Nat.min_eq_left (by omega)]
    rfl
  · rw [if_neg fun both => small both.2, Nat.min_eq_right (by omega)]
    rfl

theorem Counted.ne_nil {digits : List Char} (counted : Counted digits) : digits ≠ [] := by
  rintro rfl
  exact absurd counted (by decide)

theorem countsDigits_braced {digits : List Char} (all : HexDigits digits) (text : List Char)
    (broken : ∀ c, text.head? = some c → isHexDigit c = false) :
    countsDigits ('{' :: (digits ++ text)) = decide (Counted digits) := by
  rw [countsDigits, List.tail_cons, takeWhile_exact all broken]
  rfl

theorem countsDigits_digits {digits : List Char} (all : HexDigits digits) (some_ : digits ≠ [])
    (text : List Char) : countsDigits (digits ++ text) = true := by
  obtain ⟨c, digits, rfl⟩ := List.exists_cons_of_ne_nil some_
  have plain : c ≠ '{' := by
    rintro rfl
    exact absurd (all '{' (by simp)) (by decide)
  simp [countsDigits, plain]

/-- The number that a unicode escape writes after its letter: four digits, or any in braces. -/
inductive WrittenNumber : List Char → Nat → Prop
  | four {digits} : HexDigits digits → digits.length = 4 → WrittenNumber digits (digitsValue 16 digits)
  | braced {digits} : HexDigits digits → digits ≠ [] →
      WrittenNumber ('{' :: (digits ++ ['}'])) (digitsValue 16 digits)

variable {whole : Bool → List Char → Bool} {first : Bool}

theorem firstBroken?_plain {c : Char} (plain : c ≠ '\\') (text : List Char) :
    firstBroken? whole first (c :: text) = (firstBroken? whole false text).map (· + 1) := by
  rw [firstBroken?]
  · intro same _
    exact plain same
  · intro d rest same _
    exact plain same

theorem firstBroken?_plain_append {cs : List Char} (plain : '\\' ∉ cs) (text : List Char) :
    firstBroken? whole false (cs ++ text) = (firstBroken? whole false text).map (· + cs.length) := by
  induction cs with
  | nil => simp
  | cons c cs ih =>
    have head : c ≠ '\\' := fun same => plain (by simp [same])
    rw [List.cons_append, firstBroken?_plain head, ih fun member => plain (by simp [member]),
      Option.map_map]
    congr 1

theorem firstBroken?_whole {c : Char} {tail text : List Char} (whole_ : whole first (c :: tail ++ text))
    (plain : '\\' ∉ tail) :
    firstBroken? whole first ('\\' :: (c :: tail ++ text)) =
      (firstBroken? whole false text).map (· + (tail.length + 2)) := by
  rw [List.cons_append] at whole_ ⊢
  rw [firstBroken?, if_pos whole_, firstBroken?_plain_append plain, Option.map_map]
  congr 1

theorem firstBroken?_broken {text : List Char} (broken : whole first text = false) :
    firstBroken? whole first ('\\' :: text) = some 0 := by
  cases text with
  | nil => rfl
  | cons c text => simp [firstBroken?, broken]

theorem firstBroken?_backslash {text : List Char} {k : Nat}
    (found : firstBroken? whole first text = some k) : text[k]? = some '\\' := by
  fun_induction firstBroken? whole first text generalizing k with
  | case1 => cases found
  | case2 =>
    cases found
    rfl
  | case3 first c text whole_ ih =>
    obtain ⟨j, later, rfl⟩ := Option.map_eq_some_iff.1 found
    exact ih later
  | case4 first c text broken =>
    cases found
    rfl
  | case5 first c text other other' ih =>
    obtain ⟨j, later, rfl⟩ := Option.map_eq_some_iff.1 found
    exact ih later

theorem brokenEscape?_backslash [Library] {mode : Mode} {slice : List Char} {k : Nat}
    (found : brokenEscape? mode slice = some k) : slice[k]? = some '\\' := by
  unfold brokenEscape? at found
  split at found
  · exact firstBroken?_backslash found
  · exact firstBroken?_backslash found

/-- A zero that a digit follows is no escape in strict code. -/
example [Library] : brokenEscape? .strict ['\'', '\\', '0', '8', '\''] = some 1 := rfl

end EcmaLex
