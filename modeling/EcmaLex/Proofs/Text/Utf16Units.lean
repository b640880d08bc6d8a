import EcmaLex.Proofs.Text.Utf8Sequences
import EcmaLex.Text.Utf16

/-!
Sequences of UTF-16 code units and the text they stand for. Collecting the units one by one, with a
high surrogate that waits for its partner, gives the same text (`toList_pushUnits`).
-/
namespace EcmaLex.Text

/-- The code units of a code point. -/
def utf16Units (n : Nat) : List Nat :=
  if n < 0x10000 then [n] else [0xD800 + (n - 0x10000) / 0x400, 0xDC00 + (n - 0x10000) % 0x400]

/-- The character of a unit that stands alone; a surrogate has none. -/
def unitChar (unit : Nat) : Char := (scalar? unit).getD Utf8.replacement

/-- The text of a sequence of units. A high surrogate right before a low one makes a character with it;
every other surrogate is replaced. -/
def utf16Lossy : List Nat → List Char
  | [] => []
  | [unit] => [unitChar unit]
  | high :: low :: units =>
    if Utf16Text.isHighSurrogate high && Utf16Text.isLowSurrogate low then
      Utf16Text.pair high low :: utf16Lossy units
    else unitChar high :: utf16Lossy (low :: units)

theorem unitChar_surrogate {unit : Nat} (low : 0xD800 ≤ unit) (high : unit ≤ 0xDFFF) :
    unitChar unit = Utf8.replacement := by
  rw [unitChar, scalar?, if_neg (by simp only [Nat.isValidChar]; omega)]
  rfl

theorem unitChar_toNat (c : Char) : unitChar c.toNat = c := by
  rw [unitChar, scalar?, if_pos (show c.toNat.isValidChar from c.valid), Char.ofNat_toNat]
  rfl

/-- Only a high surrogate looks at the unit after it. -/
theorem utf16Lossy_single {unit : Nat} (alone : Utf16Text.isHighSurrogate unit = false) (units : List Nat) :
    utf16Lossy (unit :: units) = unitChar unit :: utf16Lossy units := by
  cases units with
  | nil => rfl
  | cons next units => simp [utf16Lossy, alone]

theorem utf16Lossy_unpaired {next : Nat} (alone : Utf16Text.isLowSurrogate next = false) (unit : Nat)
    (units : List Nat) :
    utf16Lossy (unit :: next :: units) = unitChar unit :: utf16Lossy (next :: units) := by
  simp [utf16Lossy, alone]

namespace Utf16Text

theorem isHighSurrogate_iff {unit : Nat} :
    isHighSurrogate unit = true ↔ 0xD800 ≤ unit ∧ unit ≤ 0xDBFF := by simp [isHighSurrogate]

theorem isLowSurrogate_iff {unit : Nat} :
    isLowSurrogate unit = true ↔ 0xDC00 ≤ unit ∧ unit ≤ 0xDFFF := by simp [isLowSurrogate]

theorem not_high {unit : Nat} (outside : unit < 0xD800 ∨ 0xDBFF < unit) : isHighSurrogate unit = false := by
  rw [← Bool.not_eq_true, isHighSurrogate_iff]
  omega

theorem not_low {unit : Nat} (outside : unit < 0xDC00 ∨ 0xDFFF < unit) : isLowSurrogate unit = false := by
  rw [← Bool.not_eq_true, isLowSurrogate_iff]
  omega

theorem pushUnit_high {t : Utf16Text} {unit : Nat} (high : isHighSurrogate unit = true) :
    t.pushUnit unit = { chars := t.settle.chars, high := some unit } := by
  rw [pushUnit, if_pos high]

theorem pushUnit_plain {t : Utf16Text} {unit : Nat} (high : isHighSurrogate unit = false)
    (low : isLowSurrogate unit = false) : t.pushUnit unit = t.pushChar (unitChar unit) := by
  simp [pushUnit, high, low, unitChar]

/-- What waits is a high surrogate. -/
def Waits (t : Utf16Text) : Prop := ∀ high, t.high = some high → isHighSurrogate high = true

/-- The text that has been collected once these units have come; a surrogate that waits is the first of
them. -/
def spelled (t : Utf16Text) (units : List Nat) : List Char :=
  t.chars.reverse ++ utf16Lossy (t.high.toList ++ units)

variable {t : Utf16Text} {unit : Nat}

theorem Waits.alone (waits : t.Waits) {high : Nat} (some_ : t.high = some high) :
    unitChar high = Utf8.replacement := by
  have bounds := isHighSurrogate_iff.1 (waits high some_)
  exact unitChar_surrogate bounds.1 (by omega)

theorem spelled_high (waits : t.Waits) (isHigh : isHighSurrogate unit = true) (units : List Nat) :
    (t.pushUnit unit).spelled units = t.spelled (unit :: units) := by
  have bounds := isHighSurrogate_iff.1 isHigh
  have notLow : isLowSurrogate unit = false := not_low (by omega)
  rw [pushUnit_high isHigh]
  obtain ⟨chars, _ | high⟩ := t
  · rfl
  · simp [spelled, settle, utf16Lossy_unpaired notLow, waits.alone rfl]

theorem spelled_low (waits : t.Waits) (isHigh : isHighSurrogate unit = false)
    (isLow : isLowSurrogate unit = true) (units : List Nat) :
    (t.pushUnit unit).spelled units = t.spelled (unit :: units) := by
  obtain ⟨chars, _ | high⟩ := t
  · have bounds := isLowSurrogate_iff.1 isLow
    simp [spelled, pushUnit, isHigh, isLow, utf16Lossy_single isHigh, unitChar_surrogate (by omega) bounds.2]
  · simp [spelled, pushUnit, isHigh, isLow, utf16Lossy, waits high rfl]

theorem spelled_plain (waits : t.Waits) (isHigh : isHighSurrogate unit = false)
    (isLow : isLowSurrogate unit = false) (units : List Nat) :
    (t.pushUnit unit).spelled units = t.spelled (unit :: units) := by
  rw [pushUnit_plain isHigh isLow]
  obtain ⟨chars, _ | high⟩ := t
  · simp [spelled, pushChar, settle, utf16Lossy_single isHigh]
  · simp [spelled, pushChar, settle, utf16Lossy_unpaired isLow, utf16Lossy_single isHigh, waits.alone rfl]

theorem spelled_pushUnit (waits : t.Waits) (unit : Nat) (units : List Nat) :
    (t.pushUnit unit).spelled units = t.spelled (unit :: units) := by
  by_cases isHigh : isHighSurrogate unit = true
  · exact spelled_high waits isHigh units
  · by_cases isLow : isLowSurrogate unit = true
    · exact spelled_low waits (eq_false_of_ne_true isHigh) isLow units
    · exact spelled_plain waits (eq_false_of_ne_true isHigh) (eq_false_of_ne_true isLow) units

theorem waits_pushUnit (t : Utf16Text) (unit : Nat) : (t.pushUnit unit).Waits := by
  intro high waiting
  unfold pushUnit at waiting
  split at waiting
  · rename_i isHigh
    obtain rfl := Option.some.inj waiting
    exact isHigh
  · split at waiting
    · split at waiting <;> cases waiting
    · cases waiting

theorem settle_spelled (waits : t.Waits) : t.settle.chars.reverse = t.spelled [] := by
  obtain ⟨chars, _ | high⟩ := t
  · simp [spelled, settle, utf16Lossy]
  · simp [spelled, settle, utf16Lossy, waits.alone rfl]

theorem settle_pushUnits (waits : t.Waits) (units : List Nat) :
    (units.foldl pushUnit t).settle.chars.reverse = t.spelled units := by
  induction units generalizing t with
  | nil => exact settle_spelled waits
  | cons unit units ih => rw [List.foldl_cons, ih (waits_pushUnit t unit), spelled_pushUnit waits]

theorem toList_pushUnits (units : List Nat) :
    (units.foldl pushUnit {}).settle.toList = utf16Lossy units :=
  settle_pushUnits (by simp [Waits]) units

theorem pair_units {n : Nat} (supplementary : 0x10000 ≤ n) (inside : n ≤ 0x10FFFF) :
    pair (0xD800 + (n - 0x10000) / 0x400) (0xDC00 + (n - 0x10000) % 0x400) = Char.ofNat n := by
  have value : 0x10000 + (0xD800 + (n - 0x10000) / 0x400 - 0xD800) * 0x400 +
      (0xDC00 + (n - 0x10000) % 0x400 - 0xDC00) = n := by omega
  rw [pair, value]

/-- A code point counts as its units, a surrogate as itself. -/
theorem pushUnit_eq (t : Utf16Text) {n : Nat} (inside : n ≤ 0x10FFFF) :
    t.pushUnit n = (utf16Units n).foldl pushUnit t := by
  unfold utf16Units
  split
  · rfl
  · rename_i large
    have plain : isHighSurrogate n = false ∧ isLowSurrogate n = false :=
      ⟨not_high (by omega), not_low (by omega)⟩
    have high : isHighSurrogate (0xD800 + (n - 0x10000) / 0x400) = true := by
      rw [isHighSurrogate_iff]
      omega
    have low : isLowSurrogate (0xDC00 + (n - 0x10000) % 0x400) = true := by
      rw [isLowSurrogate_iff]
      omega
    have notHigh : isHighSurrogate (0xDC00 + (n - 0x10000) % 0x400) = false := not_high (by omega)
    have whole : unitChar n = Char.ofNat n := by
      rw [unitChar, scalar?, if_pos (by simp only [Nat.isValidChar]; omega)]
      rfl
    rw [pushUnit_plain plain.1 plain.2, whole, List.foldl_cons, List.foldl_cons, List.foldl_nil,
      pushUnit_high high]
    simp only [pushUnit, notHigh, low, if_true, Bool.false_eq_true, if_false]
    rw [pair_units (by omega) inside, pushChar]

theorem pushChar_eq (t : Utf16Text) (c : Char) :
    t.pushChar c = (utf16Units c.toNat).foldl pushUnit t := by
  have valid := Utf8.char_toNat_valid c
  have plain : isHighSurrogate c.toNat = false ∧ isLowSurrogate c.toNat = false :=
    ⟨not_high (by omega), not_low (by omega)⟩
  rw [← pushUnit_eq t (by omega), pushUnit_plain plain.1 plain.2, unitChar_toNat]

theorem settle_pushChars (text : List Char) {t : Utf16Text} (settled : t.high = none) :
    (text.foldl pushChar t).settle.toList = t.chars.reverse ++ text := by
  induction text generalizing t with
  | nil => simp [settle, settled, toList]
  | cons c text ih =>
    rw [List.foldl_cons, ih rfl]
    simp [pushChar, settle, settled]

/-- Text survives its own code units. -/
theorem utf16Lossy_units (text : List Char) :
    utf16Lossy (text.flatMap fun c => utf16Units c.toNat) = text := by
  rw [← toList_pushUnits, List.foldl_flatMap]
  simp only [← pushChar_eq]
  exact settle_pushChars text rfl

end Utf16Text

/-- Texts are decoded apart unless a surrogate pair lies across. -/
theorem utf16Lossy_append {front back : List Nat}
    (apart : ∀ high low, front.getLast? = some high → back.head? = some low →
      Utf16Text.isHighSurrogate high = true → Utf16Text.isLowSurrogate low = false) :
    utf16Lossy (front ++ back) = utf16Lossy front ++ utf16Lossy back := by
  fun_induction utf16Lossy front with
  | case1 => rfl
  | case2 unit =>
    by_cases high : Utf16Text.isHighSurrogate unit = true
    · cases back with
      | nil => rfl
      | cons low back => exact utf16Lossy_unpaired (apart unit low rfl rfl high) unit back
    · exact utf16Lossy_single (eq_false_of_ne_true high) back
  | case3 high low units paired ih =>
    have rest := ih fun last first ends => apart last first (by simp [List.getLast?_cons, ends])
    rw [List.cons_append, List.cons_append, utf16Lossy, if_pos paired, rest, List.cons_append]
  | case4 high low units unpaired ih =>
    have rest := ih fun last first ends => apart last first (by simpa [List.getLast?_cons] using ends)
    rw [List.cons_append, List.cons_append, utf16Lossy, if_neg unpaired, ← List.cons_append, rest,
      List.cons_append]

/-- Units that neither begin with a low surrogate nor end with a high one are decoded by themselves. -/
theorem utf16Lossy_between {middle : List Nat} (front back : List Nat) (some_ : middle ≠ [])
    (begins : ∀ unit, middle.head? = some unit → Utf16Text.isLowSurrogate unit = false)
    (ends : ∀ unit, middle.getLast? = some unit → Utf16Text.isHighSurrogate unit = false) :
    utf16Lossy (front ++ (middle ++ back)) = utf16Lossy front ++ (utf16Lossy middle ++ utf16Lossy back) := by
  rw [utf16Lossy_append, utf16Lossy_append]
  · intro high low last _ surrogate
    rw [ends high last] at surrogate
    cases surrogate
  · intro high low _ first _
    obtain ⟨unit, rest, rfl⟩ := List.exists_cons_of_ne_nil some_
    obtain rfl := Option.some.inj first
    exact begins unit rfl

theorem utf16Lossy_raw (front back : List Nat) (c : Char) :
    utf16Lossy (front ++ (utf16Units c.toNat ++ back)) = utf16Lossy front ++ c :: utf16Lossy back := by
  have valid := Utf8.char_toNat_valid c
  have alone : utf16Lossy (utf16Units c.toNat) = [c] := by
    simpa using Utf16Text.utf16Lossy_units [c]
  have between : utf16Lossy (front ++ (utf16Units c.toNat ++ back)) =
      utf16Lossy front ++ (utf16Lossy (utf16Units c.toNat) ++ utf16Lossy back) := by
    apply utf16Lossy_between
    · unfold utf16Units
      split <;> simp
    · intro unit first
      apply Utf16Text.not_low
      unfold utf16Units at first
      split at first <;> cases first <;> omega
    · intro unit last
      apply Utf16Text.not_high
      unfold utf16Units at last
      split at last
      · simp only [List.getLast?_singleton, Option.some.injEq] at last
        omega
      · simp only [List.getLast?_cons_cons, List.getLast?_singleton, Option.some.injEq] at last
        omega
  rw [between, alone]
  rfl

theorem utf16Lossy_pair {high low : Nat} (front back : List Nat)
    (isHigh : Utf16Text.isHighSurrogate high = true) (isLow : Utf16Text.isLowSurrogate low = true) :
    utf16Lossy (front ++ (high :: low :: back)) =
      utf16Lossy front ++ Utf16Text.pair high low :: utf16Lossy back := by
  have alone : utf16Lossy [high, low] = [Utf16Text.pair high low] := by
    simp [utf16Lossy, isHigh, isLow]
  have between : utf16Lossy (front ++ ([high, low] ++ back)) =
      utf16Lossy front ++ (utf16Lossy [high, low] ++ utf16Lossy back) := by
    have bounds := Utf16Text.isHighSurrogate_iff.1 isHigh
    have bounds' := Utf16Text.isLowSurrogate_iff.1 isLow
    apply utf16Lossy_between _ _ (by simp)
    · rintro unit ⟨rfl⟩
      exact Utf16Text.not_low (by omega)
    · intro unit last
      simp only [List.getLast?_cons_cons, List.getLast?_singleton, Option.some.injEq] at last
      exact Utf16Text.not_high (by omega)
  rw [alone] at between
  exact between

end EcmaLex.Text
