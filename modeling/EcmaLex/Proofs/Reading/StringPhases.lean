import EcmaLex.Proofs.Reading.StringBodies

/-!
The escape that a string scanner is inside of. Every phase has come from the characters behind a backslash, and
its counters and its value are told from them (`fed_spelled`), whatever the scanner has been fed before.
-/
namespace EcmaLex
open Text

def OctalDigits (digits : List Char) : Prop := ∀ c ∈ digits, isOctalDigit c = true

theorem OctalDigits.push {digits : List Char} {c : Char} (all : OctalDigits digits) (octal : isOctalDigit c = true) :
    OctalDigits (digits ++ [c]) := by
  intro d member
  rcases List.mem_append.1 member with before | last
  · exact all d before
  · rw [List.mem_singleton.1 last]
    exact octal

theorem isOctalDigit_of_value {c : Char} {value : ℕ} (known : StringScanner.octalValue? c = some value) :
    isOctalDigit c = true := by
  by_contra other
  simp [StringScanner.octalValue?, other] at known

namespace StringPhase
open StringScanner

/-- The phases that a character leads to while the escape goes on. -/
inductive Leads (mode : Mode) (c : Char) : StringPhase → StringPhase → Prop
  | hexMark : c = 'x' → Leads mode c .escape (.hex 2 0)
  | unicodeMark : c = 'u' → Leads mode c .escape .unicodeStart
  | zero : mode = .strict → c = '0' → Leads mode c .escape .strictZero
  | octal {value} : mode = .sloppy → octalValue? c = some value →
      Leads mode c .escape (.legacyOctal value 1 (mostOctalDigits value))
  | hexDigit {remaining value digit} : hexValue? c = some digit → remaining ≠ 1 →
      Leads mode c (.hex remaining value) (.hex (remaining - 1) (value * 16 + digit))
  | brace : c = '{' → Leads mode c .unicodeStart (.codePoint 0 0)
  | firstDigit {digit} : hexValue? c = some digit → Leads mode c .unicodeStart (.unicode 3 digit)
  | unicodeDigit {remaining value digit} : hexValue? c = some digit → remaining ≠ 1 →
      Leads mode c (.unicode remaining value) (.unicode (remaining - 1) (value * 16 + digit))
  | bracedDigit {value digits digit} : hexValue? c = some digit →
      Leads mode c (.codePoint value digits)
        (.codePoint (min (value * 16 + digit) pastCodePoints) (min (digits + 1) mostCounted))
  | octalDigit {value digits most digit} : octalValue? c = some digit → digits < most → digits + 1 ≠ most →
      Leads mode c (.legacyOctal value digits most) (.legacyOctal (value * 8 + digit) (digits + 1) most)

/-- The characters behind the backslash that lead to a phase. -/
inductive Spelled (mode : Mode) : List Char → StringPhase → Prop
  | escape : Spelled mode [] .escape
  | hex {digits} : HexDigits digits → digits.length < 2 →
      Spelled mode ('x' :: digits) (.hex (2 - digits.length) (digitsValue 16 digits))
  | unicodeStart : Spelled mode ['u'] .unicodeStart
  | unicode {digits} : digits ≠ [] → HexDigits digits → digits.length < 4 →
      Spelled mode ('u' :: digits) (.unicode (4 - digits.length) (digitsValue 16 digits))
  | codePoint {digits} : HexDigits digits →
      Spelled mode ('u' :: '{' :: digits)
        (.codePoint (min (digitsValue 16 digits) pastCodePoints) (min digits.length mostCounted))
  | legacyOctal {first digits} : mode = .sloppy → OctalDigits (first :: digits) →
      digits.length + 1 < mostOctalDigits (digitsValue 8 [first]) →
      Spelled mode (first :: digits)
        (.legacyOctal (digitsValue 8 (first :: digits)) (digits.length + 1)
          (mostOctalDigits (digitsValue 8 [first])))
  | strictZero : mode = .strict → Spelled mode ['0'] .strictZero

variable {mode : Mode} {text : List Char} {c : Char} {p p' : StringPhase}

theorem digitsValue_digit {digit : ℕ} (value : hexValue? c = some digit) (digits : List Char) :
    digitsValue 16 (digits ++ [c]) = digitsValue 16 digits * 16 + digit := by
  rw [digitsValue_push, value, Option.getD_some]

theorem digitsValue_octal {digit : ℕ} (value : octalValue? c = some digit) (digits : List Char) :
    digitsValue 8 (digits ++ [c]) = digitsValue 8 digits * 8 + digit := by
  have octal := isOctalDigit_of_value value
  rw [octalValue?_eq octal, digitsValue_one] at value
  rw [digitsValue_push, Option.some.inj value]

theorem length_push (digits : List Char) (c : Char) : (digits ++ [c]).length = digits.length + 1 := by
  rw [List.length_append, List.length_singleton]

/-- The text of an escape grows with every character that the escape goes on with. -/
theorem Spelled.leads (spelled : Spelled mode text p) (leads : Leads mode c p p') :
    Spelled mode (text ++ [c]) p' := by
  cases leads with
  | hexMark mark =>
    cases spelled
    subst mark
    exact .hex .nil Nat.zero_lt_two
  | unicodeMark mark =>
    cases spelled
    subst mark
    exact .unicodeStart
  | zero strict same =>
    cases spelled
    subst same
    exact .strictZero strict
  | @octal value sloppy known =>
    cases spelled
    have octal := isOctalDigit_of_value known
    have one : digitsValue 8 [c] = value := by
      rw [octalValue?_eq octal] at known
      exact Option.some.inj known
    have room : ([] : List Char).length + 1 < mostOctalDigits (digitsValue 8 [c]) := by
      unfold mostOctalDigits
      split <;> decide
    have all : OctalDigits [c] := by
      intro d member
      rw [List.mem_singleton.1 member]
      exact octal
    rw [← one]
    exact .legacyOctal sloppy all room
  | hexDigit value more =>
    cases spelled with
    | @hex digits all few =>
      have longer := length_push digits c
      have next : Spelled mode ('x' :: (digits ++ [c])) _ := .hex (all.push value) (by omega)
      rw [longer, ← Nat.sub_sub, digitsValue_digit value] at next
      exact next
  | brace mark =>
    cases spelled
    subst mark
    exact .codePoint .nil
  | @firstDigit digit value =>
    cases spelled
    have one : digitsValue 16 [c] = digit := by simp [digitsValue, value]
    have next : Spelled mode ('u' :: [c]) _ := .unicode (by simp) (HexDigits.nil.push value) (by simp)
    rw [one] at next
    exact next
  | unicodeDigit value more =>
    cases spelled with
    | @unicode digits begun all few =>
      have longer := length_push digits c
      have next : Spelled mode ('u' :: (digits ++ [c])) _ := .unicode (by simp) (all.push value) (by omega)
      rw [longer, ← Nat.sub_sub, digitsValue_digit value] at next
      exact next
  | @bracedDigit _ _ digit value =>
    cases spelled with
    | @codePoint digits all =>
      -- A number that was cut off at the limit stays there.
      have number : min (min (digitsValue 16 digits) pastCodePoints * 16 + digit) pastCodePoints =
          min (digitsValue 16 (digits ++ [c])) pastCodePoints := by
        rw [digitsValue_digit value]
        unfold pastCodePoints
        omega
      have count : min (min digits.length mostCounted + 1) mostCounted =
          min (digits ++ [c]).length mostCounted := by
        rw [length_push]
        omega
      rw [number, count]
      exact .codePoint (all.push value)
  | octalDigit value more room =>
    cases spelled with
    | @legacyOctal first digits sloppy all few =>
      have longer := length_push digits c
      have next : Spelled mode (first :: (digits ++ [c])) _ :=
        .legacyOctal sloppy (all.push (isOctalDigit_of_value value)) (by omega)
      rw [longer, ← List.cons_append, digitsValue_octal value] at next
      exact next

end StringPhase

namespace StringScanner

variable {s s' : StringScanner} {mode : Mode} {text : List Char} {c : Option Char} {loc : Location}

/-- What becomes of a scanner at the end of an escape. -/
inductive Ends (s : StringScanner) : StringScanner → Prop
  | nothing : Ends s (s.setPhase .normal)
  | char (c : Char) : Ends s (s.plainChar c)
  | unit (unit : ℕ) : Ends s (s.plainUnit unit)
  | broken : Ends s (s.fail.setPhase .normal)

/-- What an input does to a scanner. An escape ends with a character of its own, or before the input, which is
then read as plain text. -/
inductive Fed (s : StringScanner) (c : Option Char) (loc : Location) : StringStep × StringScanner → Prop
  | normal : s.phase = .normal → Fed s c loc (s.feedNormal c loc)
  | waited : s.phase = .escape → c = none → Fed s c loc (.unterminated, s)
  | led {d p} : c = some d → s.phase.Leads s.mode d p → Fed s c loc (.proceed, s.setPhase p)
  | ended {t} : s.Ends t → Fed s c loc (.proceed, t)
  | left {t} : s.Ends t → Fed s c loc (t.feedNormal c loc)

theorem feedEscape_fed (phase : s.phase = .escape) (d : Char) : s.Fed (some d) loc (.proceed, s.feedEscape d) := by
  have led {p : StringPhase} (leads : StringPhase.Leads s.mode d .escape p) :
      s.Fed (some d) loc (.proceed, s.setPhase p) := .led rfl (phase ▸ leads)
  have digit : s.Fed (some d) loc (.proceed, s.escapeDigit d) := by
    unfold escapeDigit
    split
    · rename_i strict
      split
      · rename_i zero
        exact led (.zero strict zero)
      · exact .ended .broken
    · rename_i sloppy
      split
      · rename_i value known
        exact led (.octal sloppy known)
      · exact .ended (.char d)
  unfold feedEscape
  split
  · exact .ended .nothing
  · split
    · rename_i mark
      exact led (.hexMark mark)
    · split
      · rename_i mark
        exact led (.unicodeMark mark)
      · split
        · exact digit
        · exact .ended (.char _)

theorem feed_fed (s : StringScanner) (c : Option Char) (loc : Location) : s.Fed c loc (s.feed c loc) := by
  have broken : s.Fed c loc (s.breakEscape c loc) := .left .broken
  unfold feed
  cases phase : s.phase with
  | normal => exact .normal phase
  | escape =>
    cases c with
    | none => exact .waited phase rfl
    | some d => exact feedEscape_fed phase d
  | hex remaining value =>
    simp only
    split
    · exact broken
    · rename_i digit known
      obtain ⟨d, rfl, value_⟩ := Option.bind_eq_some_iff.1 known
      split
      · exact .ended (.unit _)
      · rename_i more
        exact .led rfl (phase ▸ .hexDigit value_ more)
  | unicodeStart =>
    simp only
    split
    · rename_i brace
      exact .led brace (phase ▸ .brace rfl)
    · split
      · exact broken
      · rename_i digit known
        obtain ⟨d, rfl, value⟩ := Option.bind_eq_some_iff.1 known
        exact .led rfl (phase ▸ .firstDigit value)
  | unicode remaining value =>
    simp only
    split
    · exact broken
    · rename_i digit known
      obtain ⟨d, rfl, value_⟩ := Option.bind_eq_some_iff.1 known
      split
      · exact .ended (.unit _)
      · rename_i more
        exact .led rfl (phase ▸ .unicodeDigit value_ more)
  | codePoint value digits =>
    simp only
    split
    · exact broken
    · rename_i s' known
      obtain ⟨d, rfl, fed⟩ := Option.bind_eq_some_iff.1 known
      unfold feedCodePoint? at fed
      split at fed
      · split at fed <;> cases fed
        · exact .ended .broken
        · exact .ended (.unit value)
      · obtain ⟨digit, value_, rfl⟩ := Option.map_eq_some_iff.1 fed
        exact .led rfl (phase ▸ .bracedDigit value_)
  | legacyOctal value digits most =>
    simp only
    split
    · rename_i digit known
      obtain ⟨d, rfl, value_⟩ := Option.bind_eq_some_iff.1 known
      split
      · rename_i more
        split
        · exact .ended (.unit _)
        · rename_i room
          exact .led rfl (phase ▸ .octalDigit value_ more room)
      · exact .left (.unit value)
    · exact .left (.unit value)
  | strictZero =>
    simp only
    split
    · exact broken
    · exact .left (.char '\x00')

/-- The mode stays, and what waits in the text is a high surrogate. -/
structure Steady (mode : Mode) (s : StringScanner) : Prop where
  mode_eq : s.mode = mode
  waits : s.text.Waits

theorem Steady.start (quote : Char) (mode : Mode) : (StringScanner.start quote mode).Steady mode := ⟨rfl, nofun⟩

theorem Steady.ends (steady : s.Steady mode) (ends : s.Ends s') : s'.Steady mode := by
  cases ends with
  | nothing => exact ⟨steady.mode_eq, steady.waits⟩
  | char c => exact ⟨steady.mode_eq, nofun⟩
  | unit unit => exact ⟨steady.mode_eq, s.text.waits_pushUnit unit⟩
  | broken => exact ⟨steady.mode_eq, steady.waits⟩

theorem Steady.settle (steady : s.Steady mode) : s.text.settle.Waits := by
  intro high waiting
  unfold Utf16Text.settle at waiting
  split at waiting
  · cases waiting
  · exact steady.waits high waiting

theorem Steady.feedNormal (steady : s.Steady mode) (c : Option Char) (loc : Location) :
    (s.feedNormal c loc).2.Steady mode := by
  unfold StringScanner.feedNormal
  split
  · exact steady
  · exact steady
  · split
    · exact ⟨steady.mode_eq, steady.settle⟩
    · split
      · exact ⟨steady.mode_eq, steady.waits⟩
      · exact steady.ends (.char _)

theorem Steady.feed (steady : s.Steady mode) (c : Option Char) (loc : Location) :
    (s.feed c loc).2.Steady mode := by
  have fed := s.feed_fed c loc
  generalize s.feed c loc = result at *
  cases fed with
  | normal _ => exact steady.feedNormal c loc
  | waited _ _ => exact steady
  | led _ _ => exact ⟨steady.mode_eq, steady.waits⟩
  | ended ends => exact steady.ends ends
  | left ends => exact (steady.ends ends).feedNormal c loc

/-- The escape that was begun last in these inputs has gone on with this text, and nothing else has come since.
The end of input may have been met right behind its backslash. -/
def EscapeBehind (inputs : List (Option Char)) (text : List Char) : Prop :=
  ∃ before ends, inputs = before ++ some '\\' :: (List.replicate ends none ++ text.map some)

/-- A scanner is inside the escape of its phase, or in no escape. -/
def InEscape (mode : Mode) (inputs : List (Option Char)) (phase : StringPhase) : Prop :=
  phase = .normal ∨ ∃ text, EscapeBehind inputs text ∧ phase.Spelled mode text

variable {inputs : List (Option Char)}

theorem Ends.phase (ends : s.Ends s') : s'.phase = .normal := by
  cases ends <;> rfl

/-- Plain text leads into an escape by a backslash only. -/
theorem inEscape_feedNormal (normal : s.phase = .normal) (mode : Mode) (inputs : List (Option Char))
    (c : Option Char) (loc : Location) : InEscape mode (inputs ++ [c]) (s.feedNormal c loc).2.phase := by
  unfold feedNormal
  split
  · exact .inl normal
  · exact .inl normal
  · split
    · exact .inl normal
    · split
      · rename_i backslash
        subst backslash
        exact .inr ⟨[], ⟨inputs, 0, by simp⟩, .escape⟩
      · exact .inl rfl

theorem EscapeBehind.push (behind : EscapeBehind inputs text) (d : Char) :
    EscapeBehind (inputs ++ [some d]) (text ++ [d]) := by
  obtain ⟨before, ends, rfl⟩ := behind
  exact ⟨before, ends, by simp⟩

theorem EscapeBehind.wait (behind : EscapeBehind inputs []) : EscapeBehind (inputs ++ [none]) [] := by
  obtain ⟨before, ends, rfl⟩ := behind
  refine ⟨before, ends + 1, ?_⟩
  rw [List.replicate_succ']
  simp

theorem inEscape_feed (steady : s.Steady mode) (inside : InEscape mode inputs s.phase) (c : Option Char)
    (loc : Location) : InEscape mode (inputs ++ [c]) (s.feed c loc).2.phase := by
  have fed := s.feed_fed c loc
  generalize s.feed c loc = result at *
  cases fed with
  | normal phase => exact inEscape_feedNormal phase mode inputs c loc
  | waited phase ended =>
    subst ended
    rw [phase] at inside
    obtain ⟨text, behind, spelled⟩ := inside.resolve_left nofun
    cases spelled
    change InEscape mode _ s.phase
    rw [phase]
    exact .inr ⟨[], behind.wait, .escape⟩
  | @led d p some_ leads =>
    subst some_
    rw [steady.mode_eq] at leads
    rcases inside with normal | ⟨text, behind, spelled⟩
    · rw [normal] at leads
      cases leads
    · exact .inr ⟨text ++ [d], behind.push d, spelled.leads leads⟩
  | ended ends => exact .inl ends.phase
  | left ends => exact inEscape_feedNormal ends.phase mode inputs c loc

/-- The scanner behind these inputs, each at its place. -/
def fed (s : StringScanner) (inputs : List (Option Char × Location)) : StringScanner :=
  inputs.foldl (fun s m => (s.feed m.1 m.2).2) s

/-- Whatever a new scanner is fed, it is inside the escape of its phase or in none. -/
theorem fed_spelled (quote : Char) (mode : Mode) (inputs : List (Option Char × Location)) :
    ((start quote mode).fed inputs).Steady mode ∧
      InEscape mode (inputs.map Prod.fst) ((start quote mode).fed inputs).phase := by
  induction inputs using List.reverseRecOn with
  | nil => exact ⟨.start quote mode, .inl rfl⟩
  | append_singleton inputs m ih =>
    obtain ⟨steady, inside⟩ := ih
    have last : (start quote mode).fed (inputs ++ [m]) =
        (((start quote mode).fed inputs).feed m.1 m.2).2 := List.foldl_append
    rw [last, List.map_append]
    exact ⟨steady.feed m.1 m.2, inEscape_feed steady inside m.1 m.2⟩

end StringScanner
end EcmaLex
