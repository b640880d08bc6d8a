import EcmaLex.Proofs.Grammar.LeadingToken
import EcmaLex.Proofs.Reading.Escapes
import EcmaLex.Proofs.Reading.Places

/-!
String literals keep what they have read, less a bare line terminator. The place that a malformed
literal reports is that of the first broken escape of its slice.
-/
namespace EcmaLex
open Text

variable {mode : Mode} {first : Bool} {read : List Mark} {loc : Location} {c : Char}

theorem wholeInString_x (text : List Char) :
    wholeInString mode first ('x' :: text) = (hexPrefix? 2 text).isSome := rfl

theorem wholeInString_u (text : List Char) :
    wholeInString mode first ('u' :: text) = (unicodeNumber? text).isSome := rfl

theorem wholeInString_plain (hex : c ≠ 'x') (unicode : c ≠ 'u')
    (free : isDecimalDigit c = false ∨ mode = .sloppy) (text : List Char) :
    wholeInString mode first (c :: text) = true := by
  rcases free with other | rfl
  · simp [wholeInString, hex, unicode, other]
  · simp [wholeInString, hex, unicode]

theorem wholeInString_digit (digit : isDecimalDigit c = true) (text : List Char) :
    wholeInString .strict first (c :: text) = (c == '0' && !text.head?.any isDecimalDigit) := by
  have hex : c ≠ 'x' := by rintro rfl; revert digit; decide
  have unicode : c ≠ 'u' := by rintro rfl; revert digit; decide
  simp [wholeInString, hex, unicode, digit, bne]

/-- What a phase knows of what has been read; the escape being read started at `start`. -/
def StringPhase.Reads (mode : Mode) (start : Location) (read : List Mark) : StringPhase → Prop
  | .normal => ∀ text, Unbroken (wholeInString mode) read text
  | .escape => Escaping (wholeInString mode) false read start []
  | .hex remaining _ => ∃ digits, HexDigits digits ∧
      digits.length + remaining = 2 ∧ 0 < remaining ∧
      Escaping (wholeInString mode) false read start ('x' :: digits)
  | .unicodeStart => Escaping (wholeInString mode) false read start ['u']
  | .unicode remaining _ => ∃ digits, HexDigits digits ∧
      digits.length + remaining = 4 ∧ 0 < remaining ∧ digits ≠ [] ∧
      Escaping (wholeInString mode) false read start ('u' :: digits)
  | .codePoint value count => ∃ digits, HexDigits digits ∧
      value = min (digitsValue 16 digits) StringScanner.pastCodePoints ∧ (count = 0 ↔ digits = []) ∧
      Escaping (wholeInString mode) false read start ('u' :: '{' :: digits)
  | .legacyOctal _ _ _ => ∀ text, Unbroken (wholeInString mode) read text
  | .strictZero => mode = .strict ∧ Escaping (wholeInString mode) false read start ['0']

namespace StringScanner

variable {s : StringScanner}

/-- A scanner knows the first broken escape, or what its phase knows. -/
def Reads (s : StringScanner) (read : List Mark) : Prop :=
  match s.fault with
  | some loc => ∀ text, BrokenAt (wholeInString s.mode) read loc text
  | none => s.phase.Reads s.mode s.escapeAt read

/-- A scanner that is about to read a plain character. -/
def Settled (s : StringScanner) (read : List Mark) (c : Char) : Prop :=
  s.phase = .normal ∧
    match s.fault with
    | some loc => ∀ text, BrokenAt (wholeInString s.mode) read loc (c :: text)
    | none => ∀ text, Unbroken (wholeInString s.mode) read (c :: text)

/-- What no step changes; a fault stays the first one. -/
structure Keeps (s s' : StringScanner) : Prop where
  mode : s'.mode = s.mode
  quote : s'.quote = s.quote
  fault : ∀ loc, s.fault = some loc → s'.fault = some loc

theorem Keeps.trans {s s' s'' : StringScanner} (first : s.Keeps s') (second : s'.Keeps s'') :
    s.Keeps s'' :=
  ⟨second.mode.trans first.mode, second.quote.trans first.quote, fun loc known =>
    second.fault loc (first.fault loc known)⟩

theorem keeps_phase (s : StringScanner) (phase : StringPhase) (text : Utf16Text) (start : Location) :
    s.Keeps { s with phase, text, escapeAt := start } :=
  ⟨rfl, rfl, fun _ => id⟩

theorem fail_keeps (s : StringScanner) (phase : StringPhase) : s.Keeps (s.fail.setPhase phase) :=
  ⟨rfl, rfl, fun _ known => by simp [fail, setPhase, known]⟩

theorem feedNormal_keeps (s : StringScanner) (c : Char) (loc : Location) :
    s.Keeps (s.feedNormal (some c) loc).2 := by
  unfold feedNormal
  split
  · exact s.keeps_phase _ _ _
  · exact s.keeps_phase _ _ _
  · split
    · exact s.keeps_phase _ _ _
    · split <;> exact s.keeps_phase _ _ _

theorem feedEscape_keeps (s : StringScanner) (c : Char) : s.Keeps (s.feedEscape c) := by
  unfold feedEscape
  split
  · exact s.keeps_phase _ _ _
  · split
    · exact s.keeps_phase _ _ _
    · split
      · exact s.keeps_phase _ _ _
      · split
        · unfold escapeDigit
          split
          · split
            · exact s.keeps_phase _ _ _
            · exact s.fail_keeps .normal
          · split <;> exact s.keeps_phase _ _ _
        · exact s.keeps_phase _ _ _

theorem feedCodePoint?_keeps {s s' : StringScanner} {value digits : Nat} {c : Char}
    (fed : s.feedCodePoint? value digits c = some s') : s.Keeps s' := by
  unfold feedCodePoint? at fed
  split at fed
  · split at fed <;> cases fed
    · exact s.fail_keeps .normal
    · exact s.keeps_phase _ _ _
  · obtain ⟨digit, _, rfl⟩ := Option.map_eq_some_iff.1 fed
    exact s.keeps_phase _ _ _

theorem feed_keeps (s : StringScanner) (c : Char) (loc : Location) :
    s.Keeps (s.feed (some c) loc).2 := by
  have plain (s' : StringScanner) (kept : s.Keeps s') : s.Keeps (s'.feedNormal (some c) loc).2 :=
    kept.trans (feedNormal_keeps s' c loc)
  have broken : s.Keeps (s.breakEscape (some c) loc).2 := plain _ (s.fail_keeps .normal)
  unfold feed
  cases s.phase with
  | normal => exact feedNormal_keeps s c loc
  | escape => exact feedEscape_keeps s c
  | hex remaining value =>
    simp only
    split
    · exact broken
    · split <;> exact s.keeps_phase _ _ _
  | unicodeStart =>
    simp only
    split
    · exact s.keeps_phase _ _ _
    · split
      · exact broken
      · exact s.keeps_phase _ _ _
  | unicode remaining value =>
    simp only
    split
    · exact broken
    · split <;> exact s.keeps_phase _ _ _
  | codePoint value digits =>
    simp only
    split
    · exact broken
    · rename_i s' fed
      exact feedCodePoint?_keeps fed
  | legacyOctal value digits most =>
    simp only
    split
    · split
      · split <;> exact s.keeps_phase _ _ _
      · exact plain _ (s.keeps_phase _ _ _)
    · exact plain _ (s.keeps_phase _ _ _)
  | strictZero =>
    simp only
    split
    · exact broken
    · exact plain _ (s.keeps_phase _ _ _)

/-! ### One character -/

theorem reads_fault {s : StringScanner} (known : s.fault = some loc)
    (broken : ∀ text, BrokenAt (wholeInString s.mode) read loc text) : s.Reads read := by
  unfold Reads
  rw [known]
  exact broken

theorem reads_phase {s : StringScanner} (clear : s.fault = none)
    (reads : s.phase.Reads s.mode s.escapeAt read) : s.Reads read := by
  unfold Reads
  rw [clear]
  exact reads

theorem Settled.reads {s : StringScanner} (settled : s.Settled read c) (quote : s.quote ≠ '\\')
    (some_ : read ≠ []) (loc : Location) :
    (s.feedNormal (some c) loc).2.Reads (read ++ [(c, loc)]) := by
  obtain ⟨normal, known⟩ := settled
  have kept := feedNormal_keeps s c loc
  cases fault : s.fault with
  | some start =>
    rw [fault] at known
    refine reads_fault (kept.fault start fault) ?_
    rw [kept.mode]
    exact fun text => (known text).push
  | none =>
    rw [fault] at known
    have plain (other : c ≠ '\\') (text : List Char) :
        Unbroken (wholeInString s.mode) (read ++ [(c, loc)]) text :=
      Unbroken.plain (known text) other
    unfold feedNormal
    split
    · contradiction
    · rename_i same
      cases same
      exact reads_phase fault (by rw [normal]; exact plain (by decide))
    · rename_i d other same
      cases same
      split
      · rename_i closes
        exact reads_phase fault (by rw [normal]; exact plain (closes ▸ quote))
      · split
        · rename_i backslash
          subst backslash
          have begun := Escaping.start known loc
          rw [List.isEmpty_eq_false_iff.2 some_] at begun
          exact reads_phase fault begun
        · rename_i other
          exact reads_phase fault (plain other)

/-- A character that breaks an escape is plain, and the escape is the first broken one. -/
theorem breakEscape_reads {s : StringScanner} (clear : s.fault = none) (quote : s.quote ≠ '\\')
    (some_ : read ≠ []) (broken : ∀ text, BrokenAt (wholeInString s.mode) read s.escapeAt (c :: text))
    (loc : Location) : (s.breakEscape (some c) loc).2.Reads (read ++ [(c, loc)]) := by
  have fault : (s.fail.setPhase .normal).fault = some s.escapeAt := by simp [fail, setPhase, clear]
  refine Settled.reads (s := s.fail.setPhase .normal) ⟨rfl, ?_⟩ quote some_ loc
  rw [fault]
  exact broken

theorem feedEscape_reads {s : StringScanner} (clear : s.fault = none)
    (escaping : Escaping (wholeInString s.mode) false read s.escapeAt []) (loc : Location) :
    (s.feedEscape c).Reads (read ++ [(c, loc)]) := by
  have pushed : Escaping (wholeInString s.mode) false (read ++ [(c, loc)]) s.escapeAt [c] :=
    escaping.push (c, loc)
  have plain (whole : ∀ text, wholeInString s.mode false (c :: text) = true) (text : List Char) :
      Unbroken (wholeInString s.mode) (read ++ [(c, loc)]) text :=
    pushed.unbroken (whole text) (by simp)
  unfold feedEscape
  by_cases continued : c = '\n'
  · rw [if_pos continued]
    subst continued
    exact reads_phase clear (plain (wholeInString_plain (by decide) (by decide) (.inl (by decide))))
  rw [if_neg continued]
  by_cases hex : c = 'x'
  · rw [if_pos hex]
    subst hex
    exact reads_phase clear ⟨[], .nil, rfl, by decide, pushed⟩
  rw [if_neg hex]
  by_cases unicode : c = 'u'
  · rw [if_pos unicode]
    subst unicode
    exact reads_phase clear pushed
  rw [if_neg unicode]
  by_cases digit : isDecimalDigit c
  · rw [if_pos digit]
    unfold escapeDigit
    cases mode : s.mode with
    | strict =>
      by_cases zero : c = '0'
      · simp only [if_pos zero]
        subst zero
        exact reads_phase clear ⟨mode, pushed⟩
      · simp only [if_neg zero]
        have fault : (s.setPhase .normal).fail.fault = some s.escapeAt := by
          simp [fail, setPhase, clear]
        refine reads_fault fault ?_
        intro text
        apply pushed.broken
        change wholeInString s.mode false (c :: text) = false
        rw [mode, wholeInString_digit digit, beq_eq_false_iff_ne.2 zero, Bool.false_and]
    | sloppy =>
      have whole := plain (wholeInString_plain hex unicode (.inr mode))
      cases octalValue? c with
      | none => exact reads_phase clear whole
      | some value => exact reads_phase clear whole
  · rw [if_neg digit]
    have other : isDecimalDigit c = false := eq_false_of_ne_true digit
    exact reads_phase clear (plain (wholeInString_plain hex unicode (.inl other)))

theorem hex_reads {s : StringScanner} {remaining value : Nat} (clear : s.fault = none)
    (quote : s.quote ≠ '\\') (some_ : read ≠ []) (phase : s.phase = .hex remaining value)
    (reads : s.phase.Reads s.mode s.escapeAt read) (loc : Location) :
    (s.feed (some c) loc).2.Reads (read ++ [(c, loc)]) := by
  rw [phase] at reads
  obtain ⟨digits, all, count, more, escaping⟩ := reads
  unfold feed
  simp only [phase, Option.bind_some]
  cases value : hexValue? c with
  | none =>
    apply breakEscape_reads clear quote some_
    intro text
    apply escaping.broken
    rw [List.cons_append, wholeInString_x, hexPrefix?_short (by omega) (by simp [isHexDigit, value])]
    rfl
  | some digit =>
    have pushed := escaping.push (c, loc)
    have all' := all.push value
    by_cases last : remaining = 1
    · simp only [if_pos last]
      refine reads_phase clear ?_
      intro text
      refine pushed.unbroken ?_ all'.plain
      change wholeInString s.mode false ('x' :: (digits ++ [c] ++ text)) = true
      rw [wholeInString_x, hexPrefix?_digits all' (by simp; omega)]
      rfl
    · simp only [if_neg last]
      refine reads_phase clear ⟨digits ++ [c], all', ?_, ?_, pushed⟩
      · rw [List.length_append, List.length_singleton]
        omega
      · omega

theorem unicode_broken {s : StringScanner} {digits : List Char}
    (all : HexDigits digits) (short : digits.length < 4)
    (escaping : Escaping (wholeInString s.mode) false read s.escapeAt ('u' :: digits))
    (value : hexValue? c = none) (brace : digits = [] → c ≠ '{') (text : List Char) :
    BrokenAt (wholeInString s.mode) read s.escapeAt (c :: text) := by
  refine escaping.broken ?_
  rw [List.cons_append, wholeInString_u, unicodeNumber?_short all short]
  · rfl
  · rintro d ⟨rfl⟩
    exact ⟨by simp [isHexDigit, value], brace⟩

theorem unicodeDigit_reads {s : StringScanner} {remaining : Nat} {digits : List Char} {digit : Nat}
    (clear : s.fault = none) (all : HexDigits digits)
    (count : digits.length + remaining = 4) (more : 0 < remaining)
    (escaping : Escaping (wholeInString s.mode) false read s.escapeAt ('u' :: digits))
    (value : hexValue? c = some digit) (n : Nat) (loc : Location) :
    (if remaining = 1 then s.plainUnit n else s.setPhase (.unicode (remaining - 1) n)).Reads
      (read ++ [(c, loc)]) := by
  have pushed := escaping.push (c, loc)
  have all' := all.push value
  by_cases last : remaining = 1
  · rw [if_pos last]
    refine reads_phase clear ?_
    intro text
    refine pushed.unbroken ?_ all'.plain
    change wholeInString s.mode false ('u' :: (digits ++ [c] ++ text)) = true
    rw [wholeInString_u, unicodeNumber?_digits all' (by simp; omega)]
    rfl
  · rw [if_neg last]
    refine reads_phase clear ⟨digits ++ [c], all', ?_, ?_, by simp, pushed⟩
    · rw [List.length_append, List.length_singleton]
      omega
    · omega

theorem codePoint_closed {s : StringScanner} {digits : List Char}
    (all : HexDigits digits) (text : List Char) :
    wholeInString s.mode false ('u' :: '{' :: digits ++ ['}'] ++ text) =
      decide (digits ≠ [] ∧ digitsValue 16 digits ≤ 0x10FFFF) := by
  have shape : 'u' :: '{' :: digits ++ ['}'] ++ text = 'u' :: '{' :: (digits ++ '}' :: text) := by
    simp
  rw [shape, wholeInString_u, unicodeNumber?_braced, bracedNumber?_closed all]
  split <;> simp_all

theorem codePoint_reads {s : StringScanner} {value count : Nat} (clear : s.fault = none)
    (quote : s.quote ≠ '\\') (some_ : read ≠ []) (phase : s.phase = .codePoint value count)
    (reads : s.phase.Reads s.mode s.escapeAt read) (loc : Location) :
    (s.feed (some c) loc).2.Reads (read ++ [(c, loc)]) := by
  rw [phase] at reads
  obtain ⟨digits, all, known, counted, escaping⟩ := reads
  have pushed := escaping.push (c, loc)
  unfold feed
  simp only [phase, Option.bind_some, feedCodePoint?]
  by_cases closes : c = '}'
  · subst closes
    by_cases bad : count = 0 ∨ pastCodePoints ≤ value
    · simp only [if_pos bad, if_true]
      have fault : (s.fail.setPhase .normal).fault = some s.escapeAt := by
        simp [fail, setPhase, clear]
      refine reads_fault fault ?_
      intro text
      apply pushed.broken
      refine (codePoint_closed all text).trans (decide_eq_false ?_)
      rintro ⟨some_, small⟩
      rcases bad with empty | large
      · exact some_ (counted.1 empty)
      · unfold pastCodePoints at known large
        omega
    · simp only [if_neg bad, if_true]
      have small : digits ≠ [] ∧ digitsValue 16 digits ≤ 0x10FFFF := by
        refine ⟨fun empty => bad (.inl (counted.2 empty)), ?_⟩
        by_contra large
        refine bad (.inr ?_)
        unfold pastCodePoints at known ⊢
        omega
      refine reads_phase clear ?_
      intro text
      apply pushed.unbroken
      · exact (codePoint_closed all text).trans (decide_eq_true small)
      · have plain := all.plain
        simp [plain]
  · simp only [if_neg closes]
    cases digit? : hexValue? c with
    | none =>
      apply breakEscape_reads clear quote some_
      intro text
      apply escaping.broken
      change wholeInString s.mode false ('u' :: '{' :: (digits ++ c :: text)) = false
      rw [wholeInString_u, unicodeNumber?_braced, bracedNumber?_open all]
      · rfl
      · rintro d ⟨rfl⟩
        exact ⟨by simp [isHexDigit, digit?], closes⟩
    | some digit =>
      refine reads_phase clear ⟨digits ++ [c], all.push digit?, ?_, by simp [mostCounted], pushed⟩
      rw [known, digitsValue_push, digit?, Option.getD_some]
      unfold pastCodePoints
      omega

theorem octal_plain {value : Nat} (digit : octalValue? c = some value) : c ≠ '\\' := by
  rintro rfl
  cases digit

theorem legacyOctal_reads {s : StringScanner} {value digits most : Nat} (clear : s.fault = none)
    (quote : s.quote ≠ '\\') (some_ : read ≠ []) (phase : s.phase = .legacyOctal value digits most)
    (reads : s.phase.Reads s.mode s.escapeAt read) (loc : Location) :
    (s.feed (some c) loc).2.Reads (read ++ [(c, loc)]) := by
  rw [phase] at reads
  have settled : (s.plainUnit value).Settled read c := by
    refine ⟨rfl, ?_⟩
    rw [show (s.plainUnit value).fault = none from clear]
    exact fun text => reads (c :: text)
  unfold feed
  simp only [phase, Option.bind_some]
  cases digit? : octalValue? c with
  | none => exact settled.reads quote some_ loc
  | some digit =>
    have unbroken (text : List Char) : Unbroken (wholeInString s.mode) (read ++ [(c, loc)]) text :=
      Unbroken.plain (reads (c :: text)) (octal_plain digit?)
    by_cases short : digits < most
    · simp only [if_pos short]
      split <;> exact reads_phase clear unbroken
    · simp only [if_neg short]
      exact settled.reads quote some_ loc

theorem strictZero_reads {s : StringScanner} (clear : s.fault = none) (quote : s.quote ≠ '\\')
    (some_ : read ≠ []) (phase : s.phase = .strictZero)
    (reads : s.phase.Reads s.mode s.escapeAt read) (loc : Location) :
    (s.feed (some c) loc).2.Reads (read ++ [(c, loc)]) := by
  rw [phase] at reads
  obtain ⟨strict, escaping⟩ := reads
  have judged (text : List Char) :
      wholeInString s.mode false (['0'] ++ c :: text) = !isDecimalDigit c := by
    rw [strict]
    exact (wholeInString_digit (by decide) _).trans (by simp)
  unfold feed
  simp only [phase, Option.any_some]
  by_cases digit : isDecimalDigit c = true
  · rw [if_pos digit]
    apply breakEscape_reads clear quote some_
    intro text
    apply escaping.broken
    rw [judged, digit]
    rfl
  · rw [if_neg digit]
    refine Settled.reads (s := s.plainChar '\x00') ⟨rfl, ?_⟩ quote some_ loc
    rw [show (s.plainChar '\x00').fault = none from clear]
    intro text
    refine escaping.unbroken ((judged text).trans ?_) (by simp)
    simpa using digit

/-- What a scanner knows stays true with one more character. -/
theorem feed_reads {s : StringScanner} (quote : s.quote ≠ '\\') (some_ : read ≠ [])
    (reads : s.Reads read) (c : Char) (loc : Location) :
    (s.feed (some c) loc).2.Reads (read ++ [(c, loc)]) := by
  unfold Reads at reads
  cases clear : s.fault with
  | some start =>
    rw [clear] at reads
    have kept := s.feed_keeps c loc
    refine reads_fault (kept.fault start clear) ?_
    rw [kept.mode]
    exact fun text => (reads (c :: text)).push
  | none =>
    rw [clear] at reads
    cases phase : s.phase with
    | normal =>
      have settled : s.Settled read c := by
        rw [phase] at reads
        refine ⟨phase, ?_⟩
        rw [clear]
        exact fun text => reads (c :: text)
      unfold feed
      rw [phase]
      exact settled.reads quote some_ loc
    | escape =>
      rw [phase] at reads
      unfold feed
      rw [phase]
      exact feedEscape_reads clear reads loc
    | hex remaining value => exact hex_reads clear quote some_ phase reads loc
    | unicodeStart =>
      rw [phase] at reads
      unfold feed
      simp only [phase, Option.bind_some, Option.some.injEq]
      by_cases brace : c = '{'
      · rw [if_pos brace]
        subst brace
        exact reads_phase clear ⟨[], .nil, rfl, by simp, reads.push ('{', loc)⟩
      · rw [if_neg brace]
        cases value : hexValue? c with
        | none =>
          refine breakEscape_reads clear quote some_ ?_ loc
          exact unicode_broken .nil (by decide) reads value fun _ => brace
        | some digit =>
          have count : ([] : List Char).length + 4 = 4 := rfl
          exact unicodeDigit_reads clear .nil count (by decide) reads value digit loc
    | unicode remaining value =>
      rw [phase] at reads
      obtain ⟨digits, all, count, more, begun, escaping⟩ := reads
      unfold feed
      simp only [phase, Option.bind_some]
      cases value? : hexValue? c with
      | none =>
        refine breakEscape_reads clear quote some_ ?_ loc
        exact unicode_broken all (by omega) escaping value? fun empty => absurd empty begun
      | some digit => exact unicodeDigit_reads clear all count more escaping value? _ loc
    | codePoint value count => exact codePoint_reads clear quote some_ phase reads loc
    | legacyOctal value digits most => exact legacyOctal_reads clear quote some_ phase reads loc
    | strictZero => exact strictZero_reads clear quote some_ phase reads loc

end StringScanner

/-- A literal that reports a broken escape reports the first one. -/
theorem stringRecognizer_rule (mode : Mode) :
    stringRecognizer.Rule
      (fun s read => s.mode = mode ∧ s.quote ≠ '\\' ∧ read ≠ [] ∧ s.Reads read)
      (fun result slice _ => slice ≠ [] ∧
        ∀ loc, result = .malformedEscape loc → BrokenAt (wholeInString mode) slice loc []) where
  drop _ passed := by simp [Tape.dropped, stringRecognizer] at passed
  more := by
    rintro s read c loc s' ⟨mode_, quote, some_, reads⟩ _ stepped
    have kept := s.feed_keeps c loc
    have reads' := StringScanner.feed_reads quote some_ reads c loc
    simp only [stringRecognizer] at stepped
    split at stepped <;> cases stepped
    rename_i fed
    rw [fed] at kept reads'
    exact ⟨kept.mode.trans mode_, kept.quote ▸ quote, by simp, reads'⟩
  stop := by
    rintro s read c loc back result after ⟨mode_, quote, some_, reads⟩ kept_ stepped
    have kept := s.feed_keeps c loc
    have reads' := StringScanner.feed_reads quote some_ reads c loc
    simp only [stringRecognizer] at stepped
    split at stepped <;> cases stepped
    · rename_i s' fed
      rw [fed] at kept reads'
      refine .all ⟨by simp, ?_⟩
      intro start malformed
      unfold StringScanner.outcome StringScanner.finish at malformed
      cases fault : s'.fault with
      | none => rw [fault] at malformed; cases malformed
      | some known =>
        rw [fault] at malformed
        cases malformed
        unfold StringScanner.Reads at reads'
        rw [fault, kept.mode, mode_] at reads'
        exact reads' []
    · exact .last kept_ ⟨some_, by simp⟩
  atEnd := by
    rintro s read ⟨_, _, some_, _⟩
    exact .all ⟨some_, by simp [stringRecognizer]⟩

theorem stringRecognizer_tape {t₀ t : Tape} {quote : Mark} (took : t₀.Took false [quote] t)
    (quotes : quote.1 = '\x22' ∨ quote.1 = '\x27') (mode : Mode) :
    ∃ result slice t', stringRecognizer.run (.start quote.1 mode) t = (.ok result, t') ∧
      t₀.Took false slice t' ∧
      (slice ≠ [] ∧ ∀ loc, result = .malformedEscape loc → BrokenAt (wholeInString mode) slice loc []) ∧
      stringAt mode quote.1 (marked t.ahead) = (result.bare, slice.length) := by
  have plain : quote.1 ≠ '\\' := by
    rcases quotes with same | same <;> rw [same] <;> decide
  have reads : (StringScanner.start quote.1 mode).Reads [quote] := by
    refine StringScanner.reads_phase rfl ?_
    intro text
    exact firstBroken?_plain plain text
  exact (stringRecognizer_rule mode).run_cut stringRecognizer_placeless rfl
    ⟨rfl, plain, by simp, reads⟩ took

end EcmaLex
