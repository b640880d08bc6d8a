import EcmaLex.Proofs.Reading.Answers
import EcmaLex.Proofs.Reading.StringBodies

/-!
How far a string literal reaches. Its escapes are read in many phases, but no phase except the one right
after a backslash keeps a quote, a backslash or a line terminator for itself. So the literal ends where the
first of them stands that no backslash escapes, whatever its escapes are (`stringLiteral_extent`).
-/
namespace EcmaLex
open Text

/-- The inside of a literal: no unescaped quote, no unescaped line terminator, and no backslash without the
character that it escapes. -/
inductive Inside (quote : Char) : List Char → Prop
  | nil : Inside quote []
  | plain {c text} : c ≠ quote → c ≠ '\\' → c ≠ '\n' → Inside quote text → Inside quote (c :: text)
  | escaped {c text} : Inside quote text → Inside quote ('\\' :: c :: text)

/-- What a literal still takes behind its inside, what is left for later, and whether it is closed. -/
inductive LiteralEnd (quote : Char) : List Char → List Char → Bool → Prop
  | quote {rest} : LiteralEnd quote [quote] rest true
  | lineTerminator {rest} : LiteralEnd quote [] ('\n' :: rest) false
  | input : LiteralEnd quote [] [] false
  | backslash : LiteralEnd quote ['\\'] [] false

variable {quote c : Char} {text : List Char} {loc : Location}

/-- Every text is cut where a literal would end. -/
theorem exists_inside (quote : Char) (text : List Char) :
    ∃ inside last rest closed, text = inside ++ (last ++ rest) ∧ Inside quote inside ∧
      LiteralEnd quote last rest closed := by
  -- On the length of the text: an escape takes two characters.
  induction size : text.length using Nat.strongRecOn generalizing text with
  | ind n ih =>
    subst size
    rcases text with _ | ⟨c, text⟩
    · exact ⟨[], [], [], false, rfl, .nil, .input⟩
    by_cases closing : c = quote
    · subst closing
      exact ⟨[], [c], text, true, rfl, .nil, .quote⟩
    by_cases line : c = '\n'
    · subst line
      exact ⟨[], [], '\n' :: text, false, rfl, .nil, .lineTerminator⟩
    by_cases escape : c = '\\'
    · subst escape
      rcases text with _ | ⟨d, text⟩
      · exact ⟨[], ['\\'], [], false, rfl, .nil, .backslash⟩
      have shorter : text.length < ('\\' :: d :: text).length := by simp only [List.length_cons]; omega
      obtain ⟨inside, last, rest, closed, rfl, within, ends⟩ := ih text.length shorter text rfl
      exact ⟨'\\' :: d :: inside, last, rest, closed, rfl, .escaped within, ends⟩
    · obtain ⟨inside, last, rest, closed, rfl, within, ends⟩ := ih text.length (by simp) text rfl
      exact ⟨c :: inside, last, rest, closed, rfl, .plain closing escape line within, ends⟩

namespace StringScanner

variable {s : StringScanner}

/-- Only digits and braces belong to an escape that has begun; before anything else the scanner settles. -/
theorem settles_or_goes_on (s : StringScanner) (begun : s.phase ≠ .escape) (c : Char) :
    (∃ text fault, s.Settles s.quote s.mode text fault c) ∨
      (isHexDigit c = true ∨ c = '{' ∨ c = '}') ∧ ∀ loc, ∃ s', s.feed (some c) loc = (.proceed, s') ∧
        s'.phase ≠ .escape := by
  have broken (known : ∀ loc, s.feed (some c) loc = s.breakEscape (some c) loc) :
      ∃ text fault, s.Settles s.quote s.mode text fault c := ⟨s.text, s.fail.fault, s.escapeAt, known⟩
  cases phase : s.phase with
  | normal =>
    obtain ⟨quote, mode, _, text, start, fault⟩ := s
    cases phase
    exact .inl ⟨text, fault, settles_normal start c⟩
  | escape => exact absurd phase begun
  | hex remaining value =>
    cases digit : hexValue? c with
    | none => exact .inl (broken fun loc => hex_fixed.other loc phase digit)
    | some digit' =>
      refine .inr ⟨.inl (isHexDigit_of_value digit), fun loc => ⟨_, hex_fixed.digit loc phase digit, ?_⟩⟩
      split <;> simp [plainUnit, setPhase]
  | unicodeStart =>
    by_cases brace : c = '{'
    · subst brace
      refine .inr ⟨.inr (.inl rfl), fun loc => ⟨s.setPhase (.codePoint 0 0), ?_, by simp [setPhase]⟩⟩
      simp only [feed, phase, if_true]
    · have other : some c ≠ some '{' := fun same => brace (Option.some.inj same)
      cases digit : hexValue? c with
      | none => exact .inl (broken fun loc => by simp only [feed, phase, if_neg other, Option.bind_some, digit])
      | some digit' =>
        refine .inr ⟨.inl (isHexDigit_of_value digit),
          fun loc => ⟨s.setPhase (.unicode 3 digit'), ?_, by simp [setPhase]⟩⟩
        simp only [feed, phase, if_neg other, Option.bind_some, digit]
  | unicode remaining value =>
    cases digit : hexValue? c with
    | none => exact .inl (broken fun loc => unicode_fixed.other loc phase digit)
    | some digit' =>
      refine .inr ⟨.inl (isHexDigit_of_value digit), fun loc => ⟨_, unicode_fixed.digit loc phase digit, ?_⟩⟩
      split <;> simp [plainUnit, setPhase]
  | codePoint value digits =>
    cases fed : s.feedCodePoint? value digits c with
    | none => exact .inl (broken fun loc => by simp only [feed, phase, Option.bind_some, fed])
    | some s' =>
      refine .inr ?_
      have goes (loc : Location) : s.feed (some c) loc = (.proceed, s') := by
        simp only [feed, phase, Option.bind_some, fed]
      unfold feedCodePoint? at fed
      split at fed
      · rename_i brace
        refine ⟨.inr (.inr brace), fun loc => ⟨s', goes loc, ?_⟩⟩
        split at fed <;> cases fed <;> simp [plainUnit, setPhase]
      · obtain ⟨digit', digit, rfl⟩ := Option.map_eq_some_iff.1 fed
        exact ⟨.inl (isHexDigit_of_value digit), fun loc => ⟨_, goes loc, by simp [setPhase]⟩⟩
  | legacyOctal value digits most =>
    by_cases more : isOctalDigit c = true ∧ digits < most
    · have hex : isHexDigit c = true := by
        rw [isHexDigit, hexValue?_decimal (isDecimalDigit_of_octal more.1)]
        rfl
      refine .inr ⟨.inl hex, fun loc => ?_⟩
      simp only [feed, phase, Option.bind_some, octalValue?_eq more.1, if_pos more.2]
      refine ⟨_, rfl, ?_⟩
      split <;> simp [plainUnit, setPhase]
    · refine .inl ⟨s.text.pushUnit value, s.fault, s.escapeAt, fun loc => ?_⟩
      simp only [feed, phase, Option.bind_some]
      cases octal : octalValue? c with
      | none => rfl
      | some digit =>
        have digit_ : isOctalDigit c = true := by
          by_contra other
          simp [octalValue?, other] at octal
        simp only [if_neg fun few => more ⟨digit_, few⟩]
        rfl
  | strictZero =>
    by_cases digit : isDecimalDigit c = true
    · refine .inl (broken fun loc => ?_)
      simp only [feed, phase, Option.any_some, digit, if_true]
      rfl
    · refine .inl ⟨s.text.pushChar '\x00', s.fault, s.escapeAt, fun loc => ?_⟩
      simp only [feed, phase, Option.any_some, if_neg digit]
      rfl

theorem escapeDigit_phase (s : StringScanner) (c : Char) : (s.escapeDigit c).phase ≠ .escape := by
  unfold escapeDigit
  split
  · split <;> simp [setPhase, fail]
  · split <;> simp [setPhase, plainChar]

theorem feedEscape_phase (s : StringScanner) (c : Char) : (s.feedEscape c).phase ≠ .escape := by
  by_cases digit : isDecimalDigit c = true
  · unfold feedEscape
    rw [if_pos digit]
    have taken := s.escapeDigit_phase c
    repeat' split
    all_goals first | exact taken | simp [setPhase]
  · unfold feedEscape
    rw [if_neg digit]
    repeat' split
    all_goals simp [setPhase, plainChar]

/-- A state in which the next character is not escaped. -/
structure Open (quote : Char) (s : StringScanner) : Prop where
  quote : s.quote = quote
  begun : s.phase ≠ .escape

theorem step_proceed {s' : StringScanner} (fed : s.feed (some c) loc = (.proceed, s')) :
    stringRecognizer.step s c loc = .more s' := by
  simp only [stringRecognizer, fed]

theorem step_closed {s' : StringScanner} (fed : s.feed (some c) loc = (.closed, s')) :
    stringRecognizer.step s c loc = .stop [] s'.outcome := by
  simp only [stringRecognizer, fed]

theorem feed_quote {s' : StringScanner} {answer : StringStep} (fed : s.feed (some c) loc = (answer, s')) :
    s'.quote = s.quote := by
  have kept := (s.feed_keeps c loc).quote
  rwa [fed] at kept

theorem Open.step_plain (opened : s.Open quote) (closing : c ≠ quote) (escape : c ≠ '\\') (line : c ≠ '\n')
    (loc : Location) : ∃ s', stringRecognizer.step s c loc = .more s' ∧ s'.Open quote := by
  rcases s.settles_or_goes_on opened.begun c with ⟨text, fault, settles⟩ | ⟨_, goes⟩
  · rw [opened.quote] at settles
    obtain ⟨start, fed⟩ := settles_plain settles closing escape line loc
    exact ⟨_, step_proceed fed, rfl, by simp⟩
  · obtain ⟨s', fed, begun⟩ := goes loc
    exact ⟨s', step_proceed fed, (feed_quote fed).trans opened.quote, begun⟩

/-- What no escape takes as its own, the scanner settles before. -/
theorem Open.settles (opened : s.Open quote) (other : ¬(isHexDigit c = true ∨ c = '{' ∨ c = '}')) :
    ∃ text fault, s.Settles quote s.mode text fault c := by
  rcases s.settles_or_goes_on opened.begun c with ⟨text, fault, settles⟩ | ⟨inner, _⟩
  · rw [opened.quote] at settles
    exact ⟨text, fault, settles⟩
  · exact absurd inner other

/-- A backslash and any character behind it. -/
theorem Open.step_escaped (opened : s.Open quote) (quotes : quote ≠ '\\') (c : Char) (loc loc' : Location) :
    ∃ s', stringRecognizer.Passes s [('\\', loc), (c, loc')] s' ∧ s'.Open quote := by
  obtain ⟨text, fault, settles⟩ := opened.settles (c := '\\') (by decide)
  have begun := step_proceed (settles_backslash settles quotes loc)
  have fed : (escaped quote s.mode text loc fault).feed (some c) loc' =
      (.proceed, (escaped quote s.mode text loc fault).feedEscape c) := rfl
  exact ⟨_, .cons begun (.one (step_proceed fed)), feed_quote fed, feedEscape_phase _ c⟩

theorem Open.passes {marks : List Mark} (opened : s.Open quote) (quotes : quote ≠ '\\')
    (inside : Inside quote (marked marks)) :
    ∃ s', stringRecognizer.Passes s marks s' ∧ s'.Open quote := by
  -- On the derivation of the inside; each of its pieces leaves the scanner open.
  generalize known : marked marks = text at inside
  induction inside generalizing s marks with
  | nil =>
    obtain rfl := List.map_eq_nil_iff.1 known
    exact ⟨s, .nil s, opened⟩
  | @plain c text closing escape line _ ih =>
    obtain ⟨loc, marks, rfl, rest⟩ := marked_eq_cons known
    obtain ⟨s₁, stepped, opened₁⟩ := opened.step_plain closing escape line loc
    obtain ⟨s', passes, opened'⟩ := ih opened₁ rest
    exact ⟨s', .cons stepped passes, opened'⟩
  | @escaped c text _ ih =>
    obtain ⟨loc, _, rfl, rest⟩ := marked_eq_cons known
    obtain ⟨loc', marks, rfl, rest'⟩ := marked_eq_cons rest
    obtain ⟨s₁, first, opened₁⟩ := opened.step_escaped quotes c loc loc'
    obtain ⟨s', passes, opened'⟩ := ih opened₁ rest'
    exact ⟨s', first.append passes, opened'⟩

/-- Where a literal ends, an open scanner answers. -/
theorem Open.answers {last rest : List Mark} {closed : Bool} (opened : s.Open quote)
    (quotes : quote = '\x22' ∨ quote = '\x27') (ends : LiteralEnd quote (marked last) (marked rest) closed) :
    ∃ result, stringRecognizer.Answers s last rest result ∧ (result ≠ .unterminated ↔ closed = true) := by
  have plain : quote ≠ '\\' ∧ quote ≠ '\n' := by rcases quotes with rfl | rfl <;> decide
  generalize known : marked last = text, known' : marked rest = text' at ends
  cases ends with
  | quote =>
    obtain ⟨loc, rfl⟩ := marked_eq_singleton known
    have other : ¬(isHexDigit quote = true ∨ quote = '{' ∨ quote = '}') := by
      rcases quotes with rfl | rfl <;> decide
    obtain ⟨text, fault, settles⟩ := opened.settles other
    obtain ⟨start, fed⟩ := settles_quote settles plain.2 loc
    refine ⟨_, .behind (step_closed fed), ?_⟩
    simp [outcome_ne_unterminated]
  | lineTerminator =>
    obtain rfl := List.map_eq_nil_iff.1 known
    obtain ⟨loc, rest, rfl, _⟩ := marked_eq_cons known'
    obtain ⟨text, fault, settles⟩ := opened.settles (c := '\n') (by decide)
    obtain ⟨s', fed⟩ := settles_line settles loc
    have stepped : stringRecognizer.step s '\n' loc = .stop ['\n'] .unterminated := by
      simp only [stringRecognizer, fed]
    exact ⟨_, .before stepped, by simp⟩
  | input =>
    obtain rfl := List.map_eq_nil_iff.1 known
    obtain rfl := List.map_eq_nil_iff.1 known'
    exact ⟨_, .atEnd rfl, by simp⟩
  | backslash =>
    obtain ⟨loc, rfl⟩ := marked_eq_singleton known
    obtain rfl := List.map_eq_nil_iff.1 known'
    obtain ⟨text, fault, settles⟩ := opened.settles (c := '\\') (by decide)
    have begun := step_proceed (settles_backslash settles plain.1 loc)
    exact ⟨_, .more begun (.atEnd rfl), by simp⟩

end StringScanner

theorem start_open (quote : Char) (mode : Mode) : (StringScanner.start quote mode).Open quote :=
  ⟨rfl, by simp [StringScanner.start]⟩

/-- In either mode a literal ends at the first quote, line terminator or end of input that is not escaped.
A quote closes it and is taken; before the other two it is unterminated, and they are left. -/
theorem stringLiteral_extent (quotes : quote = '\x22' ∨ quote = '\x27') {b : SourceBuffer} {t : Tape}
    (follows : b.Follows t) :
    (∃ inside last rest closed, t.ahead = inside ++ (last ++ rest) ∧ Inside quote (marked inside) ∧
      LiteralEnd quote (marked last) (marked rest) closed) ∧
    ∀ inside last rest closed, t.ahead = inside ++ (last ++ rest) → Inside quote (marked inside) →
      LiteralEnd quote (marked last) (marked rest) closed → ∀ mode, ∃ result b' t',
        stringRecognizer.run (.start quote mode) b = (.ok result, b') ∧
        (result ≠ .unterminated ↔ closed = true) ∧
        b'.Follows t' ∧ t.Took false (inside ++ last) t' ∧ t'.ahead = rest := by
  have plain : quote ≠ '\\' := by rcases quotes with rfl | rfl <;> decide
  constructor
  · obtain ⟨_, _, _, closed, cut, within, ends⟩ := exists_inside quote (marked t.ahead)
    obtain ⟨inside, _, ahead, rfl, cut'⟩ := marked_eq_append cut
    obtain ⟨last, rest, rfl, rfl, rfl⟩ := marked_eq_append cut'
    exact ⟨inside, last, rest, closed, ahead, within, ends⟩
  · intro inside last rest closed ahead within ends mode
    obtain ⟨s, passes, opened⟩ := (start_open quote mode).passes plain within
    obtain ⟨result, answers, closed_⟩ := opened.answers quotes ends
    rw [← List.append_assoc] at ahead
    obtain ⟨b', t', ran, follows', took, ahead'⟩ := (passes.answers answers).run_buffer rfl follows ahead
    exact ⟨result, b', t', ran, closed_, follows', took, ahead'⟩

/-- Strict code refuses the octal escape, and the number in braces breaks off at the escaped quote: the
literal goes on to the quote behind both. -/
theorem stringLiteral_extent_broken :
    let b := SourceBuffer.ofReader (.ofText "\\7\\u\x7b4\\\x22\x22;") 512 1
    let inside := ['\\', '7', '\\', 'u', '{', '4', '\\', '\x22']
    b.toCome = inside ++ ['\x22', ';'] ∧ Inside '\x22' inside ∧
      LiteralEnd '\x22' ['\x22'] [';'] true ∧
      ∃ result b', stringRecognizer.run (.start '\x22' .strict) b = (.ok result, b') ∧
        result ≠ .unterminated ∧ b'.toCome = [';'] := by
  intro b inside
  have same : normalize "\\7\\u\x7b4\\\x22\x22;".toList = inside ++ ['\x22', ';'] := rfl
  have follows : b.Follows _ := SourceBuffer.follows_ofText same 512 1
  have within : Inside '\x22' inside :=
    .escaped (.escaped (.plain (by decide) (by decide) (by decide)
      (.plain (by decide) (by decide) (by decide) (.escaped .nil))))
  have toCome : b.toCome = inside ++ ['\x22', ';'] := by
    rw [follows.toCome, Tape.ofText, marked_located]
  obtain ⟨front, _, ahead, spelled, behind⟩ := marked_eq_append (follows.toCome.symm.trans toCome)
  obtain ⟨loc, rest, rfl, left⟩ := marked_eq_cons behind
  have ends : LiteralEnd '\x22' (marked [('\x22', loc)]) (marked rest) true := .quote
  obtain ⟨result, b', t', ran, closed, follows', _, ahead'⟩ :=
    (stringLiteral_extent (.inl rfl) follows).2 front [('\x22', loc)] rest true ahead (spelled ▸ within) ends
      .strict
  exact ⟨toCome, within, .quote, result, b', ran, closed.2 rfl, by rw [follows'.toCome, ahead', left]⟩

end EcmaLex
