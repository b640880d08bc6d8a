import EcmaLex.Proofs.Grammar.Followers
import EcmaLex.Proofs.Grammar.Tiles

/-!
Which scanner reads a token (`leadingToken?_scanner`), and before what a scanner leaves off that has found a
fault.
-/
namespace EcmaLex
open Text

variable {mode : Mode} {first : Char} {text body slice after : List Char} {kind : TokenKind} {length : Nat}
  {loc : Location}

theorem map_told {β : Type} {kindOf : β → TokenKind} {told : β × Nat}
    (same : Prod.map kindOf id told = (kind, length)) :
    ∃ outcome, told = (outcome, length) ∧ kindOf outcome = kind := by
  obtain ⟨outcome, length'⟩ := told
  obtain ⟨rfl, rfl⟩ := Prod.mk.inj same
  exact ⟨outcome, rfl, rfl⟩

/-- What a recogniser that looks one character ahead leaves off before made it stop, or the character in front
of that did. -/
theorem Recognizer.ShortSighted.stops_before {ρ β : Type} {m : Recognizer ρ β} {kindOf : β → TokenKind}
    {state : ρ} {c : Char} {result : β} (short : m.ShortSighted kindOf) (front : List Char)
    (cut : m.cut state front.length (text ++ c :: after) = (result, (front ++ text).length)) :
    ∃ state', m.step state' c default = .stop [c] result ∨ ∃ d, m.step state' d default = .stop [] result := by
  obtain ⟨state', front', rest, -, whole, cuts⟩ := m.cut_last (fun _ _ => True) (fun _ _ => trivial) trivial cut
  rw [← List.append_assoc] at whole
  generalize told : (result, (front ++ text).length) = told_ at cuts
  cases cuts with
  | @stop d rest back result' stepped =>
    obtain ⟨rfl, length⟩ := Prod.mk.inj told
    rcases short.stop stepped with rfl | ⟨rfl, -⟩
    · exact ⟨state', .inr ⟨d, stepped⟩⟩
    · obtain ⟨-, same⟩ := List.append_inj whole length
      obtain ⟨rfl, -⟩ := List.cons.inj same
      exact ⟨state', .inl stepped⟩
  | atEnd =>
    obtain ⟨-, length⟩ := Prod.mk.inj told
    rw [short.atEnd, List.length_nil, Nat.sub_zero] at length
    exact absurd (List.append_inj whole length).2 (List.cons_ne_nil _ _)

namespace StringScanner

variable {s : StringScanner} {c : Char} {back : List Char}

theorem feedNormal_unterminated (fed : (s.feedNormal (some c) loc).1 = .unterminated) : c = '\n' := by
  unfold feedNormal at fed
  split at fed
  · rename_i none_
    cases none_
  · rename_i feed
    exact Option.some.inj feed
  · repeat' split at fed
    all_goals cases fed

/-- Only a line terminator leaves a literal open: whatever the phase is, a character either goes on with the
escape or is read as plain text. -/
theorem feed_unterminated (fed : (s.feed (some c) loc).1 = .unterminated) : c = '\n' := by
  unfold feed at fed
  cases phase : s.phase <;> simp only [phase] at fed
  case normal => exact feedNormal_unterminated fed
  case escape => cases fed
  case unicodeStart =>
    split at fed
    · cases fed
    · split at fed
      · exact feedNormal_unterminated fed
      · cases fed
  case legacyOctal =>
    split at fed
    · split at fed
      · cases fed
      · exact feedNormal_unterminated fed
    · exact feedNormal_unterminated fed
  case strictZero => split at fed <;> exact feedNormal_unterminated fed
  case hex | unicode | codePoint =>
    split at fed
    · exact feedNormal_unterminated fed
    · cases fed

theorem stop_unterminated (stopped : stringRecognizer.step s c loc = .stop back .unterminated) :
    back = [c] ∧ c = '\n' := by
  rcases fed : s.feed (some c) loc with ⟨answer, s'⟩
  simp only [stringRecognizer, fed] at stopped
  cases answer with
  | proceed => cases stopped
  | closed => exact absurd (Move.stop.inj stopped).2 s'.outcome_ne_unterminated
  | unterminated =>
    cases stopped
    exact ⟨rfl, feed_unterminated (by rw [fed])⟩

end StringScanner

/-- An unterminated literal stands before a line terminator or at the end of input. -/
theorem stringAt_unterminated
    (told : stringAt mode first (body ++ after) = (.unterminated, (first :: body).length)) :
    ∀ c, after.head? = some c → c = '\n' := by
  rintro c head
  obtain ⟨after, rfl⟩ := List.head?_eq_some_iff.1 head
  obtain ⟨s, stopped | ⟨d, stopped⟩⟩ := stringRecognizer_shortSighted.stops_before [first] told
  · exact (StringScanner.stop_unterminated stopped).2
  · cases (StringScanner.stop_unterminated stopped).1

variable [Library]

/-- The scanner that a character and the text behind it are left to, and what it tells of them. -/
inductive TokenFrom (mode : Mode) (first : Char) (text : List Char) (kind : TokenKind) (length : Nat) : Prop
  | string {outcome} : first = '\x22' ∨ first = '\x27' → stringAt mode first text = (outcome, length) →
      .ofString outcome = kind → TokenFrom mode first text kind length
  | number {outcome} : ¬(first = '\x22' ∨ first = '\x27') → BeginsNumber first text →
      numberAt mode first text = (outcome, length) → .ofNumber outcome = kind →
      TokenFrom mode first text kind length
  | word {outcome} : first = '\\' ∨ isIdentifierStart first = true → wordAt mode first text = (outcome, length) →
      .ofWord outcome = kind → TokenFrom mode first text kind length
  | punctuator {p} : ¬(first = '\x22' ∨ first = '\x27') → ¬BeginsNumber first text →
      ¬(first = '\\' ∨ isIdentifierStart first = true) → punctuatorAt first text = (p, length) →
      .ofPunctuator p = kind → TokenFrom mode first text kind length

variable {p : Placed}

theorem tokenFrom_scanner (told : tokenFrom mode first text = (kind, length)) :
    TokenFrom mode first text kind length := by
  unfold tokenFrom at told
  by_cases quote : first = '\x22' ∨ first = '\x27'
  · rw [if_pos quote] at told
    obtain ⟨outcome, told, same⟩ := map_told told
    exact .string quote told same
  rw [if_neg quote] at told
  by_cases number : BeginsNumber first text
  · rw [if_pos number] at told
    obtain ⟨outcome, told, same⟩ := map_told told
    exact .number quote number told same
  rw [if_neg number] at told
  by_cases begins : first = '\\' ∨ isIdentifierStart first = true
  · rw [if_pos begins] at told
    obtain ⟨outcome, told, same⟩ := map_told told
    exact .word begins told same
  · rw [if_neg begins] at told
    obtain ⟨p, told, same⟩ := map_told told
    exact .punctuator quote number begins told same

/-- The slice of a token is what its scanner has kept. -/
theorem leadingToken?_scanner (some_ : slice ≠ [])
    (told : leadingToken? mode (slice ++ after) = some (kind, slice.length)) :
    ∃ first body, slice = first :: body ∧ ¬BeginsTrivia first (body ++ after) ∧
      TokenFrom mode first (body ++ after) kind slice.length := by
  obtain ⟨first, body, rfl⟩ := List.exists_cons_of_ne_nil some_
  refine ⟨first, body, rfl, ?_⟩
  rw [List.cons_append, leadingToken?] at told
  split at told
  · cases told
  · rename_i significant
    exact ⟨significant, tokenFrom_scanner (Option.some.inj told)⟩

/-- What is neither the end of input nor a line break nor an open comment has been read by a scanner. -/
theorem ReadAs.scanner (read : ReadAs mode loc after slice p) (eof : p.kind ≠ .eof) (eol : p.kind ≠ .eol)
    (comment : p.kind ≠ .error .unterminatedComment) :
    kept slice = slice ∧ ∃ first body, slice = first :: body ∧ ¬BeginsTrivia first (body ++ after) ∧
      TokenFrom mode first (body ++ after) p.kind slice.length := by
  cases read with
  | ending _ => exact absurd rfl eof
  | lineBreak => exact absurd rfl eol
  | crossingComment _ _ => exact absurd rfl eol
  | openComment _ _ => exact absurd rfl comment
  | brokenEscape some_ plain told _ => exact ⟨kept_of_plain plain, leadingToken?_scanner some_ told⟩
  | plain some_ plain told _ => exact ⟨kept_of_plain plain, leadingToken?_scanner some_ told⟩

namespace NumberRecognizer

variable {state : State} {c : Char} {back : List Char} {result : NumberOutcome}

theorem stepTail_malformed (stopped : stepTail c = .stop back result) : isWordTail c = false := by
  unfold stepTail at stopped
  split at stopped
  · cases stopped
  · rename_i other
    exact Bool.eq_false_iff.2 other

theorem stop_malformed (stopped : step state c = .stop back .malformed) : isWordTail c = false := by
  cases state with
  | tail => exact stepTail_malformed stopped
  | literal s =>
    rcases fed : s.feed (some c) with ⟨answer, s'⟩
    cases answer with
    | accept => cases (step_accept fed).symm.trans stopped
    | malformed => exact stepTail_malformed ((step_malformed fed).symm.trans stopped)
    | reject =>
      cases value : s.value? with
      | none => exact stepTail_malformed ((step_incomplete fed value).symm.trans stopped)
      | some v =>
        rw [step_complete fed value] at stopped
        split at stopped
        · exact stepTail_malformed stopped
        · cases stopped

end NumberRecognizer

/-- A malformed number has taken all of the word that it runs into. -/
theorem numberAt_malformed
    (told : numberAt mode first (body ++ after) = (.malformed, (first :: body).length)) :
    ∀ c, after.head? = some c → isWordTail c = false := by
  rintro c head
  obtain ⟨after, rfl⟩ := List.head?_eq_some_iff.1 head
  obtain ⟨state, stopped | ⟨d, stopped⟩⟩ := numberRecognizer_shortSighted.stops_before [first] told
  · exact NumberRecognizer.stop_malformed stopped
  · cases NumberRecognizer.stop_back stopped

end EcmaLex
