import EcmaLex.Proofs.Grammar.LeadingToken
import EcmaLex.Proofs.Reading.Escapes
import EcmaLex.Proofs.Reading.Places

/-!
Words keep at least the character that they begin with. The place that a malformed word reports is
that of the first broken escape of its slice.
-/
namespace EcmaLex
open Text

variable {first : Bool} {read : List Mark} {mark : Mark} {loc : Location} {c : Char}

theorem IdentifierRecognizer.outcome_ne_malformed (mode : Mode) (n : IdentifierRecognizer.Name) (loc : Location) :
    n.outcome mode ≠ .malformedEscape loc := by
  unfold IdentifierRecognizer.Name.outcome
  simp only
  split <;> simp

variable [Library]

theorem wholeInWord_u (text : List Char) :
    wholeInWord first ('u' :: text) = (countsDigits text && ((unicodeNumber? text).bind scalar?).any
      (if first then isIdentifierStart else isIdentifierPart)) := by
  simp [wholeInWord]

theorem wholeInWord_broken {text : List Char} (none_ : unicodeNumber? text = none) :
    wholeInWord first ('u' :: text) = false := by
  rw [wholeInWord_u, none_]
  exact Bool.and_false _

/-- What ends the digits is no brace, or a brace before they count. -/
theorem wholeInWord_open {digits text : List Char} (all : HexDigits digits)
    (broken : ∀ c, text.head? = some c → isHexDigit c = false ∧ (Counted digits → c ≠ '}')) :
    wholeInWord first ('u' :: '{' :: (digits ++ text)) = false := by
  by_cases counted : Counted digits
  · refine wholeInWord_broken ?_
    rw [unicodeNumber?_braced]
    exact bracedNumber?_open all fun c head => ⟨(broken c head).1, (broken c head).2 counted⟩
  · rw [wholeInWord_u, countsDigits_braced all text fun c head => (broken c head).1, decide_eq_false counted]
    rfl

namespace IdentifierRecognizer

/-- What a state knows of what has been read. -/
def State.Reads (read : List Mark) : State → Prop
  | .plain n => n.chars.isEmpty = read.isEmpty ∧ ∀ text, Unbroken wholeInWord read text
  | .backslash e => Escaping wholeInWord e.before.chars.isEmpty read e.loc []
  | .marked e => Escaping wholeInWord e.before.chars.isEmpty read e.loc ['u']
  | .fourDigits e remaining value => ∃ digits, HexDigits digits ∧
      digits.length + remaining = 4 ∧ 0 < remaining ∧ digits ≠ [] ∧ value = digitsValue 16 digits ∧
      Escaping wholeInWord e.before.chars.isEmpty read e.loc ('u' :: digits)
  | .braced e value count => ∃ digits, HexDigits digits ∧
      value = min (digitsValue 16 digits) pastCodePoints ∧ count = Int32.ofNat digits.length ∧
      Escaping wholeInWord e.before.chars.isEmpty read e.loc ('u' :: '{' :: digits)
  | .tail loc => ∀ text, BrokenAt wholeInWord read loc text

/-- The place that a result reports is that of the first broken escape. -/
def Reported (result : IdentifierOutcome) (slice : List Mark) : Prop :=
  ∀ loc, result = .malformedEscape loc → BrokenAt wholeInWord slice loc []

/-- What a move makes of one more character: either it is read and all stays known, or the word ends
before it or after it. -/
def Answers (read : List Mark) (mark : Mark) : Move State IdentifierOutcome → Prop
  | .more state => state.Reads (read ++ [mark])
  | .stop back result =>
    back = [mark.1] ∧ Reported result read ∨ back = [] ∧ Reported result (read ++ [mark])

theorem reported_outcome (mode : Mode) (n : Name) (slice : List Mark) :
    Reported (n.outcome mode) slice :=
  fun loc malformed => absurd malformed (outcome_ne_malformed mode n loc)

theorem stepTail_answers
    (broken : ∀ text, (∀ d, text.head? = some d → d = mark.1) → BrokenAt wholeInWord read loc text) :
    Answers read mark (stepTail loc mark.1) := by
  unfold stepTail
  split
  · intro text
    apply BrokenAt.push
    apply broken
    rintro d ⟨rfl⟩
    rfl
  · refine .inl ⟨rfl, ?_⟩
    rintro start ⟨rfl⟩
    apply broken
    intro d none_
    cases none_

/-- The last character of an escape tells which character it stands for. -/
theorem complete_answers {e : Escape} {tail : List Char} {value : Nat} (plain : '\\' ∉ tail)
    (escaping : Escaping wholeInWord e.before.chars.isEmpty (read ++ [mark]) e.loc ('u' :: tail))
    (number : ∀ text, (unicodeNumber? (tail ++ text)).bind scalar? = scalar? value)
    (counts : ∀ text, countsDigits (tail ++ text) = true) : Answers read mark (e.complete value) := by
  have judged (text : List Char) : wholeInWord e.before.chars.isEmpty ('u' :: tail ++ text) =
      (scalar? value).any e.before.admits := by
    rw [List.cons_append, wholeInWord_u, number, counts, Bool.true_and]
    congr 1
    funext c
    unfold Name.admits
    split <;> rfl
  unfold Escape.complete
  cases char : scalar? value with
  | none =>
    refine .inr ⟨rfl, ?_⟩
    rintro start ⟨rfl⟩
    exact escaping.broken ((judged []).trans (by rw [char]; rfl))
  | some c =>
    rw [char, Option.any_some] at judged
    by_cases admitted : e.before.admits c = true
    · simp only [if_pos admitted]
      constructor
      · simp [Name.push]
      · intro text
        exact escaping.unbroken ((judged text).trans admitted) plain
    · simp only [if_neg admitted]
      exact fun text => escaping.broken ((judged text).trans (eq_false_of_ne_true admitted))

theorem stepDigit_answers {e : Escape} {remaining value : Nat} {digits : List Char}
    (all : HexDigits digits) (count : digits.length + remaining = 4)
    (more : 0 < remaining) (brace : digits = [] → mark.1 ≠ '{') (known : value = digitsValue 16 digits)
    (escaping : Escaping wholeInWord e.before.chars.isEmpty read e.loc ('u' :: digits)) :
    Answers read mark (stepDigit e remaining value mark.1) := by
  have pushed := escaping.push mark
  unfold stepDigit
  cases digit? : hexValue? mark.1 with
  | none =>
    apply stepTail_answers
    intro text next
    apply escaping.broken
    apply wholeInWord_broken
    apply unicodeNumber?_short all (by omega)
    intro d head
    rw [next d head]
    exact ⟨by simp [isHexDigit, digit?], brace⟩
  | some digit =>
    have all' := all.push digit?
    have value' : value * 16 + digit = digitsValue 16 (digits ++ [mark.1]) := by
      rw [digitsValue_push, digit?, known, Option.getD_some]
    by_cases last : remaining = 1
    · simp only [if_pos last]
      apply complete_answers all'.plain pushed
      · intro text
        rw [unicodeNumber?_digits all' (by simp; omega), value']
        rfl
      · exact countsDigits_digits all' (by simp)
    · simp only [if_neg last]
      refine ⟨digits ++ [mark.1], all', ?_, ?_, by simp, value', pushed⟩
      · rw [List.length_append, List.length_singleton]
        omega
      · omega

theorem stepBraced_answers {e : Escape} {value : Nat} {digits : List Char} (all : HexDigits digits)
    (known : value = min (digitsValue 16 digits) pastCodePoints)
    (escaping : Escaping wholeInWord e.before.chars.isEmpty read e.loc ('u' :: '{' :: digits)) :
    Answers read mark (stepBraced e value (Int32.ofNat digits.length) mark.1) := by
  have pushed := escaping.push mark
  unfold stepBraced
  by_cases closes : mark.1 = '}' ∧ 0 < Int32.ofNat digits.length
  · rw [if_pos closes]
    have counted : Counted digits := closes.2
    have plain := all.plain
    have close (text : List Char) : '{' :: digits ++ ['}'] ++ text = '{' :: (digits ++ '}' :: text) := by simp
    rw [closes.1] at pushed
    have whole : '\\' ∉ '{' :: digits ++ ['}'] := by simp [plain]
    refine complete_answers whole pushed ?_ ?_
    · intro text
      rw [close, scalar?_braced all counted.ne_nil, known]
      rfl
    · intro text
      rw [close, countsDigits_braced all _ closes_digits]
      exact decide_eq_true counted
  · rw [if_neg closes]
    cases digit? : hexValue? mark.1 with
    | none =>
      apply stepTail_answers
      intro text next
      apply escaping.broken
      refine wholeInWord_open all fun d head => ?_
      rw [next d head]
      exact ⟨by simp [isHexDigit, digit?], fun counted same => closes ⟨same, counted⟩⟩
    | some digit =>
      refine ⟨digits ++ [mark.1], all.push digit?, ?_, ?_, pushed⟩
      · rw [known, digitsValue_push, digit?, Option.getD_some]
        unfold pastCodePoints
        omega
      · rw [List.length_append, Int32.ofNat_add]
        rfl

theorem step_answers {state : State} (mark : Mark) (mode : Mode) (reads : state.Reads read) :
    Answers read mark (step mode state mark.1 mark.2) := by
  obtain ⟨c, loc⟩ := mark
  cases state with
  | plain n =>
    obtain ⟨empty, unbroken⟩ := reads
    simp only [step, stepPlain]
    by_cases backslash : c = '\\'
    · subst backslash
      rw [if_pos rfl]
      have begun := Escaping.start (fun text => unbroken ('\\' :: text)) loc
      rw [← empty] at begun
      exact begun
    · rw [if_neg backslash]
      by_cases admitted : n.admits c = true
      · rw [if_pos admitted]
        constructor
        · simp [Name.push]
        · intro text
          exact Unbroken.plain (unbroken (c :: text)) backslash
      · rw [if_neg admitted]
        exact .inl ⟨rfl, reported_outcome mode n read⟩
  | backslash e =>
    simp only [step]
    by_cases unicode : c = 'u'
    · subst unicode
      rw [if_pos rfl]
      exact Escaping.push reads ('u', loc)
    · rw [if_neg unicode]
      change Answers read (c, loc) (stepTail e.loc (c, loc).1)
      apply stepTail_answers
      intro text next
      apply reads.broken
      cases text with
      | nil => rfl
      | cons d text => simp [wholeInWord, next d rfl, unicode]
  | marked e =>
    simp only [step]
    by_cases brace : c = '{'
    · subst brace
      rw [if_pos rfl]
      exact ⟨[], .nil, by simp [digitsValue], rfl, Escaping.push reads ('{', loc)⟩
    · rw [if_neg brace]
      exact stepDigit_answers .nil rfl (by decide) (fun _ => brace) rfl reads
  | fourDigits e remaining value =>
    obtain ⟨digits, all, count, more, begun, known, escaping⟩ := reads
    exact stepDigit_answers all count more (fun none_ => absurd none_ begun) known escaping
  | braced e value count =>
    obtain ⟨digits, all, known, rfl, escaping⟩ := reads
    exact stepBraced_answers all known escaping
  | tail start => exact stepTail_answers fun text _ => reads text

theorem atEnd_reported {state : State} (mode : Mode) (reads : state.Reads read) :
    Reported (atEnd mode state) read := by
  have cut {first : Bool} {start : Location} {escape : List Char}
      (escaping : Escaping wholeInWord first read start escape)
      (broken : wholeInWord first (escape ++ []) = false) : Reported (.malformedEscape start) read := by
    rintro loc ⟨rfl⟩
    exact escaping.broken broken
  have none_ (d : Char) (head : ([] : List Char).head? = some d) : isHexDigit d = false ∧ d ≠ '}' := by
    cases head
  cases state with
  | plain n => exact reported_outcome mode n read
  | backslash e => exact cut reads rfl
  | marked e => exact cut reads (wholeInWord_broken rfl)
  | fourDigits e remaining value =>
    obtain ⟨digits, all, count, more, begun, known, escaping⟩ := reads
    apply cut escaping
    apply wholeInWord_broken
    exact unicodeNumber?_short all (by omega) fun d head => ⟨(none_ d head).1, (absurd · begun)⟩
  | braced e value count =>
    obtain ⟨digits, all, known, _, escaping⟩ := reads
    exact cut escaping (wholeInWord_broken (bracedNumber?_open all none_))
  | tail start =>
    rintro loc ⟨rfl⟩
    exact reads []

end IdentifierRecognizer

open IdentifierRecognizer

/-- A word that reports a broken escape reports the first one. -/
theorem identifierRecognizer_rule (mode : Mode) :
    (identifierRecognizer mode).Rule (fun state read => read ≠ [] ∧ state.Reads read)
      (fun result slice _ => slice ≠ [] ∧ Reported result slice) where
  drop _ passed := by simp [Tape.dropped, identifierRecognizer] at passed
  more := by
    rintro state read c loc state' ⟨_, reads⟩ _ stepped
    have answers := step_answers (c, loc) mode reads
    rw [show step mode state c loc = .more state' from stepped] at answers
    exact ⟨by simp, answers⟩
  stop := by
    rintro state read c loc back result after ⟨some_, reads⟩ kept stepped
    have answers := step_answers (c, loc) mode reads
    rw [show step mode state c loc = .stop back result from stepped] at answers
    rcases answers with ⟨rfl, reported⟩ | ⟨rfl, reported⟩
    · exact .last kept ⟨some_, reported⟩
    · exact .all ⟨by simp, reported⟩
  atEnd := by
    rintro state read ⟨some_, reads⟩
    exact .all ⟨some_, atEnd_reported mode reads⟩

theorem identifierRecognizer_tape {t₀ t : Tape} (took : t₀.Took false [mark] t) (last : t.last = mark.2)
    (begins : mark.1 = '\\' ∨ isIdentifierStart mark.1 = true) (mode : Mode) :
    ∃ result slice t', (identifierRecognizer mode).resume IdentifierRecognizer.start mark.1 t =
        (.ok result, t') ∧
      t₀.Took false slice t' ∧ (slice ≠ [] ∧ Reported result slice) ∧
      wordAt mode mark.1 (marked t.ahead) = (result.bare, slice.length) := by
  obtain ⟨state, stepped⟩ := step_start mode (CharSource.here t) begins
  have reads : IdentifierRecognizer.start.Reads [] := by
    constructor
    · rfl
    · intro text
      simp [Unbroken]
  have answers := step_answers mark mode reads
  rw [← last] at answers
  rw [show step mode IdentifierRecognizer.start mark.1 t.last = .more state from stepped] at answers
  have bareStep : (identifierRecognizer mode).step IdentifierRecognizer.start mark.1 default =
      .more state.bare := by
    rw [← show State.bare IdentifierRecognizer.start = IdentifierRecognizer.start from rfl,
      (identifierRecognizer_placeless mode).step _ _ (CharSource.here t), stepped, Move.map_more]
  rw [Recognizer.resume, stepped, wordAt, Recognizer.cut_more bareStep]
  exact (identifierRecognizer_rule mode).run_cut (identifierRecognizer_placeless mode) rfl
    ⟨by simp, answers⟩ took

end EcmaLex
