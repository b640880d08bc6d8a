import EcmaLex.Proofs.Grammar.LeadingToken
import EcmaLex.Proofs.Text.CharClasses

/-!
What may come after a token. A token is read in the same way when the input ends after it, and a token
that is no fault also when a blank follows (`leadingToken?_before`).
-/
namespace EcmaLex
open Text

/-- A token of that kind ends in the same way before the text as before any other. -/
def Separated (kind : TokenKind) (after : List Char) : Prop :=
  after = [] ∨ kind.fault? = none ∧ after.head? = some ' '

theorem Separated.head {kind : TokenKind} {after : List Char} (apart : Separated kind after) {c : Char}
    (head : after.head? = some c) : c = ' ' := by
  rcases apart with rfl | ⟨_, blank⟩
  · cases head
  · exact Option.some.inj (head.symm.trans blank)

namespace Recognizer

variable {ρ β : Type} {m : Recognizer ρ β} {kind : β → TokenKind}

/-- A recogniser that looks one character ahead at most, and whose results are the same at the end of
input; those that are no fault are the same before a blank. -/
structure ShortSighted (m : Recognizer ρ β) (kind : β → TokenKind) : Prop where
  atEnd (state : ρ) : (m.atEnd state).1 = []
  stop {state c back result} : m.step state c default = .stop back result →
    back = [] ∨ back = [c] ∧ (m.atEnd state).2 = result
  blank {state} : (kind (m.atEnd state).2).fault? = none →
    m.step state ' ' default = .stop [' '] (m.atEnd state).2

variable {state : ρ} {read : Nat} {result : β} {text after after' : List Char}

theorem ShortSighted.le_cut (short : m.ShortSighted kind) : read ≤ (m.cut state read text).2 := by
  apply Recognizer.le_cut (fun _ => 0)
  · simp
  · intro state c back result stepped
    rcases short.stop stepped with rfl | ⟨rfl, _⟩ <;> simp
  · simp [short.atEnd]

/-- A text is kept to the place only where the end of input would have ended it too. -/
theorem ShortSighted.ends (short : m.ShortSighted kind)
    (whole : m.cut state read after = (result, read)) : (m.atEnd state).2 = result := by
  cases after with
  | nil => exact congrArg Prod.fst whole
  | cons c after =>
    cases stepped : m.step state c default with
    | more state' =>
      rw [cut_more stepped] at whole
      have longer : read + 1 ≤ (m.cut state' (read + 1) after).2 := short.le_cut
      rw [whole] at longer
      exact absurd longer (Nat.not_succ_le_self read)
    | stop back result' =>
      rw [cut_stop stepped] at whole
      obtain ⟨rfl, length⟩ := Prod.mk.inj whole
      rcases short.stop stepped with rfl | ⟨_, same⟩
      · exact absurd length (Nat.succ_ne_self read)
      · exact same

theorem ShortSighted.cut_before (short : m.ShortSighted kind) (apart : Separated (kind result) after')
    (read_ : 0 < read) (whole : m.cut state read (text ++ after) = (result, read + text.length)) :
    m.cut state read (text ++ after') = (result, read + text.length) := by
  refine cut_congr read_ ?_ whole
  intro state read _ whole
  obtain rfl := short.ends whole
  cases after' with
  | nil => rw [cut, short.atEnd]; rfl
  | cons c after' =>
    obtain rfl := apart.head rfl
    rcases apart with none_ | ⟨sound, _⟩
    · cases none_
    · rw [cut_stop (short.blank sound)]
      rfl

end Recognizer

namespace NumberScanner

theorem feed_blank (s : NumberScanner) : s.feed (some ' ') = (.reject, s) := by
  have digit : isDecimalDigit ' ' = false := by decide
  have exponent : isExponentLetter ' ' = false := by decide
  have radix (r : Radix) : r.hasDigit ' ' = false := by cases r <;> decide
  have stays : s.phase.advance? s.mode ' ' = none := by
    cases s.phase <;> simp [NumberPhase.advance?, digit, exponent, radix, Radix.ofLetter?]
  simp [feed, NumberPhase.forbids, digit, stays]

end NumberScanner

namespace Punctuator

variable {p q r : Punctuator} {c : Char} {state : State} {read : Nat} {after : List Char}

theorem extend?_blank (p : Punctuator) : p.extend? ' ' = none := by
  rw [Option.eq_none_iff_forall_not_mem]
  intro q found
  have spelled := spelling_extend? found
  have blank : ' ' ∈ q.spelling.toList := by simp [spelled]
  have unused : ' ' ∉ q.spelling.toList := by cases q <;> decide
  exact unused blank

theorem extend?_optionalChain (c : Char) : optionalChain.extend? c = none := by
  rw [Option.eq_none_iff_forall_not_mem]
  intro q found
  have spelled : q.spelling.toList = ['?', '.', c] := spelling_extend? found
  cases q <;> simp [spelling] at spelled

theorem extend?_eq_optionalChain (found : p.extend? c = some optionalChain) : p = question := by
  have spelled : ['?', '.'] = p.spelling.toList ++ [c] := spelling_extend? found
  cases p <;> simp [spelling] at spelled
  rfl

theorem step_blank (p : Punctuator) : step (.whole p) ' ' = .stop [' '] p := by
  have digit : isDecimalDigit ' ' = false := by decide
  simp [step, extend?_blank, digit]

theorem cut_extend (found : p.extend? c = some q) :
    punctuatorRecognizer.cut (.whole p) read (c :: after) =
      punctuatorRecognizer.cut (.whole q) (read + 1) after := by
  apply Recognizer.cut_more
  simp only [punctuatorRecognizer, step, found]

/-- Where a punctuator is not extended, only a second point and a fraction are looked at. -/
theorem cut_stays (stays : p.extend? c = none) :
    punctuatorRecognizer.cut (.whole p) read (c :: after) =
      if p = dot ∧ c = '.' then punctuatorRecognizer.cut .twoDots (read + 1) after
      else if p = optionalChain ∧ isDecimalDigit c then (question, read + 1 - 2)
      else (p, read) := by
  have stepped : punctuatorRecognizer.step (.whole p) c default =
      if p = dot ∧ c = '.' then .more .twoDots
      else if p = optionalChain ∧ isDecimalDigit c then .stop [c, '.'] question
      else .stop [c] p := by
    simp only [punctuatorRecognizer, step, stays]
  by_cases points : p = dot ∧ c = '.'
  · rw [if_pos points] at stepped ⊢
    exact Recognizer.cut_more stepped
  · rw [if_neg points] at stepped ⊢
    by_cases fraction : p = optionalChain ∧ isDecimalDigit c
    · rw [if_pos fraction] at stepped ⊢
      exact Recognizer.cut_stop stepped
    · rw [if_neg fraction] at stepped ⊢
      exact Recognizer.cut_stop stepped

theorem cut_twoDots : punctuatorRecognizer.cut .twoDots read after =
    if after.head? = some '.' then (ellipsis, read + 1) else (dot, read - 1) := by
  cases after with
  | nil => rfl
  | cons c after =>
    by_cases point : c = '.' <;> simp [Recognizer.cut, punctuatorRecognizer, step, point]

theorem read_le_cut : read ≤ (punctuatorRecognizer.cut state read after).2 + state.held :=
  Recognizer.le_cut State.held (fun _ => Nat.le_add_left_of_le (held_le_one _))
    (fun stepped => back_le_held stepped) atEnd_le_held

/-- A longer punctuator is given back only where a question mark stands before a fraction. -/
theorem cut_extended (found : p.extend? c = some q)
    (whole : punctuatorRecognizer.cut (.whole q) (read + 1) after = (r, read)) : p = r := by
  have kept : read + 1 ≤ read + (State.whole q).held := by
    have := @read_le_cut (.whole q) (read + 1) after
    rwa [whole] at this
  obtain rfl : q = optionalChain := by
    by_contra other
    simp only [State.held, if_neg other] at kept
    omega
  obtain rfl := extend?_eq_optionalChain found
  cases after with
  | nil => cases congrArg Prod.snd whole
  | cons d after =>
    rw [cut_stays (extend?_optionalChain d), if_neg (by simp)] at whole
    split at whole
    · exact congrArg Prod.fst whole
    · cases congrArg Prod.snd whole

/-- Where a text is kept to the place, the punctuator read so far is the result. -/
theorem whole_of_cut (read_ : 0 < read) (whole : punctuatorRecognizer.cut state read after = (r, read)) :
    state = .whole r := by
  cases state with
  | twoDots =>
    rw [cut_twoDots] at whole
    split at whole <;> have length := congrArg Prod.snd whole <;> simp only at length <;> omega
  | whole p =>
    refine congrArg State.whole ?_
    cases after with
    | nil => exact congrArg Prod.fst whole
    | cons c after =>
      cases found : p.extend? c with
      | some q =>
        rw [cut_extend found] at whole
        exact cut_extended found whole
      | none =>
        rw [cut_stays found] at whole
        split at whole
        · rename_i points
          rw [cut_twoDots] at whole
          split at whole
          · have length := congrArg Prod.snd whole
            simp only at length
            omega
          · exact points.1.trans (congrArg Prod.fst whole)
        · split at whole
          · have length := congrArg Prod.snd whole
            simp only at length
            omega
          · exact congrArg Prod.fst whole

theorem cut_before {kind : TokenKind} {text after' : List Char} (apart : Separated kind after')
    (read_ : 0 < read)
    (whole : punctuatorRecognizer.cut state read (text ++ after) = (r, read + text.length)) :
    punctuatorRecognizer.cut state read (text ++ after') = (r, read + text.length) := by
  refine Recognizer.cut_congr read_ ?_ whole
  intro state read read_ whole
  obtain rfl := whole_of_cut read_ whole
  cases after' with
  | nil => rfl
  | cons c after' =>
    obtain rfl := apart.head rfl
    have stepped : punctuatorRecognizer.step (.whole r) ' ' default = .stop [' '] r := step_blank r
    rw [Recognizer.cut_stop stepped]
    rfl

end Punctuator

variable {mode : Mode} {first : Char} {body after after' : List Char}

theorem stringRecognizer_shortSighted : stringRecognizer.ShortSighted .ofString where
  atEnd _ := rfl
  stop := by
    intro s c back result stepped
    simp only [stringRecognizer] at stepped
    split at stepped <;> cases stepped
    · exact .inl rfl
    · exact .inr ⟨rfl, rfl⟩
  blank := by
    intro s sound
    cases sound

theorem stringAt_before {outcome : StringOutcome} (apart : Separated (.ofString outcome) after')
    (whole : stringAt mode first (body ++ after) = (outcome, 1 + body.length)) :
    stringAt mode first (body ++ after') = (outcome, 1 + body.length) :=
  stringRecognizer_shortSighted.cut_before apart Nat.one_pos whole

theorem punctuatorAt_before {outcome : Option Punctuator}
    (apart : Separated (.ofPunctuator outcome) after')
    (whole : punctuatorAt first (body ++ after) = (outcome, 1 + body.length)) :
    punctuatorAt first (body ++ after') = (outcome, 1 + body.length) := by
  unfold punctuatorAt at whole ⊢
  cases single : Punctuator.single? first with
  | none => simpa only [single] using whole
  | some p =>
    simp only [single] at whole ⊢
    rcases cut : punctuatorRecognizer.cut (.whole p) 1 (body ++ after) with ⟨q, length⟩
    rw [cut] at whole
    obtain ⟨rfl, rfl⟩ := Prod.mk.inj whole
    rw [Punctuator.cut_before apart Nat.one_pos cut]
    rfl

theorem Separated.no_digit {kind : TokenKind} (apart : Separated kind after) :
    after.head?.any isDecimalDigit = false := by
  cases after with
  | nil => rfl
  | cons c after =>
    obtain rfl := apart.head rfl
    rfl

theorem map_before {β : Type} {kindOf : β → TokenKind} {told told' : β × Nat} {kind : TokenKind}
    {length : Nat} (apart : Separated kind after')
    (before : ∀ {outcome}, Separated (kindOf outcome) after' → told = (outcome, length) →
      told' = (outcome, length))
    (whole : Prod.map kindOf id told = (kind, length)) :
    Prod.map kindOf id told' = (kind, length) := by
  rcases told with ⟨outcome, length'⟩
  obtain ⟨rfl, rfl⟩ := Prod.mk.inj whole
  rw [before apart rfl]
  rfl

variable [Library]

namespace NumberRecognizer

variable {s : NumberScanner} {c : Char} {back : List Char} {result : NumberOutcome}

theorem stepLiteral_stop (stepped : step (.literal s) c = .stop back result) :
    back = [c] ∧ atEnd (.literal s) = result := by
  rcases fed : s.feed (some c) with ⟨answer, s'⟩
  cases answer with
  | accept => cases (step_accept fed).symm.trans stepped
  | malformed =>
    -- The digit belongs to the tail, so that nothing stops here.
    have part := isIdentifierPart_of_digit (NumberScanner.feed_malformed fed).2.2
    have tail_ : isWordTail c = true := by simp [isWordTail, part]
    cases ((step_malformed fed).trans (stepTail_of_tail tail_)).symm.trans stepped
  | reject =>
    cases value : s.value? with
    | none =>
      rw [step_incomplete fed value] at stepped
      rw [atEnd_incomplete value]
      exact stepTail_stop stepped
    | some v =>
      rw [step_complete fed value] at stepped
      rw [atEnd_complete value]
      split at stepped
      · rename_i trailing
        cases (stepTail_of_tail (isWordTail_of_trailing trailing)).symm.trans stepped
      · cases stepped
        exact ⟨rfl, rfl⟩

end NumberRecognizer

theorem numberRecognizer_shortSighted : numberRecognizer.ShortSighted .ofNumber where
  atEnd _ := rfl
  stop := by
    intro state c back result stepped
    cases state with
    | tail => exact .inr (NumberRecognizer.stepTail_stop stepped)
    | literal s => exact .inr (NumberRecognizer.stepLiteral_stop stepped)
  blank := by
    intro state sound
    have trailing : isTrailing ' ' = false := rfl
    cases state with
    | tail => cases sound
    | literal s =>
      simp only [numberRecognizer] at sound ⊢
      cases value : s.value? with
      | none =>
        rw [NumberRecognizer.atEnd_incomplete value] at sound
        cases sound
      | some v =>
        rw [NumberRecognizer.step_complete s.feed_blank value, NumberRecognizer.atEnd_complete value,
          trailing]
        rfl

namespace IdentifierRecognizer

theorem stepPlain_blank (mode : Mode) (n : Name) (loc : Location) :
    stepPlain mode n ' ' loc = .stop [' '] (n.outcome mode) := by
  have start : isIdentifierStart ' ' = false := rfl
  have part : isIdentifierPart ' ' = false := rfl
  simp [stepPlain, Name.admits, start, part]

end IdentifierRecognizer

theorem identifierRecognizer_shortSighted (mode : Mode) :
    (identifierRecognizer mode).ShortSighted .ofWord where
  atEnd _ := rfl
  stop := by
    intro state c back result stepped
    rcases IdentifierRecognizer.step_stop stepped with ⟨n, rfl, plain⟩ | ⟨backs, _, _, same⟩
    · obtain ⟨rfl, rfl, _⟩ := IdentifierRecognizer.stepPlain_stop plain
      exact .inr ⟨rfl, rfl⟩
    · exact backs.imp_right fun one => ⟨one, (same mode).2⟩
  blank := by
    intro state sound
    cases state with
    | plain n => exact IdentifierRecognizer.stepPlain_blank mode n default
    | backslash _ => cases sound
    | marked _ => cases sound
    | fourDigits _ _ _ => cases sound
    | braced _ _ _ => cases sound
    | tail _ => cases sound

/-- A character that begins a word is part of it. -/
theorem wordAt_begun (mode : Mode) (begins : first = '\\' ∨ isIdentifierStart first = true) :
    ∃ state, ∀ text, wordAt mode first text = (identifierRecognizer mode).cut state 1 text := by
  obtain ⟨state, stepped⟩ := IdentifierRecognizer.step_start mode default begins
  exact ⟨state, fun _ => Recognizer.cut_more stepped⟩

theorem numberAt_before {outcome : NumberOutcome} (apart : Separated (.ofNumber outcome) after')
    (whole : numberAt mode first (body ++ after) = (outcome, 1 + body.length)) :
    numberAt mode first (body ++ after') = (outcome, 1 + body.length) :=
  numberRecognizer_shortSighted.cut_before apart Nat.one_pos whole

theorem wordAt_before {outcome : IdentifierOutcome}
    (begins : first = '\\' ∨ isIdentifierStart first = true)
    (apart : Separated (.ofWord outcome) after')
    (whole : wordAt mode first (body ++ after) = (outcome, 1 + body.length)) :
    wordAt mode first (body ++ after') = (outcome, 1 + body.length) := by
  obtain ⟨state, begun⟩ := wordAt_begun mode begins
  rw [begun] at whole ⊢
  exact (identifierRecognizer_shortSighted mode).cut_before apart Nat.one_pos whole

/-- A point before a digit takes the digit along. -/
theorem numberAt_point (digit : after.head?.any isDecimalDigit = true) :
    1 < (numberAt mode '.' after).2 := by
  cases after with
  | nil => cases digit
  | cons d after =>
    have digit : isDecimalDigit d = true := digit
    have stepped : numberRecognizer.step (NumberRecognizer.start '.' mode) d default =
        .more (.literal { mode, phase := .fraction, accepted := [d, '.'] }) := by
      apply NumberRecognizer.step_accept
      simp [NumberScanner.feed, NumberScanner.start, NumberPhase.forbids, NumberPhase.advance?, digit,
        show isDecimalDigit '.' = false by decide]
    rw [numberAt, Recognizer.cut_more stepped]
    exact numberRecognizer_shortSighted.le_cut

theorem beginsNumber_before {kind : TokenKind} (mode : Mode) (apart : Separated kind after')
    (whole : BeginsNumber first (body ++ after) →
      Prod.map .ofNumber id (numberAt mode first (body ++ after)) = (kind, 1 + body.length)) :
    BeginsNumber first (body ++ after') ↔ BeginsNumber first (body ++ after) := by
  cases body with
  | cons b body => exact Iff.rfl
  | nil =>
    constructor
    · rintro (digit | ⟨rfl, digit⟩)
      · exact .inl digit
      · exact absurd digit (Bool.eq_false_iff.1 apart.no_digit)
    · rintro (digit | ⟨rfl, digit⟩)
      · exact .inl digit
      · have longer : 1 < (numberAt mode '.' after).2 := numberAt_point digit
        have length : (numberAt mode '.' after).2 = 1 := congrArg Prod.snd (whole (.inr ⟨rfl, digit⟩))
        omega

theorem tokenFrom_before {kind : TokenKind} (apart : Separated kind after')
    (whole : tokenFrom mode first (body ++ after) = (kind, 1 + body.length)) :
    tokenFrom mode first (body ++ after') = (kind, 1 + body.length) := by
  unfold tokenFrom at whole ⊢
  by_cases quote : first = '\x22' ∨ first = '\x27'
  · rw [if_pos quote] at whole ⊢
    exact map_before apart stringAt_before whole
  rw [if_neg quote] at whole ⊢
  have numbers : BeginsNumber first (body ++ after') ↔ BeginsNumber first (body ++ after) :=
    beginsNumber_before mode apart fun number => by rwa [if_pos number] at whole
  by_cases number : BeginsNumber first (body ++ after)
  · rw [if_pos number] at whole
    rw [if_pos (numbers.2 number)]
    exact map_before apart numberAt_before whole
  rw [if_neg number] at whole
  rw [if_neg (mt numbers.1 number)]
  by_cases begins : first = '\\' ∨ isIdentifierStart first = true
  · rw [if_pos begins] at whole ⊢
    exact map_before apart (wordAt_before begins) whole
  · rw [if_neg begins] at whole ⊢
    exact map_before apart punctuatorAt_before whole

/-- A token does not change with what comes after it, if that keeps apart from it. -/
theorem leadingToken?_before {slice : List Char} {kind : TokenKind} (some_ : slice ≠ [])
    (apart : Separated kind after')
    (whole : leadingToken? mode (slice ++ after) = some (kind, slice.length)) :
    leadingToken? mode (slice ++ after') = some (kind, slice.length) := by
  cases slice with
  | nil => exact absurd rfl some_
  | cons first body =>
    rw [List.length_cons, Nat.add_comm] at whole ⊢
    have trivia : BeginsTrivia first (body ++ after') → BeginsTrivia first (body ++ after) := by
      rintro (blank | feed | ⟨solidus, opens⟩)
      · exact .inl blank
      · exact .inr (.inl feed)
      · cases body with
        | cons b body => exact .inr (.inr ⟨solidus, opens⟩)
        | nil => rcases opens with opens | opens <;> exact absurd (apart.head opens) (by decide)
    rw [List.cons_append, leadingToken?] at whole ⊢
    by_cases begins : BeginsTrivia first (body ++ after)
    · rw [if_pos begins] at whole
      cases whole
    · rw [if_neg begins] at whole
      rw [if_neg (mt trivia begins), tokenFrom_before apart (Option.some.inj whole)]

end EcmaLex
