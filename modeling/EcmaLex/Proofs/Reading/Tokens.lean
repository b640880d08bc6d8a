import EcmaLex.Proofs.Grammar.Tiles
import EcmaLex.Proofs.Reading.Comments
import EcmaLex.Proofs.Reading.Operators
import EcmaLex.Proofs.Reading.Strings
import EcmaLex.Proofs.Reading.Words
import EcmaLex.Proofs.Source.Simulation

/-!
What starts a token on a tape, and what the recogniser chosen by it makes of the text. From the first
character of a token some slice of the text is taken, and its broken escapes are told (`scanFrom_tape`).
-/
namespace EcmaLex
open Text CharSource

namespace Tape

/-- A tape at the start of a text whose first character stands at `loc`. -/
structure At (t : Tape) (loc : Location) (text : List Char) : Prop where
  ahead : t.ahead = located loc text
  ending : t.ending = loc.past text

variable {t₀ t t' : Tape} {loc : Location} {text : List Char} {slice : List Mark} {skipFormat : Bool}

theorem Took.at (spot : t.At loc text) (took : t.Took skipFormat slice t') :
    slice = located loc (marked slice) ∧
      ∃ rest, text = marked slice ++ rest ∧ t'.At (loc.past (marked slice)) rest := by
  have split := spot.ahead.symm.trans took.ahead
  obtain ⟨chars, places, rest⟩ := located_eq_append split
  refine ⟨places, marked t'.ahead, chars, rest, ?_⟩
  rw [took.ending, spot.ending, chars, Location.past_append]

theorem Took.lexeme (took : t₀.Took skipFormat slice t) (fresh : t₀.taken = []) :
    lexeme t = if skipFormat then visible (marked slice) else marked slice := by
  change marked t.taken.reverse = _
  rw [took.taken, fresh, List.append_nil, List.reverse_reverse]
  cases skipFormat with
  | false => simp [dropped]
  | true =>
    simp only [dropped, Bool.true_and, if_true, visible, marked, List.filter_map]
    rfl

/-- Where no format control stands it does not matter whether they are passed over. -/
theorem Took.skipping (took : t₀.Took false slice t)
    (plain : ∀ m ∈ slice, isFormatControl m.1 = false) : t₀.Took true slice t where
  ahead := took.ahead
  taken := by
    have all : slice.filter (fun m => !dropped true m) = slice :=
      List.filter_eq_self.2 fun m member => by simp [dropped, plain m member]
    have none_ : slice.filter (fun m => !dropped false m) = slice :=
      List.filter_eq_self.2 fun m _ => by simp [dropped]
    rw [took.taken, all, none_]
  ending := took.ending

end Tape

variable {mode : Mode} {loc : Location} {text : List Char} {t₀ t₁ t t' : Tape}

/-- What the search for a significant character leaves: a fresh lexeme after a gap of blanks. -/
structure Significant (loc : Location) (text gap rest : List Char) (t₀ : Tape) : Prop where
  text : text = gap ++ rest
  blank : ∀ c ∈ gap, isBlank c = true
  spot : t₀.At (loc.past gap) rest
  fresh : t₀.taken = []

theorem Significant.cons {gap rest : List Char} {c : Char} (blank : isBlank c = true)
    (found : Significant (loc.after c) text gap rest t₀) :
    Significant loc (c :: text) (c :: gap) rest t₀ where
  text := by rw [found.text, List.cons_append]
  blank := by
    intro d member
    rcases List.mem_cons.1 member with rfl | later
    · exact blank
    · exact found.blank d later
  spot := found.spot
  fresh := found.fresh

theorem nextSignificant_char {c : Char} (taken : next true (beginLexeme t) = (.ok (some c), t')) :
    nextSignificant t = if isBlank c then nextSignificant t' else (.ok (some c), t') := by
  rw [nextSignificant_eq, taken]
  rfl

theorem nextSignificant_tape (spot : t.At loc text) :
    ∃ gap rest t₀, Significant loc text gap rest t₀ ∧
      (rest = [] ∧ nextSignificant t = (.ok none, { t₀ with last := t₀.ending }) ∨
        ∃ c t₁, rest.head? = some c ∧ isBlank c = false ∧
          nextSignificant t = (.ok (some c), t₁) ∧ t₀.Took false [(c, loc.past gap)] t₁ ∧
          t₁.last = loc.past gap) := by
  induction text generalizing loc t with
  | nil =>
    have none_ : (beginLexeme t).ahead = [] := spot.ahead
    refine ⟨[], [], { t with ahead := [], taken := [] }, ⟨rfl, by simp, ⟨rfl, spot.ending⟩, rfl⟩,
      .inl ⟨rfl, ?_⟩⟩
    rw [nextSignificant_eq, Tape.next_end (by simp [none_])]
    rfl
  | cons c text ih =>
    have ahead : (beginLexeme t).ahead = (c, loc) :: located (loc.after c) text := spot.ahead
    have ending : t.ending = (loc.after c).past text := spot.ending
    by_cases format : isFormatControl c = true
    · have blank : isBlank c = true := by simp [isBlank, format]
      obtain ⟨gap, rest, t₀, found, answer⟩ :=
        ih (t := { t with ahead := located (loc.after c) text }) ⟨rfl, ending⟩
      refine ⟨c :: gap, rest, t₀, found.cons blank, ?_⟩
      rw [nextSignificant_eq, Tape.next_dropped ahead (by simpa [Tape.dropped] using format)]
      rw [nextSignificant_eq] at answer
      exact answer
    · have kept : Tape.dropped true (c, loc) = false := by simpa [Tape.dropped] using format
      by_cases blank : isBlank c = true
      · obtain ⟨gap, rest, t₀, found, answer⟩ := ih (t := { beginLexeme t with
          ahead := located (loc.after c) text, taken := [(c, loc)], last := loc }) ⟨rfl, ending⟩
        refine ⟨c :: gap, rest, t₀, found.cons blank, ?_⟩
        rw [nextSignificant_char (Tape.next_kept ahead kept), if_pos blank]
        exact answer
      · have start : (beginLexeme t).At loc (c :: text) := ⟨ahead, spot.ending⟩
        have took : (beginLexeme t).Took false [(c, loc)] { beginLexeme t with
            ahead := located (loc.after c) text, taken := [(c, loc)], last := loc } :=
          ⟨ahead, rfl, rfl⟩
        refine ⟨[], c :: text, beginLexeme t, ⟨rfl, by simp, start, rfl⟩,
          .inr ⟨c, _, rfl, eq_false_of_ne_true blank, ?_, took, rfl⟩⟩
        rw [nextSignificant_char (Tape.next_kept ahead kept), if_neg blank]
        rfl

/-- Two ways on from the first character: the slice that is kept begins with it. -/
theorem Tape.Took.head (one : t₀.Took false [first] t) (took : t₀.Took false slice t')
    (some_ : slice ≠ []) : (marked slice).head? = some first.1 := by
  have same := one.ahead.symm.trans took.ahead
  cases slice with
  | nil => exact absurd rfl some_
  | cons m slice =>
    rw [List.cons_append, List.cons_append, List.cons.injEq] at same
    rw [same.1, marked_cons, List.head?_cons]

/-- Looking at the next character leaves what has been taken as it was. -/
theorem peek_tape (took : t₀.Took false slice t) :
    ∃ t', peek t = (.ok (marked t.ahead).head?, t') ∧ t₀.Took false slice t' ∧ t'.ahead = t.ahead := by
  unfold peek
  cases ahead : t.ahead with
  | nil =>
    rw [Tape.next_end (by simp [ahead])]
    exact ⟨_, rfl, took.atEnd ahead, rfl⟩
  | cons m rest =>
    have kept : Tape.dropped false m = false := by simp [Tape.dropped]
    rw [Tape.next_kept ahead kept]
    obtain ⟨t', put, took', ahead'⟩ := Tape.Took.putBackAll (took.char ahead kept) (by simpa using kept)
    exact ⟨t', congrArg _ put, took', ahead'⟩

variable [Library]

/-- What a recogniser makes of a slice: a plain kind where the slice starts, or its first broken
escape. -/
def Judged (mode : Mode) (start : Location) (slice : List Mark) (p : Placed) : Prop :=
  p.loc = start ∧ p.kind.IsPlain ∨
    p.kind = .error .malformedEscapeSequence ∧ ∃ k, brokenEscape? mode (marked slice) = some k ∧
      (slice[k]?).map Prod.snd = some p.loc

variable {start : Location} {slice : List Mark} {first : Mark} {p : Placed}

theorem judged_number (result : NumberOutcome) : Judged mode start slice (.ofNumber start result) := by
  cases result <;> exact .inl ⟨rfl, by simp [TokenKind.IsPlain, Placed.ofNumber]⟩

theorem judged_punctuator (result : Option Punctuator) :
    Judged mode start slice (.ofPunctuator start result) := by
  cases result <;> exact .inl ⟨rfl, by simp [TokenKind.IsPlain, Placed.ofPunctuator]⟩

theorem judged_string {result : StringOutcome}
    (quotes : (marked slice).head? = some '\x22' ∨ (marked slice).head? = some '\x27')
    (reported : ∀ loc, result = .malformedEscape loc → BrokenAt (wholeInString mode) slice loc []) :
    Judged mode start slice (.ofString start result) := by
  cases result with
  | literal value => exact .inl ⟨rfl, by simp [TokenKind.IsPlain, Placed.ofString]⟩
  | unterminated => exact .inl ⟨rfl, by simp [TokenKind.IsPlain, Placed.ofString]⟩
  | malformedEscape loc =>
    obtain ⟨k, found, place⟩ := reported loc rfl
    refine .inr ⟨rfl, k, ?_, place⟩
    rw [List.append_nil] at found
    rw [brokenEscape?, if_pos quotes, found]

theorem judged_word {result : IdentifierOutcome}
    (other : ¬((marked slice).head? = some '\x22' ∨ (marked slice).head? = some '\x27'))
    (reported : IdentifierRecognizer.Reported result slice) :
    Judged mode start slice (.ofIdentifier start result) := by
  cases result with
  | name text => exact .inl ⟨rfl, by simp [TokenKind.IsPlain, Placed.ofIdentifier]⟩
  | word w => exact .inl ⟨rfl, by simp [TokenKind.IsPlain, Placed.ofIdentifier]⟩
  | malformedEscape loc =>
    obtain ⟨k, found, place⟩ := reported loc rfl
    refine .inr ⟨rfl, k, ?_, place⟩
    rw [List.append_nil] at found
    rw [brokenEscape?, if_neg other, found]

theorem Judged.readAs {after : List Char} (judged : Judged mode start slice p)
    (places : slice = located start (marked slice)) (some_ : slice ≠ [])
    (quiet : opensComment (marked slice) = false)
    (leading : leadingToken? mode (marked slice ++ after) = some (p.kind, slice.length)) :
    ReadAs mode start after (marked slice) p := by
  have chars : marked slice ≠ [] := by simpa [marked] using some_
  obtain ⟨kind, loc⟩ := p
  rw [← length_marked] at leading
  rcases judged with ⟨rfl, plain⟩ | ⟨rfl, k, broken, place⟩
  · exact .plain chars quiet leading plain
  · rw [places, located_getElem?, Option.map_map] at place
    obtain ⟨c, _, rfl⟩ := Option.map_eq_some_iff.1 place
    exact .brokenEscape chars quiet leading broken

/-- What a scan from the first character of a token gives: the kind and the length of its slice are
those of the plain text. -/
def Taken (mode : Mode) (t₀ : Tape) (start : Location) (told : TokenKind × Nat)
    (answer : Except ReadFailure Placed × Tape) : Prop :=
  ∃ p slice t', answer = (.ok p, t') ∧ t₀.Took false slice t' ∧ slice ≠ [] ∧
    Judged mode start slice p ∧ told = (p.kind, slice.length)

theorem scanNumber_tape (took : t₀.Took false [first] t) :
    Taken mode t₀ start (Prod.map .ofNumber id (numberAt mode first.1 (marked t.ahead)))
      (scanNumber mode first.1 start t) := by
  obtain ⟨result, slice, t', ran, took', some_, cut⟩ :=
    numberRecognizer_tape took (NumberRecognizer.start first.1 mode)
  refine ⟨_, slice, t', by rw [scanNumber, ran]; rfl, took', some_, judged_number result, ?_⟩
  rw [numberAt, cut]
  cases result <;> rfl

theorem scanOperator_tape (took : t₀.Took false [first] t) :
    Taken mode t₀ start (Prod.map .ofPunctuator id (punctuatorAt first.1 (marked t.ahead)))
      (scanOperator first.1 start t) := by
  obtain ⟨result, slice, t', ran, took', some_, cut⟩ := scanPunctuator_tape took
  refine ⟨_, slice, t', by rw [scanOperator, ran]; rfl, took', some_, judged_punctuator result, ?_⟩
  rw [cut]
  cases result <;> rfl

theorem scanFrom_tape (mode : Mode) (took : t₀.Took false [first] t) (last : t.last = first.2) :
    Taken mode t₀ first.2 (tokenFrom mode first.1 (marked t.ahead))
      (scanFrom mode first.1 first.2 t) := by
  unfold scanFrom tokenFrom
  by_cases quotes : first.1 = '\x22' ∨ first.1 = '\x27'
  · rw [if_pos quotes, if_pos quotes]
    obtain ⟨result, slice, t', ran, took', ⟨some_, reported⟩, cut⟩ :=
      stringRecognizer_tape took quotes mode
    have head := took.head took' some_
    refine ⟨_, slice, t', by rw [ran]; rfl, took', some_, judged_string ?_ reported, ?_⟩
    · simpa [head] using quotes
    · rw [cut]
      cases result <;> rfl
  rw [if_neg quotes, if_neg quotes]
  by_cases digit : isDecimalDigit first.1 = true
  · rw [if_pos digit, if_pos (.inl digit)]
    exact scanNumber_tape took
  rw [if_neg digit]
  by_cases point : first.1 = '.'
  · rw [if_pos point]
    obtain ⟨t', peeked, took', ahead⟩ := peek_tape took
    rw [peeked, ← ahead]
    by_cases number : (marked t'.ahead).head?.any isDecimalDigit = true
    · simp only [if_pos number]
      rw [if_pos (.inr ⟨point, number⟩)]
      exact scanNumber_tape took'
    · simp only [if_neg number]
      have noNumber : ¬BeginsNumber first.1 (marked t'.ahead) :=
        not_or.2 ⟨digit, fun both => number both.2⟩
      have noWord : ¬(first.1 = '\\' ∨ isIdentifierStart first.1 = true) := by
        rw [point]
        rintro (other | ⟨⟨⟩⟩)
        exact absurd other (by decide)
      rw [if_neg noNumber, if_neg noWord]
      exact scanOperator_tape took'
  have noNumber : ¬BeginsNumber first.1 (marked t.ahead) :=
    not_or.2 ⟨digit, fun both => point both.1⟩
  rw [if_neg point, if_neg noNumber]
  by_cases begins : first.1 = '\\' ∨ isIdentifierStart first.1 = true
  · rw [if_pos begins, if_pos begins]
    obtain ⟨result, slice, t', ran, took', ⟨some_, reported⟩, cut⟩ :=
      identifierRecognizer_tape took last begins mode
    have head := took.head took' some_
    refine ⟨_, slice, t', by rw [ran]; rfl, took', some_, judged_word ?_ reported, ?_⟩
    · simpa [head] using quotes
    · rw [cut]
      cases result <;> rfl
  · rw [if_neg begins, if_neg begins]
    exact scanOperator_tape took

end EcmaLex
