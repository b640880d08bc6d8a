import EcmaLex.Proofs.Reading.Tokens

/-!
A scan on a tape never fails. It passes over a gap of trivia and takes the slice of one token, which is
read as the slice says (`scan_tape`).
-/
namespace EcmaLex
open Text CharSource

variable {mode : Mode} {loc start : Location} {text after : List Char} {t₀ t t' : Tape}
  {first : Mark} {slice : List Mark} {p : Placed} {answer : Option Placed}

/-- What a solidus opens is told by the character after it. -/
theorem afterSolidus_tape (took : t₀.Took false [first] t) :
    ∃ t', afterSolidus t = (.ok .operator, t') ∧ t₀.Took false [first] t' ∧
        (∀ c, (marked t'.ahead).head? = some c → c ≠ '/' ∧ c ≠ '*') ∨
      (∃ place, afterSolidus t = (.ok .lineComment, t') ∧ t₀.Took false [first, ('/', place)] t') ∨
      ∃ place, afterSolidus t = (.ok .blockComment, t') ∧ t₀.Took false [first, ('*', place)] t' := by
  unfold afterSolidus
  cases ahead : t.ahead with
  | nil =>
    rw [Tape.next_end (by simp [ahead])]
    exact ⟨_, .inl ⟨rfl, took.atEnd ahead, by simp⟩⟩
  | cons m rest =>
    obtain ⟨c, place⟩ := m
    have unskipped : Tape.dropped false (c, place) = false := by simp [Tape.dropped]
    rw [Tape.next_kept ahead unskipped]
    have on := took.char ahead unskipped
    by_cases line : c = '/'
    · subst line
      exact ⟨_, .inr (.inl ⟨place, rfl, on⟩)⟩
    by_cases block : c = '*'
    · subst block
      exact ⟨_, .inr (.inr ⟨place, rfl, on⟩)⟩
    · obtain ⟨t', put, took', ahead'⟩ := Tape.Took.putBackAll on (by simpa using unskipped)
      refine ⟨t', .inl ⟨?_, took', ?_⟩⟩
      · simp only [if_neg line, if_neg block]
        rw [← put]
        rfl
      · rw [ahead']
        rintro d ⟨rfl⟩
        exact ⟨line, block⟩

theorem comment_at {opener : Char} {place : Location} {body : List Mark}
    (opened : t₀.Took false [('/', start), (opener, place)] t) (plain : isFormatControl opener = false)
    (took : t.Took true body t') (spot : t₀.At loc text) (fresh : t₀.taken = []) :
    ∃ rest, text = '/' :: opener :: marked body ++ rest ∧
      lexeme t' = visible ('/' :: opener :: marked body) ∧
      t'.At (loc.past ('/' :: opener :: marked body)) rest := by
  have solidus : isFormatControl '/' = false := by decide
  have whole : t₀.Took true ([('/', start), (opener, place)] ++ body) t' :=
    (opened.skipping (by simp [plain, solidus])).trans took
  obtain ⟨_, rest, chars, spot'⟩ := whole.at spot
  exact ⟨rest, chars, whole.lexeme fresh, spot'⟩

variable [Library]

/-- What a scan has done to the text that was ahead. -/
inductive Scanned (mode : Mode) (loc : Location) : List Char → Option Placed → Tape → Prop
  | passed {gap rest items t'} : Spaced rest gap items → '\n' ∉ gap → t'.At (loc.past gap) rest →
      Scanned mode loc (gap ++ rest) none t'
  | token {gap slice rest items p t'} : Spaced (slice ++ rest) gap items → '\n' ∉ gap →
      ReadAs mode (loc.past gap) rest slice p → lexeme t' = kept slice →
      t'.At ((loc.past gap).past slice) rest → Scanned mode loc (gap ++ (slice ++ rest)) (some p) t'

theorem Scanned.prepend {gap : List Char} {items : List Trivia} (spaced : Spaced text gap items)
    (oneLine : '\n' ∉ gap) (scanned : Scanned mode (loc.past gap) text answer t') :
    Scanned mode loc (gap ++ text) answer t' := by
  cases scanned with
  | passed spaced' oneLine' spot =>
    rw [← List.append_assoc]
    refine .passed (spaced.append spaced') (by simp [oneLine, oneLine']) ?_
    rwa [Location.past_append]
  | token spaced' oneLine' read lexeme_ spot =>
    rw [← List.append_assoc]
    refine .token (spaced.append spaced') (by simp [oneLine, oneLine']) ?_ lexeme_ ?_
    · rwa [Location.past_append]
    · rwa [Location.past_append loc]

theorem Scanned.ofSlice {slice rest : List Char} (read : ReadAs mode loc rest slice p)
    (lexeme_ : lexeme t' = kept slice) (spot : t'.At (loc.past slice) rest) :
    Scanned mode loc (slice ++ rest) (some p) t' :=
  show Scanned mode loc ([] ++ (slice ++ rest)) (some p) t' from
    .token .nil (by simp) read lexeme_ spot

theorem Taken.scanned {told : TokenKind × Nat} {given : Except ReadFailure Placed × Tape}
    (taken : Taken mode t₀ loc told given) (spot : t₀.At loc text) (fresh : t₀.taken = [])
    (leading : leadingToken? mode text = some told) :
    ∃ p t', given = (.ok p, t') ∧ Scanned mode loc text (some p) t' := by
  obtain ⟨p, slice, t', rfl, took, some_, judged, rfl⟩ := taken
  obtain ⟨places, rest, rfl, spot'⟩ := took.at spot
  have own : opensComment (marked slice) = false := by
    apply eq_false_of_ne_true
    intro opens
    rw [leadingToken?_opensComment (opensComment_append opens)] at leading
    cases leading
  refine ⟨p, t', rfl, .ofSlice (judged.readAs places some_ own leading) ?_ spot'⟩
  rw [took.lexeme fresh, kept, own]

theorem lineComment_scanned {place : Location} (opened : t₀.Took false [('/', start), ('/', place)] t)
    (spot : t₀.At loc text) (fresh : t₀.taken = []) :
    ∃ result t', lineComment.run () t = (.ok result, t') ∧ Scanned mode loc text none t' := by
  obtain ⟨result, body, t', ran, took, plain, ends⟩ := lineComment_tape t
  obtain ⟨rest, rfl, _, spot'⟩ := comment_at opened (by decide) took spot fresh
  refine ⟨result, t', ran, .passed (spaced_lineComment plain ?_) ?_ spot'⟩
  · rw [spot'.ahead, marked_located] at ends
    exact ends
  · simp [plain]

theorem blockComment_scanned {place : Location} (opened : t₀.Took false [('/', start), ('*', place)] t)
    (spot : t₀.At loc text) (fresh : t₀.taken = []) :
    ∃ result t', blockComment.run {} t = (.ok result, t') ∧
      Scanned mode loc text (Placed.ofBlockComment? loc result) t' := by
  obtain ⟨result, body, t', ran, took, ended⟩ := blockComment_tape t
  obtain ⟨rest, rfl, lexeme_, spot'⟩ := comment_at opened (by decide) took spot fresh
  refine ⟨result, t', ran, ?_⟩
  cases result with
  | closed crossedLine =>
    obtain ⟨closed, crossed⟩ := ended
    cases crossedLine with
    | true => exact .ofSlice (.crossingComment closed (crossed.1 rfl)) lexeme_ spot'
    | false =>
      have plain : '\n' ∉ marked body := fun feed => absurd (crossed.2 feed) (by decide)
      exact .passed (spaced_blockComment closed) (by simp [plain]) spot'
  | unterminated =>
    obtain ⟨opened, none_⟩ := ended
    have rest_ : rest = [] := by
      rw [← marked_located (loc.past ('/' :: '*' :: marked body)) rest, ← spot'.ahead, none_]
      rfl
    exact .ofSlice (.openComment opened rest_) lexeme_ spot'

theorem scanSolidus_tape (took : t₀.Took false [('/', loc)] t) (spot : t₀.At loc text)
    (fresh : t₀.taken = []) :
    ∃ answer t', scanSolidus loc t = (.ok answer, t') ∧ Scanned mode loc text answer t' := by
  unfold scanSolidus
  obtain ⟨t₁, ⟨decided, one, other⟩ | ⟨place, decided, two⟩ | ⟨place, decided, two⟩⟩ :=
    afterSolidus_tape took
  · have leading : leadingToken? mode text =
        some (Prod.map .ofPunctuator id (punctuatorAt '/' (marked t₁.ahead))) := by
      obtain ⟨_, rest, rfl, spot'⟩ := one.at spot
      rw [spot'.ahead, marked_located] at other ⊢
      have alone : ¬BeginsTrivia '/' rest := by
        rintro (blank | feed | ⟨_, line | block⟩)
        · exact absurd blank (by decide)
        · exact absurd feed (by decide)
        · exact (other '/' line).1 rfl
        · exact (other '*' block).2 rfl
      exact (if_neg alone).trans rfl
    obtain ⟨p, t', given, scanned⟩ := (scanOperator_tape one).scanned spot fresh leading
    refine ⟨some p, t', ?_, scanned⟩
    rw [decided]
    simp only
    rw [given]
    rfl
  · obtain ⟨result, t', ran, scanned⟩ := lineComment_scanned two spot fresh
    refine ⟨none, t', ?_, scanned⟩
    rw [decided]
    simp only
    rw [ran]
    rfl
  · obtain ⟨result, t', ran, scanned⟩ := blockComment_scanned two spot fresh
    refine ⟨_, t', ?_, scanned⟩
    rw [decided]
    simp only
    rw [ran]
    rfl

theorem scanFirst_tape {first : Char} (mode : Mode) (took : t₀.Took false [(first, loc)] t)
    (last : t.last = loc) (spot : t₀.At loc text) (fresh : t₀.taken = [])
    (significant : isBlank first = false) :
    ∃ answer t',
      (if first = '\n' then ((.ok (some ⟨.eol, loc⟩) : Except ReadFailure (Option Placed)), t)
        else if first = '/' then scanSolidus loc t
        else mapAnswer some (scanFrom mode first loc t)) = (.ok answer, t') ∧
      Scanned mode loc text answer t' := by
  by_cases feed : first = '\n'
  · subst feed
    rw [if_pos rfl]
    obtain ⟨_, rest, rfl, spot'⟩ := took.at spot
    exact ⟨_, t, rfl, .ofSlice .lineBreak (took.lexeme fresh) spot'⟩
  rw [if_neg feed]
  by_cases solidus : first = '/'
  · subst solidus
    rw [if_pos rfl]
    exact scanSolidus_tape took spot fresh
  · rw [if_neg solidus]
    have leading : leadingToken? mode text = some (tokenFrom mode first (marked t.ahead)) := by
      obtain ⟨_, rest, rfl, spot'⟩ := took.at spot
      rw [spot'.ahead, marked_located]
      have alone : ¬BeginsTrivia first rest := by
        rintro (blank | same | ⟨same, _⟩)
        · rw [significant] at blank
          cases blank
        · exact feed same
        · exact solidus same
      exact if_neg alone
    obtain ⟨p, t', given, scanned⟩ := (scanFrom_tape mode took last).scanned spot fresh leading
    exact ⟨some p, t', by rw [given]; rfl, scanned⟩

theorem scanOnce_tape (mode : Mode) (spot : t.At loc text) :
    ∃ answer t', scanOnce mode t = (.ok answer, t') ∧ Scanned mode loc text answer t' := by
  obtain ⟨gap, rest, t₀, ⟨rfl, blank, spot₀, fresh⟩, found⟩ := nextSignificant_tape spot
  have spaced : Spaced rest gap (gap.map .blank) := spaced_blanks blank
  have oneLine : '\n' ∉ gap := fun feed => absurd (blank _ feed) (by decide)
  unfold scanOnce
  rcases found with ⟨rfl, none_⟩ | ⟨first, t₁, head, significant, taken, took, last⟩
  · have start : lexemeStart ({ t₀ with last := t₀.ending } : Tape) = loc.past gap := by
      change Tape.lexemeStart _ = _
      simp only [Tape.lexemeStart, fresh]
      exact spot₀.ending
    refine ⟨_, _, by rw [none_], ?_⟩
    rw [start]
    have ended : Scanned mode (loc.past gap) ([] ++ []) (some ⟨.eof, loc.past gap⟩)
        { t₀ with last := t₀.ending } := by
      refine .ofSlice (.ending rfl) ?_ ⟨spot₀.ahead, spot₀.ending⟩
      change marked t₀.taken.reverse = []
      rw [fresh]
      rfl
    exact ended.prepend spaced oneLine
  · have start : lexemeStart t₁ = loc.past gap := by
      change t₁.lexemeStart = _
      rw [Tape.lexemeStart, took.taken, fresh]
      rfl
    rw [taken]
    simp only [start]
    obtain ⟨answer, t', given, scanned⟩ := scanFirst_tape mode took last spot₀ fresh significant
    exact ⟨answer, t', given, scanned.prepend spaced oneLine⟩

/-- The next token of a tape, after a gap. -/
theorem scan_tape (mode : Mode) (spot : t.At loc text) :
    ∃ p t', scan mode t = (.ok p, t') ∧ Scanned mode loc text (some p) t' := by
  fun_induction scan mode t generalizing loc text with
  | case1 t cause t₁ once =>
    obtain ⟨answer, t', given, _⟩ := scanOnce_tape mode spot
    rw [once] at given
    cases given
  | case2 t p t₁ once =>
    obtain ⟨answer, t', given, scanned⟩ := scanOnce_tape mode spot
    rw [once] at given
    cases given
    exact ⟨p, t₁, rfl, scanned⟩
  | case3 t t₁ once ih =>
    obtain ⟨answer, t', given, scanned⟩ := scanOnce_tape mode spot
    rw [once] at given
    cases given
    cases scanned with
    | passed spaced oneLine spot' =>
      obtain ⟨p, t', scanned, rest⟩ := ih spot'
      exact ⟨p, t', scanned, rest.prepend spaced oneLine⟩

end EcmaLex
