import EcmaLex.Library.Running
import EcmaLex.Proofs.Grammar.WordNumbers
import EcmaLex.Proofs.Reading.Words
import EcmaLex.Proofs.Source.EndOfInput
import EcmaLex.Proofs.Source.HandedOut

/-!
Where reading goes on after a malformed word. The rest of the word is passed over, whatever broke the
escape, with one exception: nothing is passed over behind a number that is no character
(`word_recovery`).
-/
namespace EcmaLex
open Text

variable {mode : Mode} {read : List Mark} {mark : Mark} {loc : Location}

section
variable [Library]

/-- Nothing that may come makes the word end in a bad number. -/
def NeverBad (read : List Mark) : Prop := ∀ text, ¬EndsInBadNumber (marked read ++ text)

theorem NeverBad.push (never : NeverBad read) (m : Mark) : NeverBad (read ++ [m]) := by
  intro text
  rw [marked_append, List.append_assoc]
  exact never _

theorem Escaping.never_bad {first : Bool} {escape : List Char}
    (escaping : Escaping wholeInWord first read loc escape)
    (unwritten : ∀ text, Unwritten (escape ++ mark.1 :: text)) : NeverBad (read ++ [mark]) := by
  intro text
  rw [marked_append, List.append_assoc]
  exact escaping.not_bad (unwritten text)

theorem Escaping.not_bad_yet {first : Bool} {escape : List Char}
    (escaping : Escaping wholeInWord first read loc escape) (unwritten : Unwritten escape) :
    ¬EndsInBadNumber (marked read) := by
  rw [← List.append_nil (marked read)]
  exact escaping.not_bad (by rwa [List.append_nil])

namespace IdentifierRecognizer

/-- What a move makes of one more character: the word goes on, or it is malformed and ends before a
character that is no part of it, or it ends in a bad number. -/
def Leads (read : List Mark) (mark : Mark) : Move State IdentifierOutcome → Prop
  | .more state => ¬EndsInBadNumber (marked (read ++ [mark])) ∧
      ∀ loc, state = .tail loc → NeverBad (read ++ [mark])
  | .stop back result => ∀ loc, result = .malformedEscape loc →
      back = [mark.1] ∧ isWordTail mark.1 = false ∧ NeverBad (read ++ [mark]) ∨
      back = [] ∧ EndsInBadNumber (marked (read ++ [mark])) ∧
        ∀ text, EndsInBadNumber (marked (read ++ [mark]) ++ text) → text = []

theorem leads_on {state : State} (sound : ¬EndsInBadNumber (marked (read ++ [mark])))
    (going : ∀ loc, state ≠ .tail loc) : Leads read mark (.more state) :=
  ⟨sound, fun loc tail => absurd tail (going loc)⟩

theorem leads_tail (never : NeverBad (read ++ [mark])) : Leads read mark (stepTail loc mark.1) := by
  unfold stepTail
  split
  · refine ⟨?_, fun _ _ => never⟩
    rw [← List.append_nil (marked _)]
    exact never []
  · rename_i other
    exact fun _ _ => .inl ⟨rfl, eq_false_of_ne_true other, never⟩

theorem leads_complete {e : Escape} {number : List Char} {n value : Nat} (full : WordNumber number n)
    (known : scalar? value = scalar? n)
    (escaping : Escaping wholeInWord e.before.chars.isEmpty (read ++ [mark]) e.loc ('u' :: number)) :
    Leads read mark (e.complete value) := by
  have judged (text : List Char) : wholeInWord e.before.chars.isEmpty ('u' :: number ++ text) =
      (scalar? n).any e.before.admits := by
    rw [List.cons_append, wholeInWord_u, full.written.scalar, full.counts_append, Bool.true_and]
    congr 1
    funext c
    unfold Name.admits
    split <;> rfl
  -- If the escape is broken, a bad number can only be the number itself.
  have itself (broken : (scalar? n).any e.before.admits = false) (text : List Char)
      (ends : EndsInBadNumber (marked (read ++ [mark]) ++ text)) : text = [] ∧ scalar? n = none := by
    obtain ⟨number', n', same, full', none_⟩ := escaping.bad_number ((judged text).trans broken) ends
    have tails : number ++ text = number' ++ [] := by
      rw [List.append_nil]
      exact (List.cons.inj same).2
    obtain ⟨rfl, rfl⟩ := full.written.unique full'.written tails
    exact ⟨by simpa using tails, none_⟩
  unfold Escape.complete
  rw [known]
  cases char : scalar? n with
  | none =>
    have broken : (scalar? n).any e.before.admits = false := by rw [char]; rfl
    exact fun _ _ => .inr ⟨rfl, escaping.ends_bad full char, fun text ends => (itself broken text ends).1⟩
  | some c =>
    by_cases admitted : e.before.admits c = true
    · simp only [if_pos admitted]
      have whole : (scalar? n).any e.before.admits = true := by rw [char]; exact admitted
      exact leads_on (Unbroken.not_bad (escaping.unbroken ((judged []).trans whole) full.written.plain)) (by simp)
    · simp only [if_neg admitted]
      have broken : (scalar? n).any e.before.admits = false := by
        rw [char]
        exact eq_false_of_ne_true admitted
      have never : NeverBad (read ++ [mark]) := by
        intro text ends
        rw [(itself broken text ends).2] at char
        cases char
      refine ⟨?_, fun _ _ => never⟩
      rw [← List.append_nil (marked _)]
      exact never []

theorem leads_digit {e : Escape} {remaining value : Nat} {digits : List Char} (all : HexDigits digits)
    (count : digits.length + remaining = 4) (more : 0 < remaining) (brace : digits = [] → mark.1 ≠ '{')
    (known : value = digitsValue 16 digits)
    (escaping : Escaping wholeInWord e.before.chars.isEmpty read e.loc ('u' :: digits)) :
    Leads read mark (stepDigit e remaining value mark.1) := by
  have pushed := escaping.push mark
  unfold stepDigit
  cases digit? : hexValue? mark.1 with
  | none =>
    apply leads_tail
    apply escaping.never_bad
    intro text
    apply Unwritten.short all (by omega)
    rintro c ⟨rfl⟩
    exact ⟨by simp [isHexDigit, digit?], brace⟩
  | some digit =>
    have all' := all.push digit?
    have value' : value * 16 + digit = digitsValue 16 (digits ++ [mark.1]) := by
      rw [digitsValue_push, digit?, known, Option.getD_some]
    by_cases last : remaining = 1
    · simp only [if_pos last, value']
      exact leads_complete (.four all' (by simp; omega)) rfl pushed
    · simp only [if_neg last]
      have short : (digits ++ [mark.1]).length < 4 := by
        rw [List.length_append, List.length_singleton]
        omega
      exact leads_on (pushed.not_bad_yet (.cut_short all' short)) (by simp)

theorem leads_braced {e : Escape} {value : Nat} {digits : List Char} (all : HexDigits digits)
    (known : value = min (digitsValue 16 digits) pastCodePoints)
    (escaping : Escaping wholeInWord e.before.chars.isEmpty read e.loc ('u' :: '{' :: digits)) :
    Leads read mark (stepBraced e value (Int32.ofNat digits.length) mark.1) := by
  have pushed := escaping.push mark
  unfold stepBraced
  by_cases closes : mark.1 = '}' ∧ 0 < Int32.ofNat digits.length
  · rw [if_pos closes]
    rw [closes.1] at pushed
    have full : WordNumber ('{' :: (digits ++ ['}'])) (digitsValue 16 digits) := .braced all closes.2
    exact leads_complete full (known ▸ scalar?_min _) pushed
  · rw [if_neg closes]
    cases digit? : hexValue? mark.1 with
    | none =>
      apply leads_tail
      apply escaping.never_bad
      intro text
      apply Unwritten.unclosed all
      rintro c ⟨rfl⟩
      exact ⟨by simp [isHexDigit, digit?], fun counted close => closes ⟨close, counted⟩⟩
    | some digit =>
      exact leads_on (pushed.not_bad_yet (.cut_open (all.push digit?))) (by simp)

theorem step_leads {state : State} (mark : Mark) (mode : Mode) (reads : state.Reads read)
    (passed : ∀ loc, state = .tail loc → NeverBad read) :
    Leads read mark (step mode state mark.1 mark.2) := by
  obtain ⟨c, loc⟩ := mark
  cases state with
  | plain n =>
    obtain ⟨_, unbroken⟩ := reads
    simp only [step, stepPlain]
    by_cases backslash : c = '\\'
    · subst backslash
      rw [if_pos rfl]
      have begun := Escaping.start (fun text => unbroken ('\\' :: text)) loc
      exact leads_on (begun.not_bad_yet .nil) (by simp)
    · rw [if_neg backslash]
      by_cases admitted : n.admits c = true
      · rw [if_pos admitted]
        have whole : Unbroken wholeInWord (read ++ [(c, loc)]) [] := Unbroken.plain (unbroken [c]) backslash
        exact leads_on whole.not_bad (by simp)
      · rw [if_neg admitted]
        intro place malformed
        exact absurd malformed (outcome_ne_malformed mode n place)
  | backslash e =>
    simp only [step]
    by_cases unicode : c = 'u'
    · subst unicode
      rw [if_pos rfl]
      have pushed := Escaping.push reads ('u', loc)
      exact leads_on (pushed.not_bad_yet (.cut_short .nil (by decide))) (by simp)
    · rw [if_neg unicode]
      exact leads_tail (Escaping.never_bad reads fun text => .other unicode text)
  | marked e =>
    simp only [step]
    by_cases brace : c = '{'
    · subst brace
      rw [if_pos rfl]
      have pushed := Escaping.push reads ('{', loc)
      exact leads_on (pushed.not_bad_yet (.cut_open .nil)) (by simp)
    · rw [if_neg brace]
      exact leads_digit .nil rfl (by decide) (fun _ => brace) rfl reads
  | fourDigits e remaining value =>
    obtain ⟨digits, all, count, more, begun, known, escaping⟩ := reads
    exact leads_digit all count more (fun none_ => absurd none_ begun) known escaping
  | braced e value count =>
    obtain ⟨digits, all, known, rfl, escaping⟩ := reads
    exact leads_braced all known escaping
  | tail start => exact leads_tail ((passed start rfl).push _)

end IdentifierRecognizer

open IdentifierRecognizer

/-- What is known after some characters: no beginning of them ends in a bad number, and none ever will once
the rest of the word is passed over. -/
structure WordSoFar (state : State) (read : List Mark) : Prop where
  reads : state.Reads read
  before : ∀ word, word <+: marked read → ¬EndsInBadNumber word
  passed : ∀ loc, state = .tail loc → NeverBad read

theorem WordSoFar.start : WordSoFar IdentifierRecognizer.start [] where
  reads := ⟨rfl, fun _ => by simp [Unbroken]⟩
  before := by
    rintro word front ⟨pre, number, n, rfl, _⟩
    simp at front
  passed := by
    intro loc tail
    cases tail

variable {state state' : State} {c first : Char}

theorem before_push (before : ∀ word, word <+: marked read → ¬EndsInBadNumber word)
    (last : ¬EndsInBadNumber (marked (read ++ [mark]))) :
    ∀ word, word <+: marked (read ++ [mark]) → ¬EndsInBadNumber word := by
  intro word front
  rw [marked_append, marked_cons, marked_nil, List.prefix_concat_iff] at front
  rcases front with rfl | front
  · simpa using last
  · exact before word front

theorem WordSoFar.more (sofar : WordSoFar state read)
    (stepped : (identifierRecognizer mode).step state c loc = .more state') :
    WordSoFar state' (read ++ [(c, loc)]) := by
  have answers := step_answers (c, loc) mode sofar.reads
  have leads := step_leads (c, loc) mode sofar.reads sofar.passed
  rw [show step mode state c loc = .more state' from stepped] at answers leads
  exact ⟨answers, before_push sofar.before leads.1, leads.2⟩

/-- Read from behind its first character, the word ends in a bad number although more of a word follows. -/
def SplitsWord (first : Char) (b : SourceBuffer) : Prop :=
  ∃ marks c loc b', HandsOut b (marks ++ [(c, loc)]) b' ∧ EndsInBadNumber (first :: marked marks) ∧
    isWordTail c = true

variable {b b' s : SourceBuffer} {marks : List Mark}

theorem not_splitsWord_of_never (handed : HandsOut b marks s)
    (before : ∀ word, word <+: first :: marked marks → ¬EndsInBadNumber word)
    (never : NeverBad ((first, loc) :: marks)) : ¬SplitsWord first b := by
  rintro ⟨marks', c, place, b', handed', ends, _⟩
  obtain ⟨_, word, _⟩ := handed'.split
  rcases word.comparable handed with shorter | ⟨more, rfl⟩
  · exact before _ (List.cons_prefix_cons.2 ⟨rfl, shorter.map Prod.fst⟩) ends
  · exact never (marked more) (by simpa using ends)

theorem not_splitsWord_of_end (handed : HandsOut b marks s) (last : s.next false = (.ok none, b'))
    (before : ∀ word, word <+: first :: marked marks → ¬EndsInBadNumber word) : ¬SplitsWord first b := by
  rintro ⟨marks', c, place, b'', handed', ends, _⟩
  have inside : marks' <+: marks := by
    rcases handed'.comparable handed with shorter | ⟨more, same⟩
    · exact (List.prefix_append _ _).trans shorter
    · rw [← same] at handed'
      cases more with
      | nil =>
        rw [List.append_nil] at same
        exact same ▸ List.prefix_append _ _
      | cons m more =>
        obtain ⟨_, answered, _⟩ := (handed.rest handed').of_cons
        cases answered.symm.trans last
  exact before _ (List.cons_prefix_cons.2 ⟨rfl, inside.map Prod.fst⟩) ends

/-- Behind a bad number reading goes on at once. -/
theorem splitsWord_iff (handed : HandsOut b (marks ++ [mark]) b')
    (before : ∀ word, word <+: first :: marked marks → ¬EndsInBadNumber word)
    (ends : EndsInBadNumber (first :: marked (marks ++ [mark])))
    (only : ∀ text, EndsInBadNumber (first :: marked (marks ++ [mark]) ++ text) → text = []) :
    SplitsWord first b ↔ ∃ c b'', b'.next false = (.ok (some c), b'') ∧ isWordTail c = true := by
  constructor
  · rintro ⟨marks', c, place, b'', handed', ends', tail⟩
    obtain ⟨_, word, _⟩ := handed'.split
    have same : marks' = marks ++ [mark] := by
      rcases word.comparable handed with shorter | ⟨more, rfl⟩
      · rcases List.prefix_concat_iff.1 shorter with same | inside
        · exact same
        · exact absurd ends' (before _ (List.cons_prefix_cons.2 ⟨rfl, inside.map Prod.fst⟩))
      · have none_ : marked more = [] := only _ (by simpa using ends')
        rw [List.map_eq_nil_iff.1 none_, List.append_nil]
    rw [same] at handed'
    obtain ⟨_, answered, _⟩ := (handed.rest handed').of_cons
    exact ⟨c, _, answered, tail⟩
  · rintro ⟨c, b'', answered, tail⟩
    exact ⟨_, c, _, b'', handed.append (.cons answered (.nil b'')), ends, tail⟩

theorem isWordTail_eq_false : isWordTail c = false ↔ isIdentifierPart c = false ∧ c ≠ '\\' := by
  simp [isWordTail]

/-- Behind a malformed word the next character is no part of a word, unless the word is split behind a
number that is no character. -/
theorem word_recovery (begins : first = '\\' ∨ isIdentifierStart first = true) (mode : Mode)
    (malformed : (identifierRecognizer mode).resume IdentifierRecognizer.start first b =
      (.ok (.malformedEscape loc), b')) :
    (∀ c b'', b'.next false = (.ok (some c), b'') → isIdentifierPart c = false ∧ c ≠ '\\') ↔
      ¬SplitsWord first b := by
  obtain ⟨state, stepped⟩ := step_start mode (CharSource.here b) begins
  rw [Recognizer.resume_more stepped] at malformed
  obtain ⟨state, read, s, sofar, handed, last⟩ := Recognizer.run_last_step rfl
    (fun state read => WordSoFar state ((first, CharSource.here b) :: read))
    (fun sofar stepped => sofar.more stepped) (WordSoFar.start.more stepped) (.nil b) malformed
  cases last with
  | atEnd taken same =>
    have drained := SourceBuffer.drained_of_next taken
    refine iff_of_true ?_ (not_splitsWord_of_end handed taken sofar.before)
    intro c b'' answered
    cases (SourceBuffer.next_end drained.2 drained.1.take).symm.trans answered
  | @stop c s' back taken stepped =>
    have leads := step_leads (c, CharSource.here s') mode sofar.reads sofar.passed
    rw [show step mode state c (CharSource.here s') = .stop back (.malformedEscape loc) from stepped] at leads
    have handed' := handed.append (.cons taken (.nil s'))
    rcases leads loc rfl with ⟨rfl, other, never⟩ | ⟨rfl, ends, only⟩
    · have last : ¬EndsInBadNumber (marked ((first, CharSource.here b) :: read ++ [(c, CharSource.here s')])) := by
        rw [← List.append_nil (marked _)]
        exact never []
      refine iff_of_true ?_ (not_splitsWord_of_never handed' (before_push sofar.before last) never)
      intro d b'' answered
      obtain ⟨_, again⟩ := SourceBuffer.next_putBack c s'
      cases again.symm.trans answered
      exact isWordTail_eq_false.1 other
    · rw [splitsWord_iff handed' sofar.before ends only]
      simp only [not_exists, not_and, Bool.not_eq_true, ← isWordTail_eq_false]
      rfl

theorem exists_wordRun {text : String} {rest : List Char} (same : normalize text.toList = first :: rest)
    (begins : first = '\\' ∨ isIdentifierStart first = true) (mode : Mode) (capacity : Nat) (line : UInt32) :
    ∃ b result b' t, (SourceBuffer.ofReader (.ofText text) capacity line).next false = (.ok (some first), b) ∧
      (identifierRecognizer mode).resume IdentifierRecognizer.start first b = (.ok result, b') ∧
      result.bare = (wordAt mode first rest).1 ∧ b'.Follows t ∧
      b'.toCome = (first :: rest).drop (wordAt mode first rest).2 := by
  have follows := SourceBuffer.follows_ofText same capacity line
  have kept : Tape.dropped false (first, (⟨line, 0⟩ : Location)) = false := rfl
  have ahead : (Tape.ofText line (first :: rest)).ahead = (first, ⟨line, 0⟩) :: _ := located_cons _ _ _
  obtain ⟨b, taken, follows⟩ := SourceBuffer.simulation.converse.next follows false |>.answer
    (Tape.next_kept ahead kept)
  obtain ⟨result, slice, t, answered, took, _, cut⟩ :=
    identifierRecognizer_tape ((Tape.Took.refl false _).char ahead kept) rfl begins mode
  obtain ⟨b', answered', follows'⟩ :=
    (SourceBuffer.simulation.converse.resume follows _ _ first).answer answered
  rw [marked_located] at cut
  have whole : first :: rest = marked slice ++ marked t.ahead := by
    rw [← marked_append, ← took.ahead, ahead, marked_cons, marked_located]
  refine ⟨b, result, b', t, taken, answered', by rw [cut], follows', ?_⟩
  rw [follows'.toCome, cut, whole, ← length_marked, List.drop_left]

end

theorem malformed_of_bare {result : IdentifierOutcome} (bare : result.bare = .malformedEscape default) :
    ∃ loc, result = .malformedEscape loc := by
  cases result with
  | malformedEscape loc => exact ⟨loc, rfl⟩
  | name text => cases bare
  | word w => cases bare

open Running

/-- A character that may not stand in a word, with more of the word behind it. -/
theorem word_recovery_solidus :
    ∃ b b' loc, (SourceBuffer.ofReader (.ofText "a\\u\x7b2F\x7db+") 512 1).next false = (.ok (some 'a'), b) ∧
      (identifierRecognizer .sloppy).resume IdentifierRecognizer.start 'a' b =
        (.ok (.malformedEscape loc), b') ∧
      ¬SplitsWord 'a' b ∧ b'.toCome = ['+'] := by
  have begins : 'a' = '\\' ∨ isIdentifierStart 'a' = true := .inr (by decide)
  have same : normalize "a\\u\x7b2F\x7db+".toList =
      'a' :: ['\\', 'u', '{', '2', 'F', '}', 'b', '+'] := rfl
  have cut : wordAt .sloppy 'a' ['\\', 'u', '{', '2', 'F', '}', 'b', '+'] =
      (.malformedEscape default, 8) := by decide
  obtain ⟨b, result, b', t, taken, answered, bare, follows, toCome⟩ :=
    exists_wordRun same begins .sloppy 512 1
  rw [cut] at bare toCome
  obtain ⟨loc, rfl⟩ := malformed_of_bare bare
  refine ⟨b, b', loc, taken, answered, (word_recovery begins .sloppy answered).1 ?_, toCome⟩
  intro c b'' next
  obtain ⟨_, next'⟩ := follows.next_toCome toCome
  cases next'.symm.trans next
  decide

/-- The rest of a word is left behind a number past the last code point, although it begins with a letter. -/
theorem word_recovery_fails :
    ∃ b b' b'' loc, (SourceBuffer.ofReader (.ofText "\\u\x7b110000\x7dab") 512 1).next false =
        (.ok (some '\\'), b) ∧
      (identifierRecognizer .sloppy).resume IdentifierRecognizer.start '\\' b =
        (.ok (.malformedEscape loc), b') ∧
      b'.next false = (.ok (some 'a'), b'') ∧ ¬(isIdentifierPart 'a' = false ∧ 'a' ≠ '\\') := by
  have same : normalize "\\u\x7b110000\x7dab".toList =
      '\\' :: ['u', '{', '1', '1', '0', '0', '0', '0', '}', 'a', 'b'] := rfl
  have cut : wordAt .sloppy '\\' ['u', '{', '1', '1', '0', '0', '0', '0', '}', 'a', 'b'] =
      (.malformedEscape default, 10) := by decide
  obtain ⟨b, result, b', t, taken, answered, bare, follows, toCome⟩ :=
    exists_wordRun same (.inl rfl) .sloppy 512 1
  rw [cut] at bare toCome
  obtain ⟨loc, rfl⟩ := malformed_of_bare bare
  obtain ⟨b'', next⟩ := follows.next_toCome toCome
  exact ⟨b, b', b'', loc, taken, answered, next, by decide⟩

end EcmaLex
