import EcmaLex.Proofs.Grammar.Punctuators
import EcmaLex.Proofs.Reading.Tokens
import EcmaLex.Proofs.Source.HandedOut

/-!
Maximal munch. In front of any characters a buffer that has handed out the first one answers with the longest
punctuator that they begin with, and gives back whatever it has read beyond it (`scanPunctuator_longest`).
-/
namespace EcmaLex
open CharSource Text

variable {b : SourceBuffer} {t : Tape} {first : Char} {loc : Location}

/-- Before the first character was handed out. -/
def Tape.before (t : Tape) (first : Mark) : Tape := { t with ahead := first :: t.ahead, taken := [] }

theorem Tape.took_first {m : Mark} (taken : t.taken = [m]) : (t.before m).Took false [m] t where
  ahead := rfl
  taken := taken
  ending := rfl

/-- If no punctuator begins with the character, there is none, and the buffer is as before. Otherwise the
answer is the longest one, a question mark alone before a fraction; it becomes the lexeme, and what comes
after it still lies ahead at its place. -/
theorem scanPunctuator_longest (follows : b.Follows t) (taken : b.taken = [(first, loc)]) :
    ((∀ q : Punctuator, q.spelling.toList.head? ≠ some first) → scanPunctuator first b = (.ok none, b)) ∧
    ((∃ q : Punctuator, q.spelling.toList.head? = some first) → ∃ p slice b' t',
      scanPunctuator first b = (.ok (some p), b') ∧ p.Leads (first :: marked t.ahead) ∧
      lexeme b' = p.spelling.toList ∧ b'.Follows t' ∧ (first, loc) :: t.ahead = slice ++ t'.ahead ∧
      marked slice = p.spelling.toList) := by
  constructor
  · intro never
    have single : Punctuator.single? first = none := by
      rw [Option.eq_none_iff_forall_not_mem]
      intro p found
      exact never p (by rw [Punctuator.spelling_single? found]; rfl)
    simp only [scanPunctuator, single]
  · rintro ⟨q, begins⟩
    obtain ⟨raw, onTape⟩ := follows
    have took := Tape.took_first (onTape.taken.trans taken)
    obtain ⟨result, slice, t', ran, took', -, told⟩ := scanPunctuator_tape took
    obtain ⟨b', ran', follows'⟩ :=
      (SourceBuffer.simulation.converse.scanPunctuator ⟨raw, onTape⟩ first).answer ran
    cases result with
    | none => exact absurd begins ((punctuatorAt_none told).2 q)
    | some p =>
      obtain ⟨leads, length⟩ := punctuatorAt_some told
      have text : first :: marked t.ahead = marked slice ++ marked t'.ahead := by
        rw [← marked_append, ← took'.ahead]
        rfl
      have spelled : marked slice = p.spelling.toList := by
        have inside : marked slice <+: first :: marked t.ahead := ⟨_, text.symm⟩
        have short : (marked slice).length = p.spelling.toList.length := (length_marked slice).trans length
        exact (List.prefix_of_prefix_length_le inside leads.spelled short.le).eq_of_length short
      refine ⟨p, slice, b', t', ran', leads, ?_, follows', took'.ahead, spelled⟩
      rw [SourceBuffer.simulation.lexeme follows', took'.lexeme rfl, if_neg Bool.false_ne_true, spelled]

/-- The point that would make an optional chain is given back before a digit. -/
theorem scanPunctuator_longest_fraction :
    ∃ b b' loc, (SourceBuffer.ofReader (.ofText "?.5") 512 1).next false = (.ok (some '?'), b) ∧
      b.taken = [('?', loc)] ∧ Punctuator.question.spelling.toList.head? = some '?' ∧
      scanPunctuator '?' b = (.ok (some .question), b') ∧ b'.toCome = ['.', '5'] := by
  have same : normalize "?.5".toList = ['?', '.', '5'] := rfl
  have follows := SourceBuffer.follows_ofText same 512 1
  have ahead : (Tape.ofText 1 ['?', '.', '5']).ahead = ('?', ⟨1, 0⟩) :: located ⟨1, 1⟩ ['.', '5'] := rfl
  obtain ⟨b, next, follows₁⟩ :=
    (SourceBuffer.simulation.converse.next follows false).answer (Tape.next_kept ahead rfl)
  obtain ⟨raw, onTape⟩ := id follows₁
  have taken : b.taken = [('?', ⟨1, 0⟩)] := onTape.taken.symm
  obtain ⟨p, slice, b', t', ran, leads, -, follows', cut, spelled⟩ :=
    (scanPunctuator_longest follows₁ taken).2 ⟨.question, rfl⟩
  obtain rfl := leads.fraction ⟨'5', [], rfl, rfl⟩
  refine ⟨b, b', ⟨1, 0⟩, next, taken, rfl, ran, ?_⟩
  obtain ⟨_, rfl⟩ := marked_eq_singleton (c := '?') spelled
  have rest : located ⟨1, 1⟩ ['.', '5'] = t'.ahead := (List.cons.inj cut).2
  rw [follows'.toCome, ← rest, marked_located]

end EcmaLex
