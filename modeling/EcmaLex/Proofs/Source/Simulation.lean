import EcmaLex.Scan

/-!
The scanners see a source only through its operations. If a second source answers every operation as
the first one does, then so does it every scanner (`PartialSimulation.scan`). The first source may fail
at any operation; nothing is asked of the second one from there on.
-/
namespace EcmaLex
open CharSource

variable {σ τ α β ρ : Type}

/-- Two answers agree if their results are equal and their sources stay related. -/
def Agree (R : σ → τ → Prop) (a : Except ReadFailure α × σ) (b : Except ReadFailure α × τ) : Prop :=
  a.1 = b.1 ∧ R a.2 b.2

/-- The second answer confirms the first: unless that is a failure, the two agree. -/
def Confirms (R : σ → τ → Prop) (a : Except ReadFailure α × σ) (b : Except ReadFailure α × τ) : Prop :=
  ∀ result, a.1 = .ok result → b.1 = .ok result ∧ R a.2 b.2

variable {R : σ → τ → Prop} {a : Except ReadFailure α × σ} {b : Except ReadFailure α × τ}

theorem Agree.confirmed (agree : Agree R a b) : Confirms (fun t s => R s t) b a :=
  fun _ answered => ⟨agree.1.trans answered, agree.2⟩

namespace Confirms

theorem error (cause : ReadFailure) (s : σ) : Confirms R (.error cause, s) b :=
  fun _ answered => nomatch answered

theorem ok {s : σ} {t : τ} (related : R s t) (result : α) : Confirms R (.ok result, s) (.ok result, t) :=
  fun _ answered => ⟨answered, related⟩

theorem answer (confirms : Confirms R a b) {result : α} {s : σ} (known : a = (.ok result, s)) :
    ∃ t, b = (.ok result, t) ∧ R s t := by
  subst known
  obtain ⟨same, related⟩ := confirms result rfl
  exact ⟨b.2, Prod.ext same rfl, related⟩

theorem mapAnswer (confirms : Confirms R a b) (f : α → β) :
    Confirms R (mapAnswer f a) (mapAnswer f b) := by
  obtain ⟨cause | result, s⟩ := a
  · exact .error cause s
  · obtain ⟨t, rfl, related⟩ := confirms.answer rfl
    exact .ok related (f result)

end Confirms

variable [CharSource σ] [CharSource τ]

/-- Related sources answer every operation alike. -/
structure Simulation (R : σ → τ → Prop) : Prop where
  next {s t} : R s t → ∀ skipFormat, Agree R (next skipFormat s) (next skipFormat t)
  putBack {s t} : R s t → ∀ c, R (putBack c s) (putBack c t)
  beginLexeme {s t} : R s t → R (beginLexeme s) (beginLexeme t)
  lexeme {s t} : R s t → lexeme s = lexeme t
  lexemeStart {s t} : R s t → lexemeStart s = lexemeStart t
  here {s t} : R s t → here s = here t

/-- The second of two related sources answers every operation as the first does, as long as the first
does not fail. -/
structure PartialSimulation (R : σ → τ → Prop) : Prop where
  next {s t} : R s t → ∀ skipFormat, Confirms R (next skipFormat s) (next skipFormat t)
  putBack {s t} : R s t → ∀ c, R (putBack c s) (putBack c t)
  beginLexeme {s t} : R s t → R (beginLexeme s) (beginLexeme t)
  lexeme {s t} : R s t → lexeme s = lexeme t
  lexemeStart {s t} : R s t → lexemeStart s = lexemeStart t
  here {s t} : R s t → here s = here t

/-- Read from the second source to the first. -/
theorem Simulation.converse (sim : Simulation R) : PartialSimulation fun (t : τ) (s : σ) => R s t where
  next related skipFormat := (sim.next related skipFormat).confirmed
  putBack related c := sim.putBack related c
  beginLexeme related := sim.beginLexeme related
  lexeme related := (sim.lexeme related).symm
  lexemeStart related := (sim.lexemeStart related).symm
  here related := (sim.here related).symm

theorem nextSignificant_eq (s : σ) :
    nextSignificant s =
      match next true (beginLexeme s) with
      | (.ok (some c), s') =>
        if c = '\x00' || Text.isWhitespace c || Text.isFormatControl c then nextSignificant s'
        else (.ok (some c), s')
      | other => other := by
  rw [nextSignificant]
  split <;> simp_all

theorem scan_eq [Library] (mode : Mode) (s : σ) :
    scan mode s =
      match scanOnce mode s with
      | (.error cause, s) => (.error cause, s)
      | (.ok (some p), s) => (.ok p, s)
      | (.ok none, s) => scan mode s := by
  rw [scan]
  split <;> simp_all

namespace PartialSimulation

variable {s : σ} {t : τ}

theorem putBackAll (sim : PartialSimulation R) (related : R s t) (cs : List Char) :
    R (putBackAll cs s) (putBackAll cs t) := by
  induction cs generalizing s t with
  | nil => exact related
  | cons c cs ih => exact ih (sim.putBack related c)

theorem peek (sim : PartialSimulation R) (related : R s t) : Confirms R (peek s) (peek t) := by
  have confirms := sim.next related false
  rcases taken : CharSource.next false s with ⟨cause | found, s'⟩
  · simp only [CharSource.peek, taken]
    exact .error cause s'
  · obtain ⟨t', taken', related'⟩ := confirms.answer taken
    simp only [CharSource.peek, taken, taken']
    cases found with
    | none => exact .ok related' none
    | some c => exact .ok (sim.putBack related' c) (some c)

theorem nextSignificant (sim : PartialSimulation R) (related : R s t) :
    Confirms R (nextSignificant s) (nextSignificant t) := by
  fun_induction CharSource.nextSignificant s generalizing t with
  | case1 s c s' taken blank ih =>
    obtain ⟨t', taken', related'⟩ := (sim.next (sim.beginLexeme related) true).answer taken
    rw [nextSignificant_eq t, taken']
    simp only [blank, if_true]
    exact ih related'
  | case2 s c s' taken significant =>
    obtain ⟨t', taken', related'⟩ := (sim.next (sim.beginLexeme related) true).answer taken
    rw [nextSignificant_eq t, taken']
    simp only [significant]
    exact .ok related' (some c)
  | case3 s none_ =>
    have confirms := sim.next (sim.beginLexeme related) true
    rcases taken : CharSource.next true (CharSource.beginLexeme s) with ⟨cause | _ | c, s'⟩
    · exact .error cause s'
    · obtain ⟨t', taken', related'⟩ := confirms.answer taken
      rw [nextSignificant_eq t, taken']
      exact .ok related' none
    · exact absurd taken (none_ c s')

theorem run (sim : PartialSimulation R) (related : R s t) (m : Recognizer ρ β) (state : ρ) :
    Confirms R (m.run state s) (m.run state t) := by
  fun_induction Recognizer.run m state s generalizing t with
  | case1 state s cause s' taken => exact .error cause s'
  | case2 state s s' taken =>
    obtain ⟨t', taken', related'⟩ := (sim.next related m.skipFormat).answer taken
    rw [Recognizer.run_end taken']
    exact .ok (sim.putBackAll related' _) _
  | case3 state s c s' taken state' stepped ih =>
    obtain ⟨t', taken', related'⟩ := (sim.next related m.skipFormat).answer taken
    rw [Recognizer.run_char taken', Recognizer.resume, ← sim.here related', stepped]
    exact ih related'
  | case4 state s c s' taken back result stepped =>
    obtain ⟨t', taken', related'⟩ := (sim.next related m.skipFormat).answer taken
    rw [Recognizer.run_char taken', Recognizer.resume, ← sim.here related', stepped]
    exact .ok (sim.putBackAll related' _) _

theorem resume (sim : PartialSimulation R) (related : R s t) (m : Recognizer ρ β) (state : ρ) (c : Char) :
    Confirms R (m.resume state c s) (m.resume state c t) := by
  unfold Recognizer.resume
  rw [← sim.here related]
  cases m.step state c (CharSource.here s) with
  | more state => exact sim.run related m state
  | stop back result => exact .ok (sim.putBackAll related back) result

theorem scanPunctuator (sim : PartialSimulation R) (related : R s t) (first : Char) :
    Confirms R (scanPunctuator first s) (scanPunctuator first t) := by
  unfold EcmaLex.scanPunctuator
  cases Punctuator.single? first with
  | none => exact .ok related none
  | some p => exact (sim.run related punctuatorRecognizer (.whole p)).mapAnswer some

theorem scanOperator (sim : PartialSimulation R) (related : R s t) (first : Char) (start : Location) :
    Confirms R (scanOperator first start s) (scanOperator first start t) :=
  (sim.scanPunctuator related first).mapAnswer _

theorem afterSolidus (sim : PartialSimulation R) (related : R s t) :
    Confirms R (afterSolidus s) (afterSolidus t) := by
  have confirms := sim.next related false
  unfold EcmaLex.afterSolidus
  rcases taken : CharSource.next false s with ⟨cause | found, s'⟩
  · exact .error cause s'
  · obtain ⟨t', taken', related'⟩ := confirms.answer taken
    rw [taken']
    cases found with
    | none => exact .ok related' Solidus.operator
    | some c =>
      by_cases line : c = '/'
      · simp only [line, if_true]
        exact .ok related' Solidus.lineComment
      · by_cases block : c = '*'
        · simp only [block, if_true]
          exact .ok related' Solidus.blockComment
        · simp only [line, block, if_false]
          exact .ok (sim.putBack related' c) Solidus.operator

theorem scanSolidus (sim : PartialSimulation R) (related : R s t) (start : Location) :
    Confirms R (scanSolidus start s) (scanSolidus start t) := by
  have confirms := sim.afterSolidus related
  unfold EcmaLex.scanSolidus
  rcases decided : EcmaLex.afterSolidus s with ⟨cause | opened, s'⟩
  · exact .error cause s'
  · obtain ⟨t', decided', related'⟩ := confirms.answer decided
    rw [decided']
    cases opened with
    | lineComment => exact (sim.run related' EcmaLex.lineComment ()).mapAnswer _
    | blockComment => exact (sim.run related' EcmaLex.blockComment {}).mapAnswer _
    | operator => exact (sim.scanOperator related' '/' start).mapAnswer some

variable [Library]

theorem scanNumber (sim : PartialSimulation R) (related : R s t) (mode : Mode) (first : Char)
    (start : Location) :
    Confirms R (scanNumber mode first start s) (scanNumber mode first start t) :=
  (sim.run related numberRecognizer _).mapAnswer _

theorem scanFrom (sim : PartialSimulation R) (related : R s t) (mode : Mode) (first : Char)
    (start : Location) : Confirms R (scanFrom mode first start s) (scanFrom mode first start t) := by
  unfold EcmaLex.scanFrom
  split
  · exact (sim.run related stringRecognizer _).mapAnswer _
  · split
    · exact sim.scanNumber related mode first start
    · split
      · have confirms := sim.peek related
        rcases peeked : CharSource.peek s with ⟨cause | follower, s'⟩
        · exact .error cause s'
        · obtain ⟨t', peeked', related'⟩ := confirms.answer peeked
          simp only [peeked']
          by_cases digit : follower.any Text.isDecimalDigit
          · simp only [digit, if_true]
            exact sim.scanNumber related' mode first start
          · simp only [digit]
            exact sim.scanOperator related' first start
      · split
        · exact (sim.resume related (identifierRecognizer mode) _ first).mapAnswer _
        · exact sim.scanOperator related first start

theorem scanOnce (sim : PartialSimulation R) (related : R s t) (mode : Mode) :
    Confirms R (scanOnce mode s) (scanOnce mode t) := by
  have confirms := sim.nextSignificant related
  unfold EcmaLex.scanOnce
  rcases found : CharSource.nextSignificant s with ⟨cause | significant, s'⟩
  · exact .error cause s'
  · obtain ⟨t', found', related'⟩ := confirms.answer found
    have start := sim.lexemeStart related'
    rw [found']
    cases significant with
    | none =>
      simp only [start]
      exact .ok related' _
    | some first =>
      simp only [start]
      by_cases break_ : first = '\n'
      · simp only [break_, if_true]
        exact .ok related' _
      · simp only [break_, if_false]
        by_cases solidus : first = '/'
        · simp only [solidus, if_true]
          exact sim.scanSolidus related' _
        · simp only [solidus, if_false]
          exact (sim.scanFrom related' mode first _).mapAnswer some

/-- As long as the first source does not fail, the second one gives the same next token, and the two
stay related. -/
theorem scan (sim : PartialSimulation R) (related : R s t) (mode : Mode) :
    Confirms R (scan mode s) (scan mode t) := by
  fun_induction EcmaLex.scan mode s generalizing t with
  | case1 s cause s' once => exact .error cause s'
  | case2 s p s' once =>
    obtain ⟨t', once', related'⟩ := (sim.scanOnce related mode).answer once
    rw [scan_eq, once']
    exact .ok related' p
  | case3 s s' once ih =>
    obtain ⟨t', once', related'⟩ := (sim.scanOnce related mode).answer once
    rw [scan_eq mode t, once']
    exact ih related'

end PartialSimulation
end EcmaLex
