import EcmaLex.Proofs.Source.HandedOut

/-!
What a recogniser makes of the characters that lie ahead, said without a source. How much it takes of them
and what it answers is one derivation, a step at a time (`Recognizer.Answers`); a buffer in front of these
characters gives that answer and stands behind what was taken (`Recognizer.Answers.run_buffer`).
-/
namespace EcmaLex

variable {ρ β : Type}

namespace Recognizer

/-- From this state the recogniser takes the first list of characters, leaves the second and answers. -/
inductive Answers (m : Recognizer ρ β) : ρ → List Mark → List Mark → β → Prop
  | more {state state' c loc slice rest result} : m.step state c loc = .more state' →
      m.Answers state' slice rest result → m.Answers state ((c, loc) :: slice) rest result
  /-- The character that ends it goes back. -/
  | before {state c loc rest result} : m.step state c loc = .stop [c] result →
      m.Answers state [] ((c, loc) :: rest) result
  | behind {state c loc rest result} : m.step state c loc = .stop [] result →
      m.Answers state [(c, loc)] rest result
  | atEnd {state result} : m.atEnd state = ([], result) → m.Answers state [] [] result

/-- Taking these characters the recogniser goes from one state to another and goes on. -/
inductive Passes (m : Recognizer ρ β) : ρ → List Mark → ρ → Prop
  | nil (state : ρ) : m.Passes state [] state
  | cons {state state₁ state' c loc marks} : m.step state c loc = .more state₁ →
      m.Passes state₁ marks state' → m.Passes state ((c, loc) :: marks) state'

variable {m : Recognizer ρ β} {state state₁ state' : ρ} {front back slice rest : List Mark} {result : β}
  {c : Char} {loc : Location}

namespace Passes

theorem one (stepped : m.step state c loc = .more state') : m.Passes state [(c, loc)] state' :=
  .cons stepped (.nil state')

theorem append (first : m.Passes state front state₁) (second : m.Passes state₁ back state') :
    m.Passes state (front ++ back) state' := by
  induction first with
  | nil state => exact second
  | cons stepped _ ih => exact .cons stepped (ih second)

theorem answers (passes : m.Passes state front state') (answers : m.Answers state' slice rest result) :
    m.Answers state (front ++ slice) rest result := by
  induction passes with
  | nil state => exact answers
  | cons stepped _ ih => exact .more stepped (ih answers)

theorem answers_here (passes : m.Passes state front state') (answers : m.Answers state' [] rest result) :
    m.Answers state front rest result := by
  have whole := passes.answers answers
  rwa [List.append_nil] at whole

end Passes

variable {t₀ t : Tape} {read : List Mark}

/-- The tape after its next character has been taken. -/
theorem run_tape_next (plain : m.skipFormat = false) (took : t₀.Took false read t)
    (ahead : t.ahead = (c, loc) :: rest) :
    ∃ t₁, m.run state t = m.resume state c t₁ ∧ CharSource.here t₁ = loc ∧
      t₀.Took false (read ++ [(c, loc)]) t₁ ∧ t₁.ahead = rest := by
  have kept : Tape.dropped false (c, loc) = false := rfl
  have taken := Tape.next_kept ahead kept
  exact ⟨_, run_char (plain ▸ taken), rfl, took.char ahead kept, rfl⟩

theorem Answers.run_tape (answers : m.Answers state slice rest result) (plain : m.skipFormat = false)
    (took : t₀.Took false read t) (ahead : t.ahead = slice ++ rest) :
    ∃ t', m.run state t = (.ok result, t') ∧ t₀.Took false (read ++ slice) t' ∧ t'.ahead = rest := by
  induction answers generalizing t read with
  | more stepped _ ih =>
    obtain ⟨t₁, ran, here_, took₁, ahead₁⟩ := run_tape_next plain took ahead
    obtain ⟨t', ran', took', ahead'⟩ := ih took₁ ahead₁
    refine ⟨t', ?_, by simpa using took', ahead'⟩
    rw [ran, resume_more (here_ ▸ stepped), ran']
  | before stepped =>
    obtain ⟨t₁, ran, here_, took₁, ahead₁⟩ := run_tape_next plain took ahead
    obtain ⟨t', put, took', ahead'⟩ := took₁.putBackAll (by simp [Tape.dropped])
    refine ⟨t', ?_, by simpa using took', by simpa [ahead₁] using ahead'⟩
    rw [ran, resume_stop (here_ ▸ stepped)]
    exact congrArg _ put
  | behind stepped =>
    obtain ⟨t₁, ran, here_, took₁, ahead₁⟩ := run_tape_next plain took ahead
    refine ⟨t₁, ?_, took₁, ahead₁⟩
    rw [ran, resume_stop (here_ ▸ stepped)]
    rfl
  | atEnd ended =>
    have none_ : ∀ m ∈ t.ahead, Tape.dropped false m = true := by simp [show t.ahead = [] from ahead]
    have taken := Tape.next_end none_
    refine ⟨_, ?_, by simpa using took.atEnd ahead, rfl⟩
    rw [run_end (plain ▸ taken), ended]
    rfl

theorem Answers.run_buffer (answers : m.Answers state slice rest result) (plain : m.skipFormat = false)
    {b : SourceBuffer} (follows : b.Follows t) (ahead : t.ahead = slice ++ rest) :
    ∃ b' t', m.run state b = (.ok result, b') ∧ b'.Follows t' ∧ t.Took false slice t' ∧ t'.ahead = rest := by
  obtain ⟨t', ran, took, ahead'⟩ := answers.run_tape plain (.refl false t) ahead
  obtain ⟨b', ran', follows'⟩ := (SourceBuffer.simulation.converse.run follows m state).answer ran
  exact ⟨b', t', ran', follows', by simpa using took, ahead'⟩

end Recognizer
end EcmaLex
