import EcmaLex.Proofs.Progress

/-!
The characters that a source hands out one after another. This is all that a scanner learns of a source,
whatever that may do later: it may end, fail, or have more to give.
-/
namespace EcmaLex
open CharSource Text

variable {σ : Type} [CharSource σ]

/-- Asked again and again, the source hands out these characters, each at its place. -/
inductive HandsOut : σ → List Mark → σ → Prop
  | nil (s : σ) : HandsOut s [] s
  | cons {s s₁ s' : σ} {c : Char} {marks : List Mark} : next false s = (.ok (some c), s₁) →
      HandsOut s₁ marks s' → HandsOut s ((c, here s₁) :: marks) s'

namespace HandsOut

variable {s s₁ s' : σ} {front back marks : List Mark}

theorem of_cons {m : Mark} (handed : HandsOut s (m :: marks) s') :
    ∃ s₁, next false s = (.ok (some m.1), s₁) ∧ HandsOut s₁ marks s' := by
  cases handed with
  | cons answered rest => exact ⟨_, answered, rest⟩

theorem split (handed : HandsOut s (front ++ back) s') :
    ∃ s₁, HandsOut s front s₁ ∧ HandsOut s₁ back s' := by
  induction front generalizing s with
  | nil => exact ⟨s, .nil s, handed⟩
  | cons m front ih =>
    rw [List.cons_append] at handed
    cases handed with
    | cons answered rest =>
      obtain ⟨s₁, first, second⟩ := ih rest
      exact ⟨s₁, .cons answered first, second⟩

theorem append (first : HandsOut s front s₁) (second : HandsOut s₁ back s') :
    HandsOut s (front ++ back) s' := by
  induction first with
  | nil s => exact second
  | cons answered _ ih => exact .cons answered (ih second)

/-- Two accounts of one source agree as far as both go. -/
theorem comparable {marks' : List Mark} {s₂ : σ} (first : HandsOut s marks s₁)
    (second : HandsOut s marks' s₂) : marks <+: marks' ∨ marks' <+: marks := by
  induction first generalizing marks' with
  | nil s => exact .inl List.nil_prefix
  | cons answered _ ih =>
    cases second with
    | nil => exact .inr List.nil_prefix
    | cons answered' rest =>
      obtain ⟨same, rfl⟩ := Prod.mk.inj (answered'.symm.trans answered)
      cases same
      simpa only [List.cons_prefix_cons, true_and] using ih rest

theorem rest (first : HandsOut s front s₁) (whole : HandsOut s (front ++ back) s') : HandsOut s₁ back s' := by
  induction first with
  | nil s => exact whole
  | cons answered _ ih =>
    obtain ⟨s₂, answered', rest⟩ := whole.of_cons
    obtain ⟨_, rfl⟩ := Prod.mk.inj (answered'.symm.trans answered)
    exact ih rest

end HandsOut

/-- A source hands out so much and then no character more. -/
theorem exists_handsOut (s : σ) :
    ∃ marks s', HandsOut s marks s' ∧ ∀ c s'', next false s' ≠ (.ok (some c), s'') := by
  induction size : remaining s using Nat.strongRecOn generalizing s with
  | ind n ih =>
    by_cases more : ∃ c s₁, next false s = (.ok (some c), s₁)
    · obtain ⟨c, s₁, answered⟩ := more
      obtain ⟨marks, s', handed, last⟩ := ih _ (size ▸ remaining_next_some answered) s₁ rfl
      exact ⟨_, s', .cons answered handed, last⟩
    · exact ⟨[], s, .nil s, fun c s₁ answered => more ⟨c, s₁, answered⟩⟩

namespace Recognizer

variable {ρ β : Type}

section
variable {m : Recognizer ρ β} {state state' : ρ} {c : Char} {s : σ}

theorem resume_more (stepped : m.step state c (here s) = .more state') :
    m.resume state c s = m.run state' s := by
  rw [resume, stepped]

theorem resume_stop {back : List Char} {result : β} (stepped : m.step state c (here s) = .stop back result) :
    m.resume state c s = (.ok result, putBackAll back s) := by
  rw [resume, stepped]

end

/-- A run that has come to this state and this point of the source stops here, with the character that it
reads next or at the end of input. -/
inductive LastStep (m : Recognizer ρ β) (state : ρ) (s : σ) (result : β) : σ → Prop
  | stop {c : Char} {s₁ : σ} {back : List Char} : next false s = (.ok (some c), s₁) →
      m.step state c (here s₁) = .stop back result → LastStep m state s result (putBackAll back s₁)
  | atEnd {s₁ : σ} : next false s = (.ok none, s₁) → (m.atEnd state).2 = result →
      LastStep m state s result (putBackAll (m.atEnd state).1 s₁)

variable {m : Recognizer ρ β} {s₀ s s' : σ} {state : ρ} {read : List Mark} {result : β}

/-- What every step keeps still holds before the last one. -/
theorem run_last_step (plain : m.skipFormat = false) (Inv : ρ → List Mark → Prop)
    (more : ∀ {state read c loc state'}, Inv state read → m.step state c loc = .more state' →
      Inv state' (read ++ [(c, loc)]))
    (inv : Inv state read) (handed : HandsOut s₀ read s) (answered : m.run state s = (.ok result, s')) :
    ∃ state' read' s₁, Inv state' read' ∧ HandsOut s₀ read' s₁ ∧ m.LastStep state' s₁ result s' := by
  fun_induction Recognizer.run m state s generalizing read with
  | case1 state s cause s₁ taken => cases answered
  | case2 state s s₁ taken =>
    rw [plain] at taken
    cases answered
    exact ⟨state, read, s, inv, handed, .atEnd taken rfl⟩
  | case3 state s c s₁ taken state' stepped ih =>
    rw [plain] at taken
    exact ih (more inv stepped) (handed.append (.cons taken (.nil s₁))) answered
  | case4 state s c s₁ taken back result' stepped =>
    rw [plain] at taken
    cases answered
    exact ⟨state, read, s, inv, handed, .stop taken stepped⟩

end Recognizer

namespace SourceBuffer

/-- A character given back comes next. -/
theorem next_putBack (c : Char) (b : SourceBuffer) : ∃ b', (b.putBack c).next false = (.ok (some c), b') := by
  unfold putBack
  split
  · exact ⟨_, next_given rfl⟩
  · exact ⟨_, next_given rfl⟩

end SourceBuffer

/-- A new buffer over a text in memory has all of it ahead. -/
theorem SourceBuffer.follows_ofText {text : String} {chars : List Char}
    (same : normalize text.toList = chars) (capacity : Nat) (line : UInt32) :
    (SourceBuffer.ofReader (.ofText text) capacity line).Follows (.ofText line chars) := by
  have follows := SourceBuffer.Follows.ofReader (TokenStream.delivers_ofText text) capacity line
  rwa [Utf8.lossy_encode, same] at follows

theorem SourceBuffer.toCome_ofText {text : String} {chars : List Char}
    (same : normalize text.toList = chars) (capacity : Nat) (line : UInt32) :
    (SourceBuffer.ofReader (.ofText text) capacity line).toCome = chars := by
  rw [(SourceBuffer.follows_ofText same capacity line).toCome, Tape.ofText, marked_located]

/-- A buffer on a tape hands out what lies ahead there. -/
theorem SourceBuffer.Follows.handsOut {b : SourceBuffer} {t : Tape} {front back : List Mark}
    (follows : b.Follows t) (ahead : t.ahead = front ++ back) :
    ∃ b' t', HandsOut b front b' ∧ b'.Follows t' ∧ t'.ahead = back := by
  induction front generalizing b t with
  | nil => exact ⟨b, t, .nil b, follows, ahead⟩
  | cons m front ih =>
    have answered := Tape.next_kept ahead (rfl : Tape.dropped false m = false)
    obtain ⟨b₁, answered', follows₁⟩ := (simulation.converse.next follows false).answer answered
    obtain ⟨b', t', handed, follows', ahead'⟩ := ih follows₁ rfl
    have place : m.2 = CharSource.here b₁ := (simulation.here follows₁).symm
    refine ⟨b', t', ?_, follows', ahead'⟩
    rw [show m = (m.1, CharSource.here b₁) from Prod.ext rfl place]
    exact .cons answered' handed

/-- A buffer hands out the text that is to come, up to any point of it. -/
theorem SourceBuffer.Follows.handsOut_text {b : SourceBuffer} {t : Tape} {text rest : List Char}
    (follows : b.Follows t) (toCome : b.toCome = text ++ rest) :
    ∃ marks b', HandsOut b marks b' ∧ marked marks = text ∧ b'.toCome = rest := by
  rw [follows.toCome] at toCome
  obtain ⟨front, back, ahead, rfl, rfl⟩ := marked_eq_append toCome
  obtain ⟨b', t', handed, follows', rfl⟩ := follows.handsOut ahead
  exact ⟨front, b', handed, rfl, follows'.toCome⟩

/-- The first character to come is the one handed out next. -/
theorem SourceBuffer.Follows.next_toCome {b : SourceBuffer} {t : Tape} {c : Char} {rest : List Char}
    (follows : b.Follows t) (toCome : b.toCome = c :: rest) : ∃ b', b.next false = (.ok (some c), b') := by
  obtain ⟨marks, _, handed, spelled, _⟩ := follows.handsOut_text (show b.toCome = [c] ++ rest from toCome)
  obtain ⟨loc, rfl⟩ := marked_eq_singleton spelled
  obtain ⟨b', answered, _⟩ := handed.of_cons
  exact ⟨b', answered⟩

end EcmaLex
