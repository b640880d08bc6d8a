import EcmaLex.Proofs.Source.Tape
import EcmaLex.Recognizer

/-!
Recognisers on a tape. A rule says what a recogniser knows about the characters it has read, and what
its result says about the slice of the text it ends with; `Recognizer.Rule.run` carries the rule from
single steps to a whole run. A run on a tape always ends with a result.
-/
namespace EcmaLex
open CharSource

namespace Tape

variable {skipFormat : Bool} {t₀ t t' : Tape} {slice read : List Mark} {m : Mark}

/-- From `t` to `t'` a slice of the text has been taken. The lexeme got those of its characters that
are not dropped. -/
structure Took (skipFormat : Bool) (t : Tape) (slice : List Mark) (t' : Tape) : Prop where
  ahead : t.ahead = slice ++ t'.ahead
  taken : t'.taken = (slice.filter fun m => !dropped skipFormat m).reverse ++ t.taken
  ending : t'.ending = t.ending

theorem Took.refl (skipFormat : Bool) (t : Tape) : t.Took skipFormat [] t where
  ahead := rfl
  taken := rfl
  ending := rfl

theorem Took.trans {first second : List Mark} {t₁ t₂ : Tape} (front : t₀.Took skipFormat first t₁)
    (back : t₁.Took skipFormat second t₂) : t₀.Took skipFormat (first ++ second) t₂ where
  ahead := by rw [front.ahead, back.ahead, List.append_assoc]
  taken := by simp [back.taken, front.taken]
  ending := back.ending.trans front.ending

theorem Took.drop (took : t₀.Took skipFormat read t) {rest : List Mark} (next : t.ahead = m :: rest)
    (passed : dropped skipFormat m = true) :
    t₀.Took skipFormat (read ++ [m]) { t with ahead := rest } where
  ahead := by simp [took.ahead, next]
  taken := by simp [took.taken, passed]
  ending := took.ending

theorem Took.char (took : t₀.Took skipFormat read t) {rest : List Mark} (next : t.ahead = m :: rest)
    (kept : dropped skipFormat m = false) :
    t₀.Took skipFormat (read ++ [m]) { t with ahead := rest, taken := m :: t.taken, last := m.2 } where
  ahead := by simp [took.ahead, next]
  taken := by simp [took.taken, kept]
  ending := took.ending

theorem Took.atEnd (took : t₀.Took skipFormat read t) (none_ : t.ahead = []) :
    t₀.Took skipFormat read { t with ahead := [], last := t.ending } where
  ahead := by rw [took.ahead, none_]
  taken := took.taken
  ending := took.ending

/-- What has been taken last can be given back, the last character first. -/
theorem Took.putBackAll {given : List Mark} (took : t₀.Took skipFormat (slice ++ given) t)
    (kept : ∀ m ∈ given, dropped skipFormat m = false) :
    ∃ t', CharSource.putBackAll (marked given).reverse t = t' ∧ t₀.Took skipFormat slice t' ∧
      t'.ahead = given ++ t.ahead := by
  induction given using List.reverseRecOn generalizing t with
  | nil => exact ⟨t, rfl, by simpa using took, rfl⟩
  | append_singleton given m ih =>
    have last : dropped skipFormat m = false := kept m (by simp)
    have taken : t.taken =
        m :: (((slice ++ given).filter fun m => !dropped skipFormat m).reverse ++ t₀.taken) := by
      rw [took.taken, ← List.append_assoc, List.filter_append]
      simp [last]
    have back : t₀.Took skipFormat (slice ++ given)
        { t with taken := t.taken.tail, ahead := m :: t.ahead } :=
      ⟨by simp [took.ahead], by rw [taken]; rfl, took.ending⟩
    obtain ⟨t', put, took', ahead⟩ := ih back fun m member => kept m (by simp [member])
    refine ⟨t', ?_, took', by simpa using ahead⟩
    rw [← put, marked_append, List.reverse_append]
    change CharSource.putBackAll _ (CharSource.putBack m.1 t) = _
    rw [putBack_taken taken, taken]
    rfl

end Tape

namespace Recognizer

variable {ρ β : Type}

/-- The recogniser stops: it keeps a slice of what it has read, and the rest goes back. -/
def Stops (m : Recognizer ρ β) (Post : β → List Mark → List Mark → Prop) (read : List Mark)
    (back : List Char) (result : β) (after : List Mark) : Prop :=
  ∃ slice given, read = slice ++ given ∧ back = (marked given).reverse ∧
    (∀ g ∈ given, Tape.dropped m.skipFormat g = false) ∧ Post result slice (given ++ after)

theorem Stops.all {m : Recognizer ρ β} {Post : β → List Mark → List Mark → Prop} {read after : List Mark}
    {result : β} (post : Post result read after) : m.Stops Post read [] result after :=
  ⟨read, [], by simp, rfl, by simp, post⟩

theorem Stops.last {m : Recognizer ρ β} {Post : β → List Mark → List Mark → Prop} {read after : List Mark}
    {c : Char} {loc : Location} {result : β} (kept : Tape.dropped m.skipFormat (c, loc) = false)
    (post : Post result read ((c, loc) :: after)) :
    m.Stops Post (read ++ [(c, loc)]) [c] result after :=
  ⟨read, [(c, loc)], rfl, rfl, by simpa using kept, post⟩

/-- `Inv state read` holds of a state and all that has been read, step by step; `Post result slice rest`
holds of the result, the slice that was kept and what lies ahead of it. -/
structure Rule (m : Recognizer ρ β) (Inv : ρ → List Mark → Prop)
    (Post : β → List Mark → List Mark → Prop) : Prop where
  drop {state read mark} : Inv state read → Tape.dropped m.skipFormat mark = true →
    Inv state (read ++ [mark])
  more {state read c loc state'} : Inv state read → Tape.dropped m.skipFormat (c, loc) = false →
    m.step state c loc = .more state' → Inv state' (read ++ [(c, loc)])
  stop {state read c loc back result} (after : List Mark) : Inv state read →
    Tape.dropped m.skipFormat (c, loc) = false → m.step state c loc = .stop back result →
    m.Stops Post (read ++ [(c, loc)]) back result after
  atEnd {state read} : Inv state read →
    m.Stops Post read (m.atEnd state).1 (m.atEnd state).2 []

variable {m : Recognizer ρ β} {Inv : ρ → List Mark → Prop}
  {Post : β → List Mark → List Mark → Prop} {t₀ t : Tape} {state : ρ} {read : List Mark}

theorem run_congr {σ : Type} [CharSource σ] {s s' : σ} (same : next m.skipFormat s = next m.skipFormat s') :
    m.run state s = m.run state s' := by
  rcases taken : next m.skipFormat s' with ⟨answer, s''⟩
  rw [taken] at same
  rcases answer with cause | (_ | c)
  · rw [run_error same, run_error taken]
  · rw [run_end same, run_end taken]
  · rw [run_char same, run_char taken]

theorem Stops.putBackAll {back : List Char} {result : β} (stops : m.Stops Post read back result t.ahead)
    (took : t₀.Took m.skipFormat read t) :
    ∃ slice t', CharSource.putBackAll back t = t' ∧ t₀.Took m.skipFormat slice t' ∧
      Post result slice t'.ahead := by
  obtain ⟨slice, given, rfl, rfl, kept, post⟩ := stops
  obtain ⟨t', put, took', ahead⟩ := took.putBackAll kept
  exact ⟨slice, t', put, took', ahead ▸ post⟩

/-- A run gives a result for which the rule's conclusion holds. -/
theorem Rule.run (rule : m.Rule Inv Post) (inv : Inv state read) (took : t₀.Took m.skipFormat read t) :
    ∃ result slice t', m.run state t = (.ok result, t') ∧ t₀.Took m.skipFormat slice t' ∧
      Post result slice t'.ahead := by
  -- Along what lies ahead; characters that are dropped count as read.
  induction ahead : t.ahead generalizing t state read with
  | nil =>
    have none_ : ∀ m' ∈ t.ahead, Tape.dropped m.skipFormat m' = true := by simp [ahead]
    obtain ⟨slice, t', put, took', post⟩ := (rule.atEnd inv).putBackAll (took.atEnd ahead)
    exact ⟨_, slice, t', by rw [run_end (Tape.next_end none_), put], took', post⟩
  | cons mark rest ih =>
    cases passed : Tape.dropped m.skipFormat mark with
    | true =>
      rw [run_congr (Tape.next_dropped ahead passed)]
      exact ih (rule.drop inv passed) (took.drop ahead passed) rfl
    | false =>
      have next := Tape.next_kept ahead passed
      rw [run_char next, resume]
      cases stepped : m.step state mark.1 mark.2 with
      | more state' =>
        exact ih (rule.more inv passed stepped) (took.char ahead passed) rfl
      | stop back result =>
        obtain ⟨slice, t', put, took', post⟩ :=
          (rule.stop rest inv passed stepped).putBackAll (took.char ahead passed)
        exact ⟨result, slice, t', Prod.ext rfl put, took', post⟩

end Recognizer
end EcmaLex
