import EcmaLex.CharSource

/-!
Recognisers: step functions over single characters, run by one loop on any character source. What a
recogniser has read too far it gives back when it stops.
-/
namespace EcmaLex

/-- What a recogniser does with one character. -/
inductive Move (ρ β : Type) where
  | more (state : ρ)
  /-- Ends with a result; the characters go back to the source, the first of the list first. -/
  | stop (back : List Char) (result : β)

structure Recognizer (ρ β : Type) where
  /-- Format controls are passed over. -/
  skipFormat : Bool := false
  step : ρ → Char → Location → Move ρ β
  /-- What the end of input makes of a state. -/
  atEnd : ρ → List Char × β

namespace Recognizer

open CharSource

variable {ρ β σ : Type} [CharSource σ]

def run (m : Recognizer ρ β) (state : ρ) (s : σ) : Except ReadFailure β × σ :=
  match _taken : next m.skipFormat s with
  | (.error cause, s') => (.error cause, s')
  | (.ok none, s') => (.ok (m.atEnd state).2, putBackAll (m.atEnd state).1 s')
  | (.ok (some c), s') =>
    match m.step state c (here s') with
    | .more state => m.run state s'
    | .stop back result => (.ok result, putBackAll back s')
termination_by remaining s
decreasing_by exact remaining_next_some _taken

/-- Runs from a character that has already been taken. -/
def resume (m : Recognizer ρ β) (state : ρ) (c : Char) (s : σ) : Except ReadFailure β × σ :=
  match m.step state c (here s) with
  | .more state => m.run state s
  | .stop back result => (.ok result, putBackAll back s)

theorem run_error {m : Recognizer ρ β} {state : ρ} {s s' : σ} {cause : ReadFailure}
    (taken : next m.skipFormat s = (.error cause, s')) : m.run state s = (.error cause, s') := by
  rw [run]; split <;> simp_all

theorem run_end {m : Recognizer ρ β} {state : ρ} {s s' : σ}
    (taken : next m.skipFormat s = (.ok none, s')) :
    m.run state s = (.ok (m.atEnd state).2, putBackAll (m.atEnd state).1 s') := by
  rw [run]; split <;> simp_all

theorem run_char {m : Recognizer ρ β} {state : ρ} {s s' : σ} {c : Char}
    (taken : next m.skipFormat s = (.ok (some c), s')) : m.run state s = m.resume state c s' := by
  rw [run, resume]; split <;> simp_all

/-- If a state never gives back more than `held` characters beyond the one being read, a run ends
with at most `held` characters more than it began with. -/
theorem remaining_run (m : Recognizer ρ β) (held : ρ → Nat)
    (more : ∀ {state c loc state'}, m.step state c loc = .more state' →
      held state' ≤ held state + 1)
    (stop : ∀ {state c loc back result}, m.step state c loc = .stop back result →
      back.length ≤ held state + 1)
    (atEnd : ∀ state, (m.atEnd state).1.length ≤ held state)
    (state : ρ) (s : σ) : remaining (m.run state s).2 ≤ remaining s + held state := by
  fun_induction run m state s with
  | case1 state s cause s' taken => exact Nat.le_add_right_of_le (remaining_next taken)
  | case2 state s s' taken =>
    have := remaining_next taken
    have := remaining_putBackAll (m.atEnd state).1 s'
    have := atEnd state
    simp only
    omega
  | case3 state s c s' taken state' stepped ih =>
    have := remaining_next_some taken
    have := more stepped
    omega
  | case4 state s c s' taken back result stepped =>
    have := remaining_next_some taken
    have := remaining_putBackAll back s'
    have := stop stepped
    simp only
    omega

end Recognizer
end EcmaLex
