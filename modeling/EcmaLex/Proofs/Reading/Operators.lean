import EcmaLex.Proofs.Grammar.LeadingToken
import EcmaLex.Proofs.Reading.Places

/-!
Numbers and punctuators keep at least the character that they begin with. Whatever else they have read
too far goes back to where it was.
-/
namespace EcmaLex
open CharSource

theorem numberRecognizer_rule [Library] :
    numberRecognizer.Rule (fun _ read => read ≠ []) (fun _ slice _ => slice ≠ []) where
  drop _ passed := by simp [Tape.dropped, numberRecognizer] at passed
  more _ _ _ := by simp
  stop := by
    intro state read c loc back result after some_ kept stepped
    rw [NumberRecognizer.stop_back stepped]
    exact .last kept some_
  atEnd some_ := .all some_

namespace Punctuator

/-- In a state that may give back a point, the point is the last character read, and not the first. -/
def State.Read : State → List Mark → Prop
  | .whole p, read => read ≠ [] ∧ (p = optionalChain → ∃ q loc, q ≠ [] ∧ read = q ++ [('.', loc)])
  | .twoDots, read => ∃ q loc, q ≠ [] ∧ read = q ++ [('.', loc)]

theorem more_read {state state' : State} {read : List Mark} {c : Char} {loc : Location}
    (inv : state.Read read) (stepped : step state c = .more state') :
    state'.Read (read ++ [(c, loc)]) := by
  cases state with
  | whole p =>
    simp only [step] at stepped
    split at stepped
    · rename_i longer extended
      cases stepped
      refine ⟨by simp, ?_⟩
      rintro rfl
      have spelled := spelling_extend? extended
      have point : c = '.' := by
        have last := congrArg List.getLast? spelled
        simpa [spelling] using last.symm
      exact ⟨read, loc, inv.1, by rw [point]⟩
    · split at stepped
      · rename_i dots
        cases stepped
        exact ⟨read, loc, inv.1, by rw [dots.2]⟩
      · split at stepped <;> cases stepped
  | twoDots =>
    simp only [step] at stepped
    split at stepped <;> cases stepped

theorem stops_pair {q after : List Mark} {c : Char} {loc loc' : Location} {result : Punctuator}
    (some_ : q ≠ []) :
    punctuatorRecognizer.Stops (fun _ slice _ => slice ≠ []) ((q ++ [('.', loc)]) ++ [(c, loc')])
      [c, '.'] result after :=
  ⟨q, [('.', loc), (c, loc')], by simp, rfl, by simp [Tape.dropped, punctuatorRecognizer], some_⟩

theorem stop_read {state : State} {read after : List Mark} {c : Char} {loc : Location}
    {back : List Char} {result : Punctuator} (inv : state.Read read)
    (kept : Tape.dropped punctuatorRecognizer.skipFormat (c, loc) = false)
    (stepped : step state c = .stop back result) :
    punctuatorRecognizer.Stops (fun _ slice _ => slice ≠ []) (read ++ [(c, loc)]) back result after := by
  cases state with
  | whole p =>
    simp only [step] at stepped
    split at stepped
    · cases stepped
    · split at stepped
      · cases stepped
      · split at stepped <;> cases stepped
        · rename_i chain
          obtain ⟨q, point, some_, rfl⟩ := inv.2 chain.1
          exact stops_pair some_
        · exact .last kept inv.1
  | twoDots =>
    obtain ⟨q, point, some_, rfl⟩ := inv
    simp only [step] at stepped
    split at stepped <;> cases stepped
    · exact .all (by simp)
    · exact stops_pair some_

end Punctuator

theorem punctuatorRecognizer_rule :
    punctuatorRecognizer.Rule Punctuator.State.Read (fun _ slice _ => slice ≠ []) where
  drop _ passed := by simp [Tape.dropped, punctuatorRecognizer] at passed
  more inv _ stepped := Punctuator.more_read inv stepped
  stop _ inv kept stepped := Punctuator.stop_read inv kept stepped
  atEnd := by
    intro state read inv
    cases state with
    | whole p => exact .all inv.1
    | twoDots =>
      obtain ⟨q, loc, some_, rfl⟩ := inv
      exact ⟨q, [('.', loc)], rfl, rfl, by simp [Tape.dropped, punctuatorRecognizer], some_⟩

variable {t₀ t : Tape} {first : Mark}

theorem scanPunctuator_tape (took : t₀.Took false [first] t) :
    ∃ result slice t', scanPunctuator first.1 t = (.ok result, t') ∧ t₀.Took false slice t' ∧
      slice ≠ [] ∧ punctuatorAt first.1 (marked t.ahead) = (result, slice.length) := by
  unfold scanPunctuator punctuatorAt
  cases single : Punctuator.single? first.1 with
  | none => exact ⟨none, [first], t, rfl, took, by simp, rfl⟩
  | some p =>
    have inv : (Punctuator.State.whole p).Read [first] :=
      ⟨by simp, fun chain => absurd chain (Punctuator.single?_ne_optionalChain single)⟩
    obtain ⟨result, slice, t', ran, took', some_, cut⟩ :=
      punctuatorRecognizer_rule.run_cut punctuatorRecognizer_placeless rfl inv took
    refine ⟨some result, slice, t', ?_, took', some_, congrArg (Prod.map some id) cut⟩
    simp only [ran]
    rfl

theorem numberRecognizer_tape [Library] (took : t₀.Took false [first] t) (state : NumberRecognizer.State) :
    ∃ result slice t', numberRecognizer.run state t = (.ok result, t') ∧ t₀.Took false slice t' ∧
      slice ≠ [] ∧ numberRecognizer.cut state 1 (marked t.ahead) = (result, slice.length) :=
  numberRecognizer_rule.run_cut numberRecognizer_placeless rfl (by simp) took

end EcmaLex
