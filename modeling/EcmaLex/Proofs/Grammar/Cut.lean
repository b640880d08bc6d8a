import EcmaLex.Recognizer

/-!
What a recogniser makes of a plain text: its result, and how much of the text it keeps. Places are left
out. A recogniser that ends its text in the same way before another continuation makes the same of the
whole text before it (`cut_congr`).
-/
namespace EcmaLex

variable {ρ β : Type}

namespace Recognizer

/-- The result of a run on a text, and how many characters are kept in the end; `read` characters have
been read before the text. -/
def cut (m : Recognizer ρ β) (state : ρ) (read : Nat) : List Char → β × Nat
  | [] => ((m.atEnd state).2, read - (m.atEnd state).1.length)
  | c :: text =>
    match m.step state c default with
    | .more state => m.cut state (read + 1) text
    | .stop back result => (result, read + 1 - back.length)

variable {m : Recognizer ρ β} {state state' : ρ} {read kept : Nat} {c : Char} {text : List Char}
  {back : List Char} {result : β}

theorem cut_more (stepped : m.step state c default = .more state') :
    m.cut state read (c :: text) = m.cut state' (read + 1) text := by
  rw [cut, stepped]

theorem cut_stop (stepped : m.step state c default = .stop back result) :
    m.cut state read (c :: text) = (result, read + 1 - back.length) := by
  rw [cut, stepped]

/-- What becomes of a text that is kept whole depends on its continuation only through the state at its
end. -/
theorem cut_congr {after after' : List Char} (read_ : 0 < read)
    (ends : ∀ state read, 0 < read → m.cut state read after = (result, read) →
      m.cut state read after' = (result, read))
    (whole : m.cut state read (text ++ after) = (result, read + text.length)) :
    m.cut state read (text ++ after') = (result, read + text.length) := by
  induction text generalizing state read with
  | nil => exact ends state read read_ whole
  | cons c text ih =>
    rw [List.cons_append] at whole ⊢
    have length : read + (c :: text).length = read + 1 + text.length := by
      rw [List.length_cons]
      omega
    rw [length] at whole ⊢
    cases stepped : m.step state c default with
    | more state' =>
      rw [cut_more stepped] at whole ⊢
      exact ih (Nat.succ_pos read) whole
    | stop back result' =>
      rw [cut_stop stepped] at whole ⊢
      exact whole

/-- A recogniser whose states give back at most `held` characters besides the one being read keeps all
but so many of the characters before. -/
theorem le_cut (held : ρ → Nat)
    (more : ∀ {state c state'}, m.step state c default = .more state' → held state' ≤ held state + 1)
    (stop : ∀ {state c back result}, m.step state c default = .stop back result →
      back.length ≤ held state + 1)
    (atEnd : ∀ state, (m.atEnd state).1.length ≤ held state) :
    read ≤ (m.cut state read text).2 + held state := by
  induction text generalizing state read with
  | nil =>
    have := atEnd state
    simp only [cut]
    omega
  | cons c text ih =>
    cases stepped : m.step state c default with
    | more state' =>
      rw [cut_more stepped]
      have := more stepped
      have := @ih state' (read + 1)
      omega
    | stop back result =>
      rw [cut_stop stepped]
      have := stop stepped
      simp only
      omega

/-- A recogniser that has come to this state, having read so much, ends here: at the first character of the
text, or with the text. -/
inductive CutsAt (m : Recognizer ρ β) (state : ρ) (read : Nat) : List Char → β × Nat → Prop
  | stop {c rest back result} : m.step state c default = .stop back result →
      CutsAt m state read (c :: rest) (result, read + 1 - back.length)
  | atEnd : CutsAt m state read [] ((m.atEnd state).2, read - (m.atEnd state).1.length)

/-- What every step keeps still holds where the text is cut. -/
theorem cut_last {front : List Char} {told : β × Nat} (Inv : ρ → List Char → Prop)
    (more : ∀ {state front c state'}, Inv state front → m.step state c default = .more state' →
      Inv state' (front ++ [c]))
    (inv : Inv state front) (cut : m.cut state front.length text = told) :
    ∃ state' front' rest, Inv state' front' ∧ front ++ text = front' ++ rest ∧
      m.CutsAt state' front'.length rest told := by
  induction text generalizing state front with
  | nil =>
    subst cut
    exact ⟨state, front, [], inv, rfl, .atEnd⟩
  | cons c text ih =>
    cases stepped : m.step state c default with
    | more state' =>
      have length : front.length + 1 = (front ++ [c]).length := by simp
      rw [cut_more stepped, length] at cut
      obtain ⟨last, front', rest, inv', same, cuts⟩ := ih (more inv stepped) cut
      rw [List.append_assoc, List.singleton_append] at same
      exact ⟨last, front', rest, inv', same, cuts⟩
    | stop back result =>
      rw [cut_stop stepped] at cut
      subst cut
      exact ⟨state, front, c :: text, inv, rfl, .stop stepped⟩

end Recognizer
end EcmaLex
