import EcmaLex.Library.Running
import EcmaLex.Proofs.LifeCycle
import EcmaLex.Proofs.Source.ReadHead
import Mathlib.Algebra.Group.Nat.Defs

/-!
A window grows with the longest line of its input and not with the number of lines. It doubles only when it
is full of one line that has been handed out.
-/
namespace EcmaLex
open Text

namespace SourceWindow

variable {w : SourceWindow}

/-- The capacity of a window that opened with `capacity` over an input with this text. -/
structure GrownFor (text : List Char) (capacity : Nat) (w : SourceWindow) : Prop where
  doubled : ∃ k, w.capacity = capacity * 2 ^ k
  le : w.capacity ≤ max capacity (2 * longestLine text)

theorem grow_capacity (w : SourceWindow) :
    (∃ k, w.grow.capacity = w.capacity * 2 ^ k) ∧
      (w.grow.capacity = w.capacity ∨ w.grow.capacity ≤ 2 * w.chars.size) := by
  fun_induction grow w with
  | case1 w room => exact ⟨⟨0, (Nat.mul_one _).symm⟩, .inl rfl⟩
  | case2 w full ih =>
    obtain ⟨⟨k, doubled⟩, bound⟩ := ih
    refine ⟨⟨k + 1, ?_⟩, .inr ?_⟩
    · rw [doubled, Nat.pow_succ', ← Nat.mul_assoc]
      rfl
    · rcases bound with same | small
      · rw [same]
        simp only [double]
        omega
      · exact small

/-- A full window drops the lines before the current one and doubles for as long as that is not enough. -/
theorem makeRoom_capacity (w : SourceWindow) :
    (∃ k, w.makeRoom.capacity = w.capacity * 2 ^ k) ∧
      (w.makeRoom.capacity = w.capacity ∨ w.makeRoom.capacity ≤ 2 * (w.chars.size - w.lineStart)) := by
  unfold makeRoom
  split
  · exact ⟨⟨0, (Nat.mul_one _).symm⟩, .inl rfl⟩
  · split
    · rename_i first
      rw [first]
      exact w.grow_capacity
    · have size : w.reclaim.chars.size = w.chars.size - w.lineStart := by simp [reclaim]
      have grown := w.reclaim.grow_capacity
      rw [size] at grown
      exact grown

theorem fill_capacity (sound : w.Sound) :
    w.fill.2.capacity = w.capacity ∨ w.fill.2.capacity = w.makeRoom.capacity := by
  by_cases exhausted : w.exhausted = true
  · rw [fill_exhausted exhausted]
    exact .inl rfl
  · obtain ⟨_, _, _, _, _, filled, _⟩ := sound.fill_adds (eq_false_of_ne_true exhausted)
    rw [filled]
    exact .inr rfl

theorem GrownFor.congr {text : List Char} {capacity : Nat} {w' : SourceWindow} (grown : w.GrownFor text capacity)
    (same : w'.capacity = w.capacity) : w'.GrownFor text capacity :=
  ⟨same ▸ grown.doubled, same ▸ grown.le⟩

/-- Once all of the window is handed out, the current line is all that stays in it. -/
theorem GrownFor.fill {text : List Char} {capacity : Nat} {h : WindowHistory} {t : LineTracker}
    (grown : w.GrownFor text capacity) (state : HeadState text h w t) (drained : w.chars[w.cursor]? = none) :
    w.fill.2.GrownFor text capacity := by
  have line : w.chars.size - w.lineStart ≤ longestLine text := by
    obtain ⟨raw, _, whole⟩ := state.held
    have kept := congrArg List.length state.line
    rw [unread_eq_nil drained, List.append_nil, List.length_drop, Array.length_toList] at kept
    rw [kept]
    exact length_lastLine_le ⟨raw, whole⟩
  rcases fill_capacity state.sound with same | same
  · exact grown.congr same
  · obtain ⟨⟨k, doubled⟩, bound⟩ := w.makeRoom_capacity
    obtain ⟨⟨n, power⟩, le⟩ := grown
    refine ⟨⟨n + k, ?_⟩, ?_⟩
    · rw [same, doubled, power, Nat.mul_assoc, Nat.pow_add]
    · rw [same]
      omega

end SourceWindow

theorem HeadRun.grownFor {reader : ByteReader} {capacity : Nat} {line : UInt32} {h : WindowHistory} {w : SourceWindow}
    {t : LineTracker} (run : HeadRun reader capacity line False h w t) :
    w.GrownFor (Utf8.lossy (ByteReader.contents reader.script)) capacity := by
  induction run with
  | opened capacity_pos => exact ⟨⟨0, (Nat.mul_one _).symm⟩, Nat.le_max_left _ _⟩
  | refill run drained ih => exact ih.fill run.state (drained.resolve_left id)
  | @hand h w t c run found ih =>
    refine ih.congr ?_
    cases (t.advance c).1.opensLine <;> rfl
  | finish _ _ ih => exact ih
  | collect _ ih => exact ih.congr rfl

namespace TokenStream

variable {reader : ByteReader} {capacity : Nat} {line : UInt32} {s : TokenStream}

theorem runs_pull [Library] (runs : s.buffer.Runs reader capacity line False) (p : Pull) :
    (s.pull p).2.buffer.Runs reader capacity line False := by
  have collected {b : SourceBuffer} (runs : b.Runs reader capacity line False) :
      b.clearLog.Runs reader capacity line False := by
    obtain ⟨h, run⟩ := runs
    exact ⟨_, run.collect⟩
  have inv := SourceBuffer.runs_invariant reader capacity line False
  have scanned := inv.scan runs s.mode
  have next : s.next.2.buffer.Runs reader capacity line False := by
    rcases s.next_cases with ⟨_, read⟩ | ⟨_, _, _, _, found, read⟩ | ⟨_, _, _, _, _, found, read⟩
    · rw [read]
      exact runs
    · rw [found] at scanned
      rw [read]
      exact collected scanned
    · rw [found] at scanned
      rw [read]
      exact collected scanned
  rcases s.pull_cases p with ⟨_, _, answered⟩ | answered
  · rw [answered]
    exact runs
  · rw [answered]
    exact next

theorem runs_pulled [Library] (runs : s.buffer.Runs reader capacity line False) (pulls : List Pull) :
    (s.pulled pulls).buffer.Runs reader capacity line False := by
  induction pulls generalizing s with
  | nil => exact runs
  | cons p pulls ih => exact ih (runs_pull runs p)

end TokenStream

/-- A buffer that is asked for characters only, and so every stream, has a window of its first capacity or
of some doubling of it that is at most twice as large as the longest line. -/
theorem window_grownFor [Library] (reader : ByteReader) :
    (∀ capacity line (calls : List SourceBuffer.Call), .fill ∉ calls →
      ((SourceBuffer.ofReader reader capacity line).called calls).window.GrownFor
        (Utf8.lossy (ByteReader.contents reader.script)) (max capacity 1)) ∧
    ∀ (c : Config) pulls,
      ((TokenStream.ofConfig reader c).pulled pulls).buffer.window.GrownFor
        (Utf8.lossy (ByteReader.contents reader.script)) (max c.bufferCapacity 1) := by
  constructor
  · intro capacity line calls none_
    have opened := SourceBuffer.Runs.ofReader reader capacity line False
    obtain ⟨h, run⟩ := opened.called fun among => none_ among
    exact run.grownFor
  · intro c pulls
    have opened := SourceBuffer.Runs.ofReader reader c.bufferCapacity c.startLine False
    obtain ⟨h, run⟩ := TokenStream.runs_pulled (s := TokenStream.ofConfig reader c) opened pulls
    exact run.grownFor

open Running

/-- A line of four characters that is handed out whole takes a window of one character as far as it goes. -/
theorem window_grownFor_whole :
    let reader : ByteReader := { script := [.piece [0x61, 0x62, 0x63, 0x0A, 0x64]] }
    let text := Utf8.lossy (ByteReader.contents reader.script)
    let calls := List.replicate 5 (SourceBuffer.Call.next false)
    let b := (SourceBuffer.ofReader reader 1 1).called calls
    .fill ∉ calls ∧ b.window.GrownFor text 1 ∧ b.window.capacity = 8 ∧ longestLine text = 4 := by
  intro reader text calls b
  have none_ : .fill ∉ calls := by simp [calls]
  exact ⟨none_, (window_grownFor reader).1 1 1 calls none_, by decide +kernel, by decide +kernel⟩

end EcmaLex
