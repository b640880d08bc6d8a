import EcmaLex.Proofs.Source.EndOfInput
import EcmaLex.Proofs.Source.WindowRuns

/-!
Bytes that arrive in pieces give the text and the warnings of the whole, however the pieces are cut and
whatever the size of the window (`decoding_incremental`).
-/
namespace EcmaLex
open Text SourceWindow

namespace SourceWindow

variable {w w' : SourceWindow} {h : WindowHistory} {bytes : List UInt8}

/-- What a window has made of an input that is cut into `items` with `held` left at the end. -/
structure DecodedSoFar (items : List Utf8.Item) (held : List UInt8) (h : WindowHistory)
    (w : SourceWindow) : Prop where
  held_back : Utf8.Unfinished w.undecoded
  held_back_le : w.undecoded.length ≤ 3
  kept : h.moved = h.handed ++ w.unread
  moved : h.moved <+: Utf8.textOf items held
  warnings : w.warnings h <+: Utf8.warningsOf items held
  at_end : w.exhausted = true →
    h.moved = Utf8.textOf items held ∧ w.warnings h = Utf8.warningsOf items held
  /-- So many refills at most bring the end of the input. -/
  ends : (w.refills w.pendingReads).exhausted = true

theorem Accounts.holds (accounts : Accounts bytes h w) : ∃ text, w.Holds text := by
  cases accounts with
  | finished f => exact ⟨_, f.toSound, [], by simp [Awaits, f.exhausted, f.undecoded], rfl⟩
  | @reading got more split delivers r =>
    exact ⟨_, r.toSound, more, by simpa [Awaits, r.running] using delivers, rfl⟩

theorem refills_exhausted (exhausted : w.exhausted = true) (n : Nat) : w.refills n = w := by
  induction n with
  | zero => rfl
  | succ n ih =>
    have same : w.fill.2 = w := by rw [SourceWindow.fill, if_pos exhausted]
    rw [refills, same, ih]

theorem Accounts.ends (accounts : Accounts bytes h w) {n : Nat} (enough : w.pendingReads ≤ n) :
    (w.refills n).exhausted = true := by
  induction n generalizing w h with
  | zero =>
    have none_ : w.pendingReads = 0 := Nat.le_zero.1 enough
    unfold pendingReads at none_
    split at none_
    · assumption
    · cases none_
  | succ n ih =>
    obtain ⟨text, holds⟩ := accounts.holds
    rcases holds.fill.2 with more | ⟨last, _⟩
    · have fewer : w.fill.2.pendingReads < w.pendingReads := fill_pendingReads (Prod.ext more rfl)
      exact ih accounts.fill (by omega)
    · have exhausted := exhausted_of_fill (Prod.ext last rfl)
      rw [refills, refills_exhausted exhausted]
      exact exhausted

theorem Accounts.decodedSoFar {items : List Utf8.Item} {held : List UInt8} (accounts : Accounts bytes h w)
    (whole : Utf8.decode bytes = (items, held)) : DecodedSoFar items held h w := by
  have ends := accounts.ends (Nat.le_refl _)
  cases accounts with
  | finished f =>
    have moved := f.moved
    have warnings := f.warnings
    rw [whole] at moved warnings
    exact ⟨f.undecoded ▸ .nil, by simp [f.undecoded], f.kept, moved ▸ List.prefix_rfl,
      warnings ▸ List.prefix_rfl, fun _ => ⟨moved, warnings⟩, ends⟩
  | @reading got more split delivers r =>
    have unfinished := Utf8.unfinished_of_decode r.kept_back
    rw [split, Utf8.decode_append got more, Prod.mk.injEq] at whole
    obtain ⟨rfl, rfl⟩ := whole
    refine ⟨unfinished, unfinished.length_le, r.kept, ?_, ?_, ?_, ends⟩
    · rw [r.moved, Utf8.textOf, Utf8.completed, List.map_append, List.append_assoc]
      exact List.prefix_append _ _
    · rw [r.warnings, Utf8.warningsOf, List.filterMap_append, List.append_assoc]
      exact List.prefix_append _ _
    · intro exhausted
      rw [r.running] at exhausted
      cases exhausted

end SourceWindow

/-- The bytes of an input can be cut in one way into encoded characters, longest ill-formed beginnings
and a last incomplete sequence. Whatever reader delivers them to a window of whatever capacity, the
characters moved into the window and its warnings are at each moment the first of those that the whole
deserves, and at the end of input they are all of them. This holds for all that is ever asked of a
source buffer. -/
theorem decoding_incremental (bytes : List UInt8) :
    ∃ items held,
      (∀ items' held', Utf8.Decodes bytes items' held' ↔ items' = items ∧ held' = held) ∧
      ∀ reader : ByteReader, Delivers reader.script bytes → ∀ capacity,
        (∀ h w, Run reader capacity h w → DecodedSoFar items held h w) ∧
        ∀ line calls, ∃ h,
          let b := (SourceBuffer.ofReader reader capacity line).called calls
          Run reader (max capacity 1) h b.window ∧
            ∀ skipFormat b', b.next skipFormat = (.ok none, b') → b'.window.exhausted = true := by
  refine ⟨(Utf8.decode bytes).1, (Utf8.decode bytes).2, ?_, ?_⟩
  · intro items' held'
    rw [Utf8.decodes_iff, Prod.ext_iff, eq_comm (a := items'), eq_comm (a := held')]
  · intro reader delivers capacity
    constructor
    · intro h w run
      exact (run.accounts delivers).decodedSoFar rfl
    · intro line calls
      have opened : Run reader (max capacity 1) {} (SourceBuffer.ofReader reader capacity line).window :=
        .opened (by omega)
      obtain ⟨h, run⟩ := SourceBuffer.called_window (run_invariant reader (max capacity 1)) calls
        ⟨{}, opened⟩
      exact ⟨h, run, fun _ _ answered => (SourceBuffer.drained_of_next answered).1.exhausted⟩

/-- An interruption inside a sequence, a beginning that the next byte does not continue, and an end of
input inside another sequence, all through a window that opens with one place. -/
theorem decoding_incremental_split :
    let bytes : List UInt8 := [0xC3, 0xA9, 0xE2, 0x82, 0x61, 0xF0, 0x9F]
    let items : List Utf8.Item := [.char 'é', .illFormed 2, .char 'a']
    let reader : ByteReader :=
      { script := [.piece [0xC3], .interrupted, .piece [0xA9, 0xE2], .piece [0x82, 0x61, 0xF0],
          .piece [0x9F], .eof] }
    let b := (SourceBuffer.ofReader reader 0 1).called [.next false, .next true, .collect, .fill]
    Delivers reader.script bytes ∧ Utf8.Decodes bytes items [0xF0, 0x9F] ∧
      ∃ h, Run reader 1 h b.window ∧ DecodedSoFar items [0xF0, 0x9F] h b.window := by
  intro bytes items reader b
  have delivers : Delivers reader.script bytes :=
    .piece [0xC3] (.interrupted (.piece [0xA9, 0xE2] (.piece [0x82, 0x61, 0xF0] (.piece [0x9F] (.eof [])))))
  have cut : Utf8.decode bytes = (items, [0xF0, 0x9F]) := by
    simp [bytes, items, Utf8.decode, Utf8.head, Utf8.headOfTwo, Utf8.headOfThree, Utf8.headOfFour,
      Utf8.admitsSecond, Utf8.isContinuation]
  have decodes := Utf8.decodes_iff.2 cut
  obtain ⟨items', held', unique, runs⟩ := decoding_incremental bytes
  obtain ⟨rfl, rfl⟩ := (unique items [0xF0, 0x9F]).1 decodes
  obtain ⟨h, run, _⟩ := (runs reader delivers 0).2 1 [.next false, .next true, .collect, .fill]
  exact ⟨delivers, decodes, h, run, (runs reader delivers 1).1 h _ run⟩

end EcmaLex
