import EcmaLex.Proofs.Source.Windows
import EcmaLex.Proofs.Source.WindowText

/-!
The reads that a window makes. It reads no more once a read has delivered nothing, and so it makes no
more reads than the script of its reader has bytes and steps, and one (`Traces.reads_le`).
-/
namespace EcmaLex

namespace ByteReader

/-- The answers to some reads in a row, each with room for a byte at least. -/
inductive Reads (r : ByteReader) : List ReadResult → ByteReader → Prop
  | none : Reads r [] r
  | more {results r'} (room : Nat) : 0 < room → Reads r results r' →
      Reads r (results ++ [(r'.read room).1]) (r'.read room).2

variable {r r' : ByteReader} {results : List ReadResult}

theorem Reads.before_last {last : ReadResult} (reads : r.Reads (results ++ [last]) r') :
    ∃ r₁, r.Reads results r₁ ∧ r'.reads = r₁.reads + 1 := by
  generalize whole : results ++ [last] = all at reads
  cases reads with
  | none => simp at whole
  | @more _ r₁ room _ before =>
    obtain ⟨rfl, _⟩ := List.append_inj' whole rfl
    exact ⟨r₁, before, rfl⟩

theorem Reads.count (reads : r.Reads results r') : r'.reads = r.reads + results.length := by
  induction reads with
  | none => rfl
  | @more results r' room _ _ ih =>
    have one : (r'.read room).2.reads = r'.reads + 1 := rfl
    rw [one, ih, List.length_append, List.length_singleton, Nat.add_assoc]

/-- A read that delivers something uses up part of the script. -/
theorem Reads.length_le (reads : r.Reads results r') (some_ : .bytes [] ∉ results) :
    results.length + r'.pending ≤ r.pending := by
  induction reads with
  | none => simp
  | @more results r' room roomy _ ih =>
    rw [List.mem_append, not_or, List.mem_singleton] at some_
    have used := read_pending roomy r' (Ne.symm some_.2)
    have before := ih some_.1
    rw [List.length_append, List.length_singleton]
    omega

end ByteReader

namespace SourceWindow

variable {r : ByteReader} {w : SourceWindow}

/-- The window has read its input from `r` on, until a read delivered nothing. -/
def Traces (r : ByteReader) (w : SourceWindow) : Prop :=
  ∃ results, ReadResult.bytes [] ∉ results ∧
    if w.exhausted then r.Reads (results ++ [.bytes []]) w.reader else r.Reads results w.reader

theorem Traces.ofReader (r : ByteReader) (capacity : Nat) (capacity_pos : 0 < capacity) :
    Traces r { reader := r, capacity, capacity_pos } :=
  ⟨[], List.not_mem_nil, .none⟩

/-- What the window has made of its input does not matter. -/
theorem Traces.congr {w' : SourceWindow} (traces : w.Traces r) (reader : w'.reader = w.reader)
    (exhausted : w'.exhausted = w.exhausted) : w'.Traces r := by
  unfold Traces
  rw [reader, exhausted]
  exact traces

theorem accept_reader (w : SourceWindow) (result : ReadResult) : (w.accept result).2.reader = w.reader := by
  unfold accept
  split
  · rfl
  · rfl
  · obtain ⟨log, same⟩ := receive_eq w (‹UInt8› :: ‹List UInt8›)
    rw [same]
  · split <;> rfl

theorem accept_exhausted {result : ReadResult} (running : w.exhausted = false) :
    (w.accept result).2.exhausted = true ↔ result = .bytes [] := by
  unfold accept
  split
  · simp [running]
  · simp [running]
  · obtain ⟨log, same⟩ := receive_eq w (‹UInt8› :: ‹List UInt8›)
    simp [same, running]
  · split <;> simp

theorem Traces.readOnce (traces : w.Traces r) (running : w.exhausted = false)
    (room : w.chars.size < w.capacity) : w.readOnce.2.Traces r := by
  obtain ⟨results, some_, reads⟩ := traces
  rw [if_neg (by simp [running])] at reads
  have more := reads.more (w.capacity - w.chars.size) (Nat.sub_pos_of_lt room)
  have reader : w.readOnce.2.reader = (w.reader.read (w.capacity - w.chars.size)).2 := accept_reader _ _
  have exhausted : w.readOnce.2.exhausted = true ↔ _ := accept_exhausted (by exact running)
  by_cases ended : (w.reader.read (w.capacity - w.chars.size)).1 = .bytes []
  · refine ⟨results, some_, ?_⟩
    rw [if_pos (exhausted.2 ended), reader, ← ended]
    exact more
  · refine ⟨results ++ [(w.reader.read (w.capacity - w.chars.size)).1], ?_, ?_⟩
    · simp [some_, Ne.symm ended]
    · rw [if_neg (mt exhausted.1 ended), reader]
      exact more

theorem Traces.fill (traces : w.Traces r) : w.fill.2.Traces r := by
  unfold SourceWindow.fill
  split
  · exact traces
  · rename_i running
    have made := traces.congr w.makeRoom_reader w.makeRoom_exhausted
    exact made.readOnce (by simpa [makeRoom_exhausted] using running) (makeRoom_room w)

theorem Traces.take (traces : w.Traces r) : w.take.2.Traces r := by
  fun_induction SourceWindow.take w with
  | case1 w c found => exact traces.congr rfl rfl
  | case2 w none_ cause w' filled => simpa [filled] using traces.fill
  | case3 w none_ w' filled => simpa [filled] using traces.fill
  | case4 w none_ w' filled ih => exact ih (by simpa [filled] using traces.fill)

/-- However often a window has been filled, its reader was not asked more often than this. -/
theorem Traces.reads_le (traces : w.Traces r) : w.reader.reads ≤ r.reads + r.pending + 1 := by
  obtain ⟨results, some_, reads⟩ := traces
  split at reads
  · obtain ⟨r₁, before, one⟩ := reads.before_last
    have bound := before.length_le some_
    have count := before.count
    omega
  · have bound := reads.length_le some_
    rw [reads.count]
    omega

theorem traces_simulation (r : ByteReader) : WindowSimulation fun w v => v = w ∧ w.Traces r where
  take := by
    rintro w _ ⟨rfl, traces⟩ answer took
    exact ⟨took, rfl, traces.take⟩
  beginLine := fun ⟨same, traces⟩ => ⟨same ▸ rfl, traces.congr rfl rfl⟩
  clearLog := fun ⟨same, traces⟩ => ⟨same ▸ rfl, traces.congr rfl rfl⟩

end SourceWindow
end EcmaLex
