import EcmaLex.Log
import EcmaLex.Proofs.Text.Utf8Sequences
import EcmaLex.Proofs.Source.ReadHistory

/-!
The whole life of a window. It is refilled, hands out characters, begins lines and has its events
collected, in any order; a source buffer does nothing else with it (`Call.run_window`). What it has
moved in and warned of by then is told by the bytes read so far (`Run.accounts`).
-/
namespace EcmaLex
open Text

/-- What a window has done since it was opened. -/
structure WindowHistory where
  /-- The raw characters moved into the window. -/
  moved : List Char := []
  /-- The raw characters handed out. -/
  handed : List Char := []
  /-- The events collected from the window. -/
  collected : List WindowEvent := []

def WindowEvent.isWarning (e : WindowEvent) : Bool := e.entry.level = .warning

namespace SourceWindow

/-- The characters that a refill adds to what it keeps. -/
def arrivals (w : SourceWindow) : List Char :=
  if w.exhausted then [] else w.fill.2.chars.toList.drop w.makeRoom.chars.size

/-- The window after this many refills. -/
def refills : Nat → SourceWindow → SourceWindow
  | 0, w => w
  | n + 1, w => refills n w.fill.2

/-- The windows that come from a new one over `reader`, with their histories. -/
inductive Run (reader : ByteReader) (capacity : Nat) : WindowHistory → SourceWindow → Prop
  | opened (capacity_pos : 0 < capacity) : Run reader capacity {} { reader, capacity, capacity_pos }
  | refill {h w} : Run reader capacity h w →
      Run reader capacity { h with moved := h.moved ++ w.arrivals } w.fill.2
  | hand {h w c} : Run reader capacity h w → w.chars[w.cursor]? = some c →
      Run reader capacity { h with handed := h.handed ++ [c] } { w with cursor := w.cursor + 1 }
  | beginLine {h w} : Run reader capacity h w → Run reader capacity h w.beginLine
  | collect {h w} : Run reader capacity h w →
      Run reader capacity { h with collected := h.collected ++ w.log.reverse } { w with log := [] }

/-- Every warning so far, the oldest first. -/
def warnings (h : WindowHistory) (w : SourceWindow) : List WindowEvent :=
  (h.collected ++ w.log.reverse).filter WindowEvent.isWarning

end SourceWindow

namespace Text.Utf8

def Item.warning? : Item → Option WindowEvent
  | .char _ => none
  | .illFormed bytes => some (.illFormed bytes)

/-- The text of a whole input that is cut so. -/
def textOf (items : List Item) (held : List UInt8) : List Char :=
  items.map Item.toChar ++ if held.isEmpty then [] else [replacement]

/-- The warnings that a whole input deserves that is cut so. -/
def warningsOf (items : List Item) (held : List UInt8) : List WindowEvent :=
  items.filterMap Item.warning? ++ if held.isEmpty then [] else [.truncated held.length]

end Text.Utf8

namespace SourceWindow

variable {w : SourceWindow} {h : WindowHistory} {bytes : List UInt8}

/-- What all steps of a window preserve. -/
structure Invariant (P : SourceWindow → Prop) : Prop where
  fill {w : SourceWindow} : P w → P w.fill.2
  hand {w : SourceWindow} {c : Char} : P w → w.chars[w.cursor]? = some c → P { w with cursor := w.cursor + 1 }
  beginLine {w : SourceWindow} : P w → P w.beginLine
  collect {w : SourceWindow} : P w → P { w with log := [] }

theorem Invariant.take {P : SourceWindow → Prop} (inv : Invariant P) (before : P w) : P w.take.2 := by
  fun_induction SourceWindow.take w with
  | case1 w c found => exact inv.hand before found
  | case2 w none_ cause w' filled => simpa [filled] using inv.fill before
  | case3 w none_ w' filled => simpa [filled] using inv.fill before
  | case4 w none_ w' filled ih => exact ih (by simpa [filled] using inv.fill before)

theorem run_invariant (reader : ByteReader) (capacity : Nat) :
    Invariant fun w => ∃ h, Run reader capacity h w where
  fill := fun ⟨_, run⟩ => ⟨_, run.refill⟩
  hand := fun ⟨_, run⟩ found => ⟨_, run.hand found⟩
  beginLine := fun ⟨_, run⟩ => ⟨_, run.beginLine⟩
  collect := fun ⟨_, run⟩ => ⟨_, run.collect⟩

end SourceWindow

namespace SourceBuffer

/-- What can be asked of a buffer. -/
inductive Call where
  | next (skipFormat : Bool)
  | nextSignificant
  | putBack (c : Char)
  | beginLexeme
  | fill
  | collect

def Call.run (b : SourceBuffer) : Call → SourceBuffer
  | .next skipFormat => (b.next skipFormat).2
  | .nextSignificant => (CharSource.nextSignificant b).2
  | .putBack c => b.putBack c
  | .beginLexeme => b.beginLexeme
  | .fill => { b with window := b.window.fill.2 }
  | .collect => { b with window := { b.window with log := [] } }

/-- The buffer after these calls. -/
def called (calls : List Call) (b : SourceBuffer) : SourceBuffer := calls.foldl Call.run b

section
variable {P : SourceWindow → Prop} {b : SourceBuffer}

theorem place_window (inv : SourceWindow.Invariant P) {window : SourceWindow} (before : P window)
    (tracker : LineTracker) (opensLine : Bool) : P (b.place window tracker opensLine).window := by
  cases opensLine with
  | false => exact before
  | true => exact inv.beginLine before

theorem next_window (inv : SourceWindow.Invariant P) (skipFormat : Bool) (before : P b.window) :
    P (b.next skipFormat).2.window := by
  fun_induction SourceBuffer.next skipFormat b with
  | case1 b c loc pushback given passed ih => exact ih before
  | case2 b c loc pushback given kept => exact before
  | case3 b given cause window took => simpa [took] using inv.take before
  | case4 b given window took => simpa [took, reachEnd] using inv.take before
  | case5 b given raw window took tracker advanced ih => exact ih (by simpa [took] using inv.take before)
  | case6 b given raw window took c loc opensLine tracker advanced passed ih =>
    have taken : P window := by simpa [took] using inv.take before
    exact ih (place_window inv taken tracker opensLine)
  | case7 b given raw window took c loc opensLine tracker advanced kept =>
    have taken : P window := by simpa [took] using inv.take before
    exact place_window (b := b) inv taken tracker opensLine

theorem nextSignificant_window (inv : SourceWindow.Invariant P) (before : P b.window) :
    P (CharSource.nextSignificant b).2.window := by
  fun_induction CharSource.nextSignificant b with
  | case1 b c b' taken blank ih =>
    have stepped : P ((beginLexeme b).next true).2.window := next_window inv true before
    change (beginLexeme b).next true = (.ok (some c), b') at taken
    rw [taken] at stepped
    exact ih stepped
  | case2 b c b' taken significant =>
    have stepped : P ((beginLexeme b).next true).2.window := next_window inv true before
    change (beginLexeme b).next true = (.ok (some c), b') at taken
    rw [taken] at stepped
    exact stepped
  | case3 b none_ => exact next_window (b := beginLexeme b) inv true before

/-- A buffer does nothing with its window but to take the steps of a window. -/
theorem Call.run_window (inv : SourceWindow.Invariant P) (call : Call) (before : P b.window) :
    P (call.run b).window := by
  cases call with
  | next skipFormat => exact next_window inv skipFormat before
  | nextSignificant => exact nextSignificant_window inv before
  | putBack c =>
    simp only [Call.run, SourceBuffer.putBack]
    split <;> exact before
  | beginLexeme => exact before
  | fill => exact inv.fill before
  | collect => exact inv.collect before

theorem called_window (inv : SourceWindow.Invariant P) (calls : List Call) (before : P b.window) :
    P (b.called calls).window := by
  induction calls generalizing b with
  | nil => exact before
  | cons call calls ih => exact ih (call.run_window inv before)

end

end SourceBuffer

namespace SourceWindow

variable {w : SourceWindow} {h : WindowHistory} {bytes : List UInt8}

/-- A window that has read `got` and no end of input has made what it should of these bytes. -/
structure Reading (got : List UInt8) (h : WindowHistory) (w : SourceWindow) : Prop extends Sound w where
  running : w.exhausted = false
  undecoded : w.undecoded = (Utf8.decode got).2
  kept : h.moved = h.handed ++ w.unread
  moved : h.moved = Utf8.completed got
  warnings : w.warnings h = (Utf8.decode got).1.filterMap Utf8.Item.warning?

/-- A window that has read all of its input has made what it should of it. -/
structure Finished (bytes : List UInt8) (h : WindowHistory) (w : SourceWindow) : Prop extends Sound w where
  exhausted : w.exhausted = true
  undecoded : w.undecoded = []
  kept : h.moved = h.handed ++ w.unread
  moved : h.moved = Utf8.textOf (Utf8.decode bytes).1 (Utf8.decode bytes).2
  warnings : w.warnings h = Utf8.warningsOf (Utf8.decode bytes).1 (Utf8.decode bytes).2

/-- A window over an input of these bytes is in the middle of them or at their end. -/
inductive Accounts (bytes : List UInt8) (h : WindowHistory) (w : SourceWindow) : Prop
  | reading {got more : List UInt8} : bytes = got ++ more → Delivers w.reader.script more →
      Reading got h w → Accounts bytes h w
  | finished : Finished bytes h w → Accounts bytes h w

theorem warnings_eq (h : WindowHistory) (w : SourceWindow) :
    w.warnings h = h.collected.filter WindowEvent.isWarning ++
      (w.log.filter WindowEvent.isWarning).reverse := by
  rw [warnings, List.filter_append, List.filter_reverse]

theorem grow_warnings (w : SourceWindow) :
    w.grow.log.filter WindowEvent.isWarning = w.log.filter WindowEvent.isWarning := by
  fun_induction grow w with
  | case1 w room => rfl
  | case2 w full ih => exact ih

theorem makeRoom_warnings (h : WindowHistory) (w : SourceWindow) :
    w.makeRoom.warnings h = w.warnings h := by
  rw [warnings_eq, warnings_eq]
  congr 2
  unfold SourceWindow.makeRoom
  split
  · rfl
  · split
    · exact grow_warnings w
    · exact grow_warnings w.reclaim

theorem foldl_appendItem_log (items : List Utf8.Item) (w : SourceWindow) :
    (items.foldl appendItem w).log = (items.filterMap Utf8.Item.warning?).reverse ++ w.log := by
  induction items generalizing w with
  | nil => rfl
  | cons item items ih =>
    rw [List.foldl_cons, ih]
    cases item with
    | char c => rfl
    | illFormed n => simp [appendItem, Utf8.Item.warning?]

theorem filter_warnings (items : List Utf8.Item) :
    (items.filterMap Utf8.Item.warning?).filter WindowEvent.isWarning =
      items.filterMap Utf8.Item.warning? := by
  rw [List.filter_eq_self]
  intro e among
  obtain ⟨item, _, same⟩ := List.mem_filterMap.1 among
  cases item with
  | char c => cases same
  | illFormed n =>
    cases same
    rfl

theorem receive_warnings (h : WindowHistory) (w : SourceWindow) (part : List UInt8) :
    (w.receive part).warnings h =
      w.warnings h ++ (Utf8.decode (w.undecoded ++ part)).1.filterMap Utf8.Item.warning? := by
  have log : (w.receive part).log = _ ++ w.log := foldl_appendItem_log _ _
  rw [warnings, log, List.reverse_append, List.reverse_reverse, ← List.append_assoc,
    List.filter_append, filter_warnings]
  rfl

/-- Characters that come behind those in the window are unread. -/
theorem Sound.unread_append {w' : SourceWindow} {new : List Char} (sound : w.Sound)
    (chars : w'.chars = w.chars ++ new.toArray) (cursor : w'.cursor = w.cursor) :
    w'.unread = w.unread ++ new := by
  have inside : w.cursor ≤ w.chars.toList.length := by simpa using sound.cursor_le
  rw [unread, chars, cursor, Array.toList_append, List.drop_append_of_le_length inside]
  rfl

theorem Reading.kept_append {got : List UInt8} {w' : SourceWindow} {new : List Char}
    (reading : Reading got h w) (chars : w'.chars = w.chars ++ new.toArray)
    (cursor : w'.cursor = w.cursor) : h.moved ++ new = h.handed ++ w'.unread := by
  rw [reading.toSound.unread_append chars cursor, reading.kept, List.append_assoc]

theorem Reading.receive {got : List UInt8} (reading : Reading got h w) (part : List UInt8) :
    (w.receive part).reader = w.reader ∧
      ∃ new, (w.receive part).chars = w.chars ++ new.toArray ∧
        Reading (got ++ part) { h with moved := h.moved ++ new } (w.receive part) := by
  obtain ⟨log, same⟩ := receive_eq w part
  have chars := congrArg SourceWindow.chars same
  have cursor : (w.receive part).cursor = w.cursor := by rw [same]
  refine ⟨by rw [same], _, chars, reading.toSound.receive part, ?_, ?_,
    reading.kept_append chars cursor, ?_, ?_⟩
  · rw [same]
    exact reading.running
  · rw [same, Utf8.decode_append got part, ← reading.undecoded]
  · change h.moved ++ Utf8.completed (w.undecoded ++ part) = _
    rw [Utf8.completed_append got part, reading.moved, reading.undecoded]
  · change (w.receive part).warnings h = _
    rw [receive_warnings, reading.warnings, reading.undecoded, Utf8.decode_append got part,
      List.filterMap_append]

/-- The end of input adds a replacement character if it comes inside a sequence. -/
theorem Reading.ended (reading : Reading bytes h w) :
    ∃ new, (w.accept (.bytes [])).2.chars = w.chars ++ new.toArray ∧
      Finished bytes { h with moved := h.moved ++ new } (w.accept (.bytes [])).2 := by
  have sound := reading.toSound.accept_end.1.toSound
  by_cases held : w.undecoded = []
  · have answer : w.accept (.bytes []) = (.ok false, { w with exhausted := true }) := by
      simp [SourceWindow.accept, held]
    have none_ := reading.undecoded.symm.trans held
    have chars : ({ w with exhausted := true } : SourceWindow).chars = w.chars ++ #[] := by simp
    rw [answer] at sound ⊢
    refine ⟨[], chars, sound, rfl, held, reading.kept_append chars rfl, ?_, ?_⟩
    · simp [reading.moved, Utf8.completed, Utf8.textOf, none_]
    · change w.warnings h = _
      simp [reading.warnings, Utf8.warningsOf, none_]
  · have answer : w.accept (.bytes []) = (.ok true, { w.breakOff with exhausted := true }) := by
      simp [SourceWindow.accept, held]
    have some_ : (Utf8.decode bytes).2 ≠ [] := reading.undecoded ▸ held
    have chars : ({ w.breakOff with exhausted := true } : SourceWindow).chars =
        w.chars ++ #[Utf8.replacement] := by simp [breakOff]
    rw [answer] at sound ⊢
    refine ⟨[Utf8.replacement], chars, sound, rfl, rfl, reading.kept_append chars rfl, ?_, ?_⟩
    · simp [reading.moved, Utf8.completed, Utf8.textOf, some_]
    · have one : WindowEvent.isWarning (.truncated w.undecoded.length) = true := rfl
      change (h.collected ++ (.truncated w.undecoded.length :: w.log).reverse).filter _ = _
      rw [List.reverse_cons, ← List.append_assoc, List.filter_append, ← SourceWindow.warnings,
        reading.warnings, List.filter_cons_of_pos one, List.filter_nil, reading.undecoded]
      simp [Utf8.warningsOf, some_]

/-- A read adds characters behind those in the window, and the history tells which. -/
theorem Reading.readOnce {got more : List UInt8} (reading : Reading got h w)
    (delivers : Delivers w.reader.script more) (room : w.chars.size < w.capacity) :
    ∃ new, w.readOnce.2.chars = w.chars ++ new.toArray ∧
      Accounts (got ++ more) { h with moved := h.moved ++ new } w.readOnce.2 := by
  have other (reader : ByteReader) : Reading got h { w with reader } :=
    ⟨⟨reading.lineStart_le, reading.cursor_le, reading.kept_back⟩, reading.running, reading.undecoded,
      reading.kept, reading.moved, reading.warnings⟩
  unfold SourceWindow.readOnce ByteReader.read
  obtain ⟨answer, rfl⟩ | ⟨byte, part, more, answer, rfl, rest⟩ | ⟨answer, rest⟩ :=
    delivers.deliver (Nat.sub_pos_of_lt room)
  · simp only [answer, List.append_nil]
    obtain ⟨new, chars, finished⟩ := (other _).ended
    exact ⟨new, chars, .finished finished⟩
  · simp only [answer, accept]
    obtain ⟨reader, new, chars, reading'⟩ := (other _).receive (byte :: part)
    exact ⟨new, chars, .reading (List.append_assoc _ _ _).symm (reader ▸ rest) reading'⟩
  · simp only [answer, accept]
    refine ⟨[], by simp, .reading rfl rest ?_⟩
    rw [List.append_nil]
    exact other _

theorem Reading.makeRoom {got : List UInt8} (reading : Reading got h w) : Reading got h w.makeRoom where
  toSound := reading.toSound.makeRoom
  running := by rw [makeRoom_exhausted, reading.running]
  undecoded := by rw [makeRoom_undecoded, reading.undecoded]
  kept := by rw [reading.makeRoom_unread, reading.kept]
  moved := reading.moved
  warnings := by rw [makeRoom_warnings, reading.warnings]

theorem Accounts.fill (accounts : Accounts bytes h w) :
    Accounts bytes { h with moved := h.moved ++ w.arrivals } w.fill.2 := by
  cases accounts with
  | finished finished =>
    have none_ : w.arrivals = [] := if_pos finished.exhausted
    have same : w.fill.2 = w := by rw [SourceWindow.fill, if_pos finished.exhausted]
    rw [none_, List.append_nil, same]
    exact .finished finished
  | reading split delivers reading =>
    have filled : w.fill = w.makeRoom.readOnce := if_neg (by simp [reading.running])
    obtain ⟨new, chars, accounts⟩ :=
      reading.makeRoom.readOnce (makeRoom_reader w ▸ delivers) (makeRoom_room w)
    have arrived : w.arrivals = new := by
      rw [arrivals, if_neg (by simp [reading.running]), filled, chars, Array.toList_append,
        ← Array.length_toList, List.drop_left]
    rw [arrived, filled, split]
    exact accounts

theorem Sound.hand {c : Char} (sound : w.Sound) (found : w.chars[w.cursor]? = some c) :
    Sound { w with cursor := w.cursor + 1 } :=
  ⟨Nat.le_succ_of_le sound.lineStart_le, (unread_eq_cons found).1, sound.kept_back⟩

theorem kept_hand {c : Char} (kept : h.moved = h.handed ++ w.unread)
    (found : w.chars[w.cursor]? = some c) :
    h.moved = (h.handed ++ [c]) ++ { w with cursor := w.cursor + 1 }.unread := by
  rw [kept, (unread_eq_cons found).2, List.append_assoc, List.singleton_append]

theorem Accounts.hand {c : Char} (accounts : Accounts bytes h w)
    (found : w.chars[w.cursor]? = some c) :
    Accounts bytes { h with handed := h.handed ++ [c] } { w with cursor := w.cursor + 1 } := by
  cases accounts with
  | finished f =>
    exact .finished ⟨f.toSound.hand found, f.exhausted, f.undecoded, kept_hand f.kept found, f.moved,
      f.warnings⟩
  | reading split delivers r =>
    exact .reading split delivers ⟨r.toSound.hand found, r.running, r.undecoded, kept_hand r.kept found,
      r.moved, r.warnings⟩

theorem Accounts.beginLine (accounts : Accounts bytes h w) : Accounts bytes h w.beginLine := by
  cases accounts with
  | finished f =>
    exact .finished ⟨f.toSound.beginLine, f.exhausted, f.undecoded, f.kept, f.moved, f.warnings⟩
  | reading split delivers r =>
    exact .reading split delivers ⟨r.toSound.beginLine, r.running, r.undecoded, r.kept, r.moved,
      r.warnings⟩

theorem warnings_collect (h : WindowHistory) (w : SourceWindow) :
    ({ w with log := [] } : SourceWindow).warnings { h with collected := h.collected ++ w.log.reverse } =
      w.warnings h := by
  simp [warnings]

theorem Accounts.collect (accounts : Accounts bytes h w) :
    Accounts bytes { h with collected := h.collected ++ w.log.reverse } { w with log := [] } := by
  cases accounts with
  | finished f =>
    exact .finished ⟨f.toSound.clearLog, f.exhausted, f.undecoded, f.kept, f.moved,
      (warnings_collect h w).trans f.warnings⟩
  | reading split delivers r =>
    exact .reading split delivers ⟨r.toSound.clearLog, r.running, r.undecoded, r.kept, r.moved,
      (warnings_collect h w).trans r.warnings⟩

theorem Run.accounts {reader : ByteReader} {capacity : Nat} (delivers : Delivers reader.script bytes)
    (run : Run reader capacity h w) : Accounts bytes h w := by
  induction run with
  | opened capacity_pos =>
    refine .reading (List.nil_append bytes).symm delivers ⟨⟨Nat.le_refl 0, Nat.le_refl 0, ?_⟩, rfl, ?_,
      rfl, ?_, ?_⟩ <;> simp [Utf8.completed, warnings]
  | refill _ ih => exact ih.fill
  | hand _ found ih => exact ih.hand found
  | beginLine _ ih => exact ih.beginLine
  | collect _ ih => exact ih.collect

end SourceWindow
end EcmaLex
