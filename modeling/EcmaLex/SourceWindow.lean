import EcmaLex.ByteReader
import EcmaLex.Text.CharClass

/-!
A window of decoded characters over a byte reader. It is refilled one read at a time. A full window
first drops the lines before the current one and only then doubles, so its size follows the longest
line and not the input.
-/
namespace EcmaLex
open Text

inductive WindowEvent where
  | reclaimed (characters capacity : Nat)
  | grew (capacity : Nat)
  /-- The input ended inside a UTF-8 sequence of which `bytes` bytes had arrived. -/
  | truncated (bytes : Nat)
  | illFormed (bytes : Nat)
  deriving DecidableEq, Repr

structure SourceWindow where
  reader : ByteReader
  capacity : Nat
  capacity_pos : 0 < capacity
  chars : Array Char := #[]
  /-- Index of the next unread character. -/
  cursor : Nat := 0
  /-- Index of the first character of the current line. -/
  lineStart : Nat := 0
  /-- Bytes of a UTF-8 sequence whose end has not arrived. -/
  undecoded : List UInt8 := []
  exhausted : Bool := false
  /-- Events, newest first. -/
  log : List WindowEvent := []

namespace SourceWindow

/-- Drops the finished lines. -/
def reclaim (w : SourceWindow) : SourceWindow :=
  { w with
    chars := w.chars.extract w.lineStart w.chars.size
    cursor := w.cursor - w.lineStart
    lineStart := 0
    log := .reclaimed w.lineStart w.capacity :: w.log }

def double (w : SourceWindow) : SourceWindow :=
  { w with
    capacity := w.capacity * 2
    capacity_pos := Nat.mul_pos w.capacity_pos (by decide)
    log := .grew (w.capacity * 2) :: w.log }

def grow (w : SourceWindow) : SourceWindow :=
  if w.chars.size < w.capacity then w else w.double.grow
termination_by w.chars.size + 1 - w.capacity
decreasing_by
  have := w.capacity_pos
  simp only [double]
  omega

/-- Leaves room for at least one character, so that a read of nothing means the end of input. -/
def makeRoom (w : SourceWindow) : SourceWindow :=
  if w.chars.size < w.capacity then w
  else if w.lineStart = 0 then w.grow
  else w.reclaim.grow

def appendItem (w : SourceWindow) (item : Utf8.Item) : SourceWindow :=
  { w with
    chars := w.chars.push item.toChar
    log := match item with
      | .char _ => w.log
      | .illFormed bytes => .illFormed bytes :: w.log }

/-- Takes in bytes; what is complete becomes characters. -/
def receive (w : SourceWindow) (bytes : List UInt8) : SourceWindow :=
  let decoded := Utf8.decode (w.undecoded ++ bytes)
  decoded.1.foldl appendItem { w with undecoded := decoded.2 }

/-- The end of input inside a sequence stands for a replacement character. -/
def breakOff (w : SourceWindow) : SourceWindow :=
  { w with
    chars := w.chars.push Utf8.replacement
    undecoded := []
    log := .truncated w.undecoded.length :: w.log }

/-- Takes in the answer of a read. No bytes mean the end of input. The answer is `false` if that
end added no character. -/
def accept (w : SourceWindow) : ReadResult → Except ReadFailure Bool × SourceWindow
  | .interrupted => (.ok true, w)
  | .failed cause => (.error cause, w)
  | .bytes (byte :: bytes) => (.ok true, w.receive (byte :: bytes))
  | .bytes [] =>
    if w.undecoded.isEmpty then (.ok false, { w with exhausted := true })
    else (.ok true, { w.breakOff with exhausted := true })

def readOnce (w : SourceWindow) : Except ReadFailure Bool × SourceWindow :=
  let answer := w.reader.read (w.capacity - w.chars.size)
  accept { w with reader := answer.2 } answer.1

/-- Reads once from the input into the window. An interrupted read and a read that completes no
character answer `true`; only the end of input answers `false`. -/
def fill (w : SourceWindow) : Except ReadFailure Bool × SourceWindow :=
  if w.exhausted then (.ok false, w) else w.makeRoom.readOnce

/-- The text of the current line as far as it has been read. -/
def currentLine (w : SourceWindow) : List Char :=
  (w.chars.toList.drop w.lineStart).takeWhile fun c => !isLineTerminator c

/-- Bounds the reads that are still possible. -/
def pendingReads (w : SourceWindow) : Nat := if w.exhausted then 0 else w.reader.pending + 1

/-- Bounds the characters that are still to be taken. -/
def remaining (w : SourceWindow) : Nat :=
  (w.chars.size - w.cursor) + w.undecoded.length + w.reader.left

theorem grow_eq (w : SourceWindow) :
    ∃ capacity capacity_pos log, w.grow = { w with capacity, capacity_pos, log } := by
  fun_induction grow w with
  | case1 w => exact ⟨w.capacity, w.capacity_pos, w.log, rfl⟩
  | case2 w _ ih => exact ih

theorem grow_room (w : SourceWindow) : w.grow.chars.size < w.grow.capacity := by
  fun_induction grow w with
  | case1 w room => exact room
  | case2 w _ ih => exact ih

theorem makeRoom_room (w : SourceWindow) : w.makeRoom.chars.size < w.makeRoom.capacity := by
  unfold makeRoom
  split
  · assumption
  · split <;> exact grow_room _

theorem makeRoom_reader (w : SourceWindow) : w.makeRoom.reader = w.reader := by
  unfold makeRoom
  split
  · rfl
  · split
    · obtain ⟨_, _, _, same⟩ := grow_eq w
      rw [same]
    · obtain ⟨_, _, _, same⟩ := grow_eq w.reclaim
      rw [same]; rfl

theorem makeRoom_remaining (w : SourceWindow) : w.makeRoom.remaining ≤ w.remaining := by
  unfold makeRoom
  split
  · exact Nat.le_refl _
  · split
    · obtain ⟨_, _, _, same⟩ := grow_eq w
      rw [same]; exact Nat.le_refl _
    · obtain ⟨_, _, _, same⟩ := grow_eq w.reclaim
      rw [same]
      simp only [remaining, reclaim, Array.size_extract]
      omega

theorem foldl_appendItem_remaining (items : List Utf8.Item) (w : SourceWindow) :
    (items.foldl appendItem w).remaining ≤ w.remaining + items.length := by
  induction items generalizing w with
  | nil => exact Nat.le_refl _
  | cons item items ih =>
    have first : (w.appendItem item).remaining ≤ w.remaining + 1 := by
      simp only [appendItem, remaining, Array.size_push]
      omega
    have others := ih (w.appendItem item)
    simp only [List.foldl_cons, List.length_cons]
    omega

theorem foldl_appendItem_reader (items : List Utf8.Item) (w : SourceWindow) :
    (items.foldl appendItem w).reader = w.reader := by
  induction items generalizing w with
  | nil => rfl
  | cons item items ih => exact ih _

theorem receive_remaining (w : SourceWindow) (bytes : List UInt8) :
    (w.receive bytes).remaining ≤ w.remaining + bytes.length := by
  have decoded := Utf8.length_decode (w.undecoded ++ bytes)
  have appended := foldl_appendItem_remaining (Utf8.decode (w.undecoded ++ bytes)).1
    { w with undecoded := (Utf8.decode (w.undecoded ++ bytes)).2 }
  simp only [List.length_append] at decoded
  simp only [receive, remaining] at *
  omega

theorem accept_remaining (w : SourceWindow) (result : ReadResult) :
    (w.accept result).2.remaining ≤ w.remaining + result.byteCount := by
  unfold accept
  split
  · exact Nat.le_refl _
  · exact Nat.le_refl _
  · exact receive_remaining w _
  · split
    · exact Nat.le_refl _
    · rename_i held
      have : w.undecoded.length ≠ 0 := by simpa using held
      simp only [remaining, breakOff, Array.size_push, List.length_nil, ReadResult.byteCount]
      omega

theorem readOnce_remaining (w : SourceWindow) : w.readOnce.2.remaining ≤ w.remaining := by
  have taken := ByteReader.read_left (w.capacity - w.chars.size) w.reader
  refine Nat.le_trans (accept_remaining _ _) ?_
  simp only [remaining] at *
  omega

theorem fill_remaining (w : SourceWindow) : w.fill.2.remaining ≤ w.remaining := by
  unfold fill
  split
  · exact Nat.le_refl _
  · exact Nat.le_trans (readOnce_remaining _) (makeRoom_remaining w)

theorem pendingReads_le (w : SourceWindow) : w.pendingReads ≤ w.reader.pending + 1 := by
  unfold pendingReads
  split <;> omega

theorem accept_pendingReads {w w' : SourceWindow} {result : ReadResult}
    (accepted : w.accept result = (.ok true, w')) :
    result = .bytes [] ∧ w'.pendingReads = 0 ∨
      result ≠ .bytes [] ∧ w'.pendingReads ≤ w.reader.pending + 1 := by
  unfold accept at accepted
  split at accepted
  · cases accepted; exact .inr ⟨by simp, pendingReads_le _⟩
  · cases accepted
  · cases accepted
    refine .inr ⟨by simp, ?_⟩
    have := pendingReads_le (w.receive (‹UInt8› :: ‹List UInt8›))
    rwa [receive, foldl_appendItem_reader] at this
  · split at accepted
    · cases accepted
    · cases accepted; exact .inl ⟨rfl, rfl⟩

theorem fill_pendingReads {w w' : SourceWindow} (filled : w.fill = (.ok true, w')) :
    w'.pendingReads < w.pendingReads := by
  unfold fill at filled
  split at filled
  · cases filled
  · rename_i running
    have used := ByteReader.read_pending (Nat.sub_pos_of_lt (makeRoom_room w)) w.makeRoom.reader
    rw [show w.pendingReads = w.makeRoom.reader.pending + 1 by
      simp [pendingReads, running, makeRoom_reader]]
    rcases accept_pendingReads filled with ⟨_, none_⟩ | ⟨some_, bound⟩
    · omega
    · exact Nat.lt_of_le_of_lt bound (Nat.succ_lt_succ (used some_))

/-- Takes the next raw character, refilling as often as it needs. -/
def take (w : SourceWindow) : Except ReadFailure (Option Char) × SourceWindow :=
  match w.chars[w.cursor]? with
  | some c => (.ok (some c), { w with cursor := w.cursor + 1 })
  | none =>
    match _filled : w.fill with
    | (.error cause, w) => (.error cause, w)
    | (.ok false, w) => (.ok none, w)
    | (.ok true, w) => take w
termination_by w.pendingReads
decreasing_by exact fill_pendingReads _filled

/-- The character taken last is the first of its line. -/
def beginLine (w : SourceWindow) : SourceWindow := { w with lineStart := w.cursor - 1 }

theorem take_remaining {w w' : SourceWindow} {answer : Except ReadFailure (Option Char)}
    (took : w.take = (answer, w')) : w'.remaining ≤ w.remaining := by
  fun_induction take w with
  | case1 w c _ => cases took; simp only [remaining]; omega
  | case2 w _ cause _ filled => cases took; simpa [filled] using fill_remaining w
  | case3 w _ _ filled => cases took; simpa [filled] using fill_remaining w
  | case4 w _ w'' filled ih =>
    exact Nat.le_trans (ih took) (by simpa [filled] using fill_remaining w)

theorem take_remaining_some {w w' : SourceWindow} {c : Char}
    (took : w.take = (.ok (some c), w')) : w'.remaining < w.remaining := by
  fun_induction take w with
  | case1 w c found =>
    have : w.cursor < w.chars.size := (Array.getElem?_eq_some_iff.1 found).1
    cases took
    simp only [remaining]
    omega
  | case2 => cases took
  | case3 => cases took
  | case4 w _ w'' filled ih =>
    exact Nat.lt_of_lt_of_le (ih took) (by simpa [filled] using fill_remaining w)

end SourceWindow
end EcmaLex
