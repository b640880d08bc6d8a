import EcmaLex.Proofs.Text.Utf8Pieces
import EcmaLex.SourceWindow

/-!
The raw characters that a window will hand out. They are the lossy decoding of the bytes to come,
however the reader cuts and interrupts them and however the window drops lines and grows
(`Holds.take`).
-/
namespace EcmaLex
open Text

/-- A script delivers these bytes without a failure: in pieces of any size, with interruptions
anywhere, up to its first read of nothing. What would follow that read does not matter. -/
inductive Delivers : List Delivery → List UInt8 → Prop
  | exhausted : Delivers [] []
  | eof (rest : List Delivery) : Delivers (.eof :: rest) []
  | piece {script bytes} (piece : List UInt8) :
      Delivers script bytes → Delivers (.piece piece :: script) (piece ++ bytes)
  | interrupted {script bytes} : Delivers script bytes → Delivers (.interrupted :: script) bytes

/-- A read with room gets a first part of a piece. The script that stays behind brings the rest of the
piece and what was to follow it. -/
theorem ByteReader.deliver_piece {Brings : List Delivery → List UInt8 → Prop} {script : List Delivery}
    {bytes : List UInt8} {room : Nat} (roomy : 0 < room) (rest : Brings script bytes)
    (pieces : ∀ left, Brings (.piece left :: script) (left ++ bytes)) (first : UInt8) (tail : List UInt8) :
    ∃ byte part more, (deliver room (.piece (first :: tail) :: script)).1 = .bytes (byte :: part) ∧
      (first :: tail) ++ bytes = (byte :: part) ++ more ∧
      Brings (deliver room (.piece (first :: tail) :: script)).2 more := by
  obtain ⟨k, rfl⟩ := Nat.exists_eq_add_one.2 roomy
  refine ⟨first, tail.take k, tail.drop k ++ bytes, by simp [deliver], ?_, ?_⟩
  · simp only [List.cons_append, ← List.append_assoc, List.take_append_drop]
  · simp only [deliver, List.drop_succ_cons, List.isEmpty_iff]
    split
    · rename_i none_
      rw [none_]
      exact rest
    · exact pieces _

/-- The answer to a read with room is the end, or a first part of the bytes, or an interruption. -/
theorem Delivers.deliver {script : List Delivery} {bytes : List UInt8}
    (delivers : Delivers script bytes) {room : Nat} (roomy : 0 < room) :
    (ByteReader.deliver room script).1 = .bytes [] ∧ bytes = [] ∨
      (∃ byte part more, (ByteReader.deliver room script).1 = .bytes (byte :: part) ∧
        bytes = (byte :: part) ++ more ∧ Delivers (ByteReader.deliver room script).2 more) ∨
      (ByteReader.deliver room script).1 = .interrupted ∧
        Delivers (ByteReader.deliver room script).2 bytes := by
  induction delivers with
  | exhausted => exact .inl ⟨rfl, rfl⟩
  | eof rest => exact .inl ⟨rfl, rfl⟩
  | interrupted rest ih => exact .inr (.inr ⟨rfl, rest⟩)
  | @piece script bytes piece rest ih =>
    cases piece with
    | nil => simpa only [ByteReader.deliver, List.nil_append] using ih
    | cons byte tail => exact .inr (.inl (ByteReader.deliver_piece roomy rest (.piece · rest) byte tail))

namespace SourceWindow

/-- The characters in the window that have not been taken. -/
def unread (w : SourceWindow) : List Char := w.chars.toList.drop w.cursor

/-- The bytes still to come from the reader. After the end of input there are none. -/
def Awaits (w : SourceWindow) (bytes : List UInt8) : Prop :=
  if w.exhausted then bytes = [] ∧ w.undecoded = [] else Delivers w.reader.script bytes

/-- The indices stand in order, and no complete character is kept back. -/
structure Sound (w : SourceWindow) : Prop where
  lineStart_le : w.lineStart ≤ w.cursor
  cursor_le : w.cursor ≤ w.chars.size
  kept_back : Utf8.decode w.undecoded = ([], w.undecoded)

/-- The raw characters still to be taken from a window are this text. -/
structure Holds (w : SourceWindow) (text : List Char) : Prop extends Sound w where
  text : ∃ bytes, w.Awaits bytes ∧ text = w.unread ++ Utf8.lossy (w.undecoded ++ bytes)

variable {w w' : SourceWindow} {text : List Char}

theorem Holds.ofReader {reader : ByteReader} {bytes : List UInt8}
    (delivers : Delivers reader.script bytes) (capacity : Nat) (capacity_pos : 0 < capacity) :
    Holds { reader, capacity, capacity_pos } (Utf8.lossy bytes) where
  lineStart_le := Nat.le_refl _
  cursor_le := Nat.le_refl _
  kept_back := Utf8.decode_nil
  text := ⟨bytes, delivers, rfl⟩

theorem reclaim_unread (inside : w.lineStart ≤ w.cursor) : w.reclaim.unread = w.unread := by
  have back : w.lineStart + (w.cursor - w.lineStart) = w.cursor := Nat.add_sub_cancel' inside
  have whole : w.chars.toList.length - w.lineStart = (w.chars.toList.drop w.lineStart).length :=
    List.length_drop.symm
  rw [unread, reclaim, Array.toList_extract, List.extract_eq_take_drop, ← Array.length_toList, whole,
    List.take_length, List.drop_drop, back]
  rfl

theorem makeRoom_cases (w : SourceWindow) :
    ∃ capacity capacity_pos log, w.makeRoom = { w with capacity, capacity_pos, log } ∨
      w.makeRoom = { w.reclaim with capacity, capacity_pos, log } := by
  unfold makeRoom
  split
  · exact ⟨w.capacity, w.capacity_pos, w.log, .inl rfl⟩
  · split
    · obtain ⟨capacity, capacity_pos, log, same⟩ := grow_eq w
      exact ⟨capacity, capacity_pos, log, .inl same⟩
    · obtain ⟨capacity, capacity_pos, log, same⟩ := grow_eq w.reclaim
      exact ⟨capacity, capacity_pos, log, .inr same⟩

theorem makeRoom_exhausted (w : SourceWindow) : w.makeRoom.exhausted = w.exhausted := by
  obtain ⟨_, _, _, same | same⟩ := makeRoom_cases w <;> rw [same]
  rfl

theorem makeRoom_undecoded (w : SourceWindow) : w.makeRoom.undecoded = w.undecoded := by
  obtain ⟨_, _, _, same | same⟩ := makeRoom_cases w <;> rw [same]
  rfl

theorem Sound.makeRoom_unread (sound : w.Sound) : w.makeRoom.unread = w.unread := by
  obtain ⟨_, _, _, same | same⟩ := makeRoom_cases w <;> rw [same]
  · rfl
  · exact reclaim_unread sound.lineStart_le

theorem Sound.makeRoom (sound : w.Sound) : w.makeRoom.Sound := by
  obtain ⟨_, _, _, same | same⟩ := makeRoom_cases w <;> rw [same]
  · exact ⟨sound.lineStart_le, sound.cursor_le, sound.kept_back⟩
  · refine ⟨Nat.zero_le _, ?_, sound.kept_back⟩
    have := sound.cursor_le
    simp only [reclaim, Array.size_extract]
    omega

theorem Holds.makeRoom (holds : w.Holds text) : w.makeRoom.Holds text where
  toSound := holds.toSound.makeRoom
  text := by
    simpa only [Awaits, holds.makeRoom_unread, makeRoom_undecoded, makeRoom_exhausted, makeRoom_reader]
      using holds.text

theorem foldl_appendItem_eq (items : List Utf8.Item) (w : SourceWindow) :
    ∃ log, items.foldl appendItem w =
      { w with chars := w.chars ++ (items.map Utf8.Item.toChar).toArray, log } := by
  induction items generalizing w with
  | nil => exact ⟨w.log, by simp⟩
  | cons item items ih =>
    obtain ⟨log, same⟩ := ih (w.appendItem item)
    have joined : (w.appendItem item).chars ++ (items.map Utf8.Item.toChar).toArray =
        w.chars ++ ((item :: items).map Utf8.Item.toChar).toArray := by simp [appendItem]
    exact ⟨log, by rw [List.foldl_cons, same, joined]; rfl⟩

/-- Bytes that arrive become unread characters, but for a sequence whose end has not arrived. -/
theorem receive_eq (w : SourceWindow) (bytes : List UInt8) :
    ∃ log, w.receive bytes =
      { w with
        chars := w.chars ++ (Utf8.completed (w.undecoded ++ bytes)).toArray
        undecoded := (Utf8.decode (w.undecoded ++ bytes)).2
        log } :=
  foldl_appendItem_eq (Utf8.decode (w.undecoded ++ bytes)).1
    { w with undecoded := (Utf8.decode (w.undecoded ++ bytes)).2 }

theorem Sound.receive (sound : w.Sound) (bytes : List UInt8) : (w.receive bytes).Sound := by
  obtain ⟨log, same⟩ := receive_eq w bytes
  rw [same]
  exact ⟨sound.lineStart_le, Nat.le_trans sound.cursor_le (by simp), Utf8.decode_held _⟩

theorem Sound.receive_unread (sound : w.Sound) (bytes : List UInt8) :
    (w.receive bytes).unread = w.unread ++ Utf8.completed (w.undecoded ++ bytes) := by
  have inside : w.cursor ≤ w.chars.toList.length := by simpa using sound.cursor_le
  obtain ⟨log, same⟩ := receive_eq w bytes
  simp [same, unread, List.drop_append_of_le_length inside]

theorem Sound.receive_holds {bytes more : List UInt8} (sound : w.Sound) (running : w.exhausted = false)
    (awaits : Delivers w.reader.script more) :
    (w.receive bytes).Holds (w.unread ++ Utf8.lossy (w.undecoded ++ (bytes ++ more))) := by
  refine ⟨sound.receive bytes, more, ?_, ?_⟩
  · obtain ⟨log, same⟩ := receive_eq w bytes
    simpa [same, Awaits, running] using awaits
  · obtain ⟨log, same⟩ := receive_eq w bytes
    rw [sound.receive_unread, ← List.append_assoc w.undecoded, Utf8.lossy_append, List.append_assoc, same]

/-- The end of input closes a sequence that has broken off. -/
theorem Sound.accept_end (sound : w.Sound) :
    (w.accept (.bytes [])).2.Holds (w.unread ++ Utf8.lossy w.undecoded) ∧
      ((w.accept (.bytes [])).1 = .ok true ∨
        (w.accept (.bytes [])).1 = .ok false ∧ Utf8.lossy w.undecoded = []) := by
  by_cases held : w.undecoded = []
  · have answer : w.accept (.bytes []) = (.ok false, { w with exhausted := true }) := by
      simp [SourceWindow.accept, held]
    rw [answer]
    refine ⟨⟨⟨sound.lineStart_le, sound.cursor_le, sound.kept_back⟩, [], ?_, ?_⟩, .inr ⟨rfl, ?_⟩⟩
    · simp [Awaits, held]
    · simp [unread]
    · rw [held, Utf8.lossy_nil]
  · have answer : w.accept (.bytes []) = (.ok true, { w.breakOff with exhausted := true }) := by
      simp [SourceWindow.accept, held]
    have inside : w.cursor ≤ w.chars.toList.length := by simpa using sound.cursor_le
    rw [answer, Utf8.lossy_held sound.kept_back held]
    refine ⟨⟨⟨sound.lineStart_le, ?_, Utf8.decode_nil⟩, [], ?_, ?_⟩, .inl rfl⟩
    · exact Nat.le_trans sound.cursor_le (by simp [breakOff])
    · simp [Awaits, breakOff]
    · simp [unread, breakOff, List.drop_append_of_le_length inside]

theorem Holds.readOnce (holds : w.Holds text) (running : w.exhausted = false)
    (room : w.chars.size < w.capacity) :
    w.readOnce.2.Holds text ∧
      (w.readOnce.1 = .ok true ∨ w.readOnce.1 = .ok false ∧ text = w.unread) := by
  have sound (reader : ByteReader) : Sound { w with reader } :=
    ⟨holds.lineStart_le, holds.cursor_le, holds.kept_back⟩
  obtain ⟨bytes, awaits, rfl⟩ := holds.text
  simp only [Awaits, running, Bool.false_eq_true, if_false] at awaits
  unfold SourceWindow.readOnce ByteReader.read
  obtain ⟨answer, rfl⟩ | ⟨byte, part, more, answer, rfl, rest⟩ | ⟨answer, rest⟩ :=
    awaits.deliver (Nat.sub_pos_of_lt room)
  · simp only [answer, List.append_nil]
    refine (sound _).accept_end.imp_right fun answers => answers.imp_right fun closed => ?_
    exact ⟨closed.1, by simp [closed.2]⟩
  · simp only [answer]
    exact ⟨(sound _).receive_holds running rest, .inl rfl⟩
  · simp only [answer, accept]
    refine ⟨⟨sound _, bytes, ?_, rfl⟩, by simp⟩
    simpa [Awaits, running] using rest

/-- A refill leaves the text as it was. It fails never, and answers `false` only if nothing is left
besides the characters in the window. -/
theorem Holds.fill (holds : w.Holds text) :
    w.fill.2.Holds text ∧ (w.fill.1 = .ok true ∨ w.fill.1 = .ok false ∧ text = w.unread) := by
  unfold SourceWindow.fill
  split
  · rename_i ended
    obtain ⟨bytes, awaits, same⟩ := holds.text
    simp only [Awaits, ended, if_true] at awaits
    exact ⟨holds, .inr ⟨rfl, by simp [same, awaits.1, awaits.2]⟩⟩
  · rename_i running
    rw [← holds.makeRoom_unread]
    exact holds.makeRoom.readOnce (by simpa [makeRoom_exhausted] using running) (makeRoom_room w)

theorem unread_eq_cons {c : Char} (found : w.chars[w.cursor]? = some c) :
    w.cursor < w.chars.size ∧ w.unread = c :: { w with cursor := w.cursor + 1 }.unread := by
  obtain ⟨inside, here⟩ := Array.getElem?_eq_some_iff.1 found
  refine ⟨inside, ?_⟩
  rw [unread, ← here, ← Array.getElem_toList, unread, List.getElem_cons_drop]

theorem unread_eq_nil (none_ : w.chars[w.cursor]? = none) : w.unread = [] := by
  simpa [unread, Array.getElem?_eq_none_iff] using none_

/-- A window hands out its text, character by character, and then the end of input. -/
theorem Holds.take (holds : w.Holds text) :
    w.take.1 = .ok text.head? ∧ w.take.2.Holds text.tail := by
  fun_induction SourceWindow.take w with
  | case1 w c found =>
    obtain ⟨inside, split⟩ := unread_eq_cons found
    obtain ⟨bytes, awaits, rfl⟩ := holds.text
    rw [split]
    exact ⟨rfl, ⟨⟨Nat.le_succ_of_le holds.lineStart_le, inside, holds.kept_back⟩, bytes, awaits, rfl⟩⟩
  | case2 w none_ cause w' filled =>
    have refilled := holds.fill
    simp [filled] at refilled
  | case3 w none_ w' filled =>
    have refilled := holds.fill
    simp only [filled] at refilled
    obtain rfl : text = [] := by simpa [unread_eq_nil none_] using refilled.2
    exact ⟨rfl, refilled.1⟩
  | case4 w none_ w' filled ih =>
    have refilled := holds.fill
    rw [filled] at refilled
    exact ih refilled.1

theorem Holds.take_char (holds : w.Holds text) {c : Char} (took : w.take = (.ok (some c), w')) :
    ∃ rest, text = c :: rest ∧ w'.Holds rest := by
  have handed := holds.take
  rw [took] at handed
  obtain ⟨rest, rfl⟩ := List.head?_eq_some_iff.1 (Except.ok.inj handed.1).symm
  exact ⟨rest, rfl, handed.2⟩

theorem Holds.take_end (holds : w.Holds text) (took : w.take = (.ok none, w')) :
    text = [] ∧ w'.Holds [] := by
  have handed := holds.take
  rw [took] at handed
  obtain rfl := List.head?_eq_none_iff.1 (Except.ok.inj handed.1).symm
  exact ⟨rfl, handed.2⟩

theorem Sound.beginLine (sound : w.Sound) : w.beginLine.Sound :=
  ⟨Nat.sub_le _ _, sound.cursor_le, sound.kept_back⟩

theorem Sound.clearLog (sound : w.Sound) : { w with log := [] }.Sound :=
  ⟨sound.lineStart_le, sound.cursor_le, sound.kept_back⟩

theorem Holds.beginLine (holds : w.Holds text) : w.beginLine.Holds text :=
  ⟨holds.toSound.beginLine, holds.text⟩

theorem Holds.clearLog (holds : w.Holds text) : { w with log := [] }.Holds text :=
  ⟨holds.toSound.clearLog, holds.text⟩

theorem Holds.take_error (holds : w.Holds text) {cause : ReadFailure} :
    w.take ≠ (.error cause, w') := by
  intro took
  have handed := holds.take
  simp [took] at handed

end SourceWindow
end EcmaLex
