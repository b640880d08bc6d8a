import EcmaLex.Proofs.Source.EndOfInput
import EcmaLex.Proofs.Source.ReadHead
import EcmaLex.Proofs.Retries

/-!
The end of input is neither missed nor made up. A buffer asks its reader only for reads that have room, it
answers the end only after a read of nothing, and it never reads again after that (`buffer_asksWell`).
-/
namespace EcmaLex
open Text

/-- A read as it was asked for: its room, the capacity of the window by then, and the answer. -/
structure ReadRequest where
  room : Nat
  capacity : Nat
  answer : ReadResult

/-- A script can give any answer that fits the room and go on as any script. So a script stands for whatever a
reader does that never gives more bytes than there is room for. -/
theorem ByteReader.exists_deliver {room : Nat} {result : ReadResult} (fits : result.byteCount ≤ room)
    (rest : List Delivery) : ∃ d, deliver room (d :: rest) = (result, rest) := by
  match result with
  | .bytes [] => exact ⟨.eof, rfl⟩
  | .bytes (byte :: bytes) =>
    refine ⟨.piece (byte :: bytes), ?_⟩
    rw [ReadResult.byteCount] at fits
    rw [deliver, List.take_of_length_le fits, List.drop_of_length_le fits]
    rfl
  | .interrupted => exact ⟨.interrupted, rfl⟩
  | .failed cause => exact ⟨.failure cause, rfl⟩

namespace SourceWindow

/-- The reads that a refill asks for: one, or none at the end of input. -/
def requests (w : SourceWindow) : List ReadRequest :=
  if w.exhausted then [] else [⟨w.room, w.makeRoom.capacity, (w.reader.read w.room).1⟩]

/-- The windows that come from a new one over `reader`, with all the reads that were asked for. -/
inductive Requested (reader : ByteReader) (capacity : Nat) : List ReadRequest → SourceWindow → Prop
  | opened (capacity_pos : 0 < capacity) : Requested reader capacity [] { reader, capacity, capacity_pos }
  | refill {log w} : Requested reader capacity log w → Requested reader capacity (log ++ w.requests) w.fill.2
  | hand {log w c} : Requested reader capacity log w → w.chars[w.cursor]? = some c →
      Requested reader capacity log { w with cursor := w.cursor + 1 }
  | beginLine {log w} : Requested reader capacity log w → Requested reader capacity log w.beginLine
  | collect {log w} : Requested reader capacity log w → Requested reader capacity log { w with log := [] }

theorem requested_invariant (reader : ByteReader) (capacity : Nat) :
    Invariant fun w => ∃ log, Requested reader capacity log w where
  fill := fun ⟨_, run⟩ => ⟨_, run.refill⟩
  hand := fun ⟨_, run⟩ found => ⟨_, run.hand found⟩
  beginLine := fun ⟨_, run⟩ => ⟨_, run.beginLine⟩
  collect := fun ⟨_, run⟩ => ⟨_, run.collect⟩

/-- Behind reads that all delivered something, only the read that is last can deliver nothing. -/
theorem nothing_last {log front back : List ReadRequest} {q q' : ReadRequest}
    (some_ : ∀ q ∈ log, q.answer ≠ .bytes []) (split : log ++ [q'] = front ++ q :: back)
    (nothing : q.answer = .bytes []) : back = [] := by
  rcases List.eq_nil_or_concat back with rfl | ⟨back, r, rfl⟩
  · rfl
  · rw [List.concat_eq_append, ← List.cons_append, ← List.append_assoc] at split
    obtain ⟨rfl, _⟩ := List.append_inj' split rfl
    exact absurd nothing (some_ q (by simp))

/-- What the reads are that a window has asked of `reader`. -/
structure RequestsWell (reader : ByteReader) (log : List ReadRequest) (w : SourceWindow) : Prop where
  /-- The reader has given these answers and no others. -/
  reads : reader.Reads (log.map (·.answer)) w.reader
  room : ∀ q ∈ log, 0 < q.room ∧ q.room ≤ q.capacity
  fits : ∀ q ∈ log, q.answer.byteCount ≤ q.room
  lastRoom : ∀ front q, log = front ++ [q] → w.reader.lastRoom = q.room
  /-- Nothing is read after a read of nothing. -/
  last : ∀ front q back, log = front ++ q :: back → q.answer = .bytes [] → back = []
  exhausted : w.exhausted = true ↔ ∃ q ∈ log, q.answer = .bytes []
  /-- At the end of input no bytes are kept back. -/
  undecoded : w.exhausted = true → w.undecoded = []

theorem accept_end_undecoded (w : SourceWindow) : (w.accept (.bytes [])).2.undecoded = [] := by
  unfold accept
  simp only
  split
  · rename_i none_
    exact List.isEmpty_iff.1 none_
  · rfl

namespace RequestsWell

variable {reader : ByteReader} {log : List ReadRequest} {w w' : SourceWindow}

theorem congr (well : w.RequestsWell reader log) (reading : w'.reader = w.reader)
    (exhausted : w'.exhausted = w.exhausted) (undecoded : w'.undecoded = w.undecoded) :
    w'.RequestsWell reader log where
  reads := reading ▸ well.reads
  room := well.room
  fits := well.fits
  lastRoom := reading ▸ well.lastRoom
  last := well.last
  exhausted := exhausted ▸ well.exhausted
  undecoded := exhausted ▸ undecoded ▸ well.undecoded

theorem refill (well : w.RequestsWell reader log) : w.fill.2.RequestsWell reader (log ++ w.requests) := by
  by_cases ended : w.exhausted = true
  · rw [fill_exhausted ended, requests, if_pos ended, List.append_nil]
    exact well
  · have running := eq_false_of_ne_true ended
    rcases asked : w.reader.read w.room with ⟨result, rest⟩
    have filled := congrArg Prod.snd (fill_running running asked)
    have added : w.requests = [⟨w.room, w.makeRoom.capacity, result⟩] := by
      rw [requests, if_neg ended, asked]
    -- A window that still reads has never been delivered nothing.
    have some_ : ∀ q ∈ log, q.answer ≠ .bytes [] :=
      fun q among nothing => ended (well.exhausted.2 ⟨q, among, nothing⟩)
    have accepted : (w.makeRoom.accept result).2.exhausted = true ↔ result = .bytes [] :=
      accept_exhausted (w.makeRoom_exhausted.trans running)
    rw [filled, added]
    refine ⟨?_, ?_, ?_, ?_, ?_, ?_, ?_⟩
    · have more := well.reads.more w.room w.room_pos
      rw [asked] at more
      rw [List.map_append]
      exact more
    · exact List.forall_mem_append.2 ⟨well.room, List.forall_mem_singleton.2 ⟨w.room_pos, Nat.sub_le _ _⟩⟩
    · refine List.forall_mem_append.2 ⟨well.fits, List.forall_mem_singleton.2 ?_⟩
      have fits := ByteReader.byteCount_le_room w.room w.reader.script
      rw [ByteReader.deliver_of_read asked] at fits
      exact fits
    · intro front q same
      obtain ⟨_, same⟩ := List.append_inj' same rfl
      obtain rfl := List.singleton_inj.1 same
      exact (congrArg (·.2.lastRoom) asked).symm
    · exact fun front q back => nothing_last some_
    · refine accepted.trans ⟨fun nothing => ⟨_, List.mem_append_right _ (.head _), nothing⟩, ?_⟩
      rintro ⟨q, among, nothing⟩
      rcases List.mem_append.1 among with earlier | now
      · exact absurd nothing (some_ q earlier)
      · obtain rfl := List.mem_singleton.1 now
        exact nothing
    · intro reached
      rw [accepted.1 reached]
      exact accept_end_undecoded _

end RequestsWell

theorem Requested.well {reader : ByteReader} {capacity : Nat} {log : List ReadRequest} {w : SourceWindow}
    (run : Requested reader capacity log w) : w.RequestsWell reader log := by
  induction run with
  | opened capacity_pos =>
    refine ⟨.none, by simp, by simp, by simp, by simp, by simp, ?_⟩
    intro reached
    cases reached
  | refill _ ih => exact ih.refill
  | hand _ _ ih => exact ih.congr rfl rfl rfl
  | beginLine _ ih => exact ih.congr rfl rfl rfl
  | collect _ ih => exact ih.congr rfl rfl rfl

variable {w w' : SourceWindow}

theorem unread_of_take_none (took : w.take = (.ok none, w')) : w.unread = [] := by
  cases found : w.chars[w.cursor]? with
  | none => exact unread_eq_nil found
  | some c =>
    rw [take_held found] at took
    cases took

/-- A character that is taken was the next of those in the window, if there was any. -/
theorem unread_of_take_some {raw : Char} (took : w.take = (.ok (some raw), w')) :
    w.unread = [] ∨ w.unread = raw :: w'.unread := by
  cases found : w.chars[w.cursor]? with
  | none => exact .inl (unread_eq_nil found)
  | some c =>
    rw [take_held found] at took
    cases took
    exact .inr (unread_eq_cons found).2

end SourceWindow

namespace SourceBuffer
open SourceWindow

/-- The characters that wait to be handed out: those given back, and those in the window. -/
def waiting (b : SourceBuffer) : List Mark := b.pushback ++ b.tracker.marks b.window.unread

/-- The characters that a call drops. -/
def Call.drops : Call → Char → Bool
  | .next skipFormat, c => skipFormat && isFormatControl c
  | .nextSignificant, c => c = '\x00' || isWhitespace c || isFormatControl c
  | _, _ => false

variable {b b' : SourceBuffer} {answer : Option Char} {m : Mark}

theorem place_waiting (b : SourceBuffer) (window : SourceWindow) (tracker : LineTracker) (opensLine : Bool) :
    (b.place window tracker opensLine).waiting = b.pushback ++ tracker.marks window.unread := by
  cases opensLine <;> rfl

theorem waiting_of_take {raw : Char} {window : SourceWindow} (given : b.pushback = [])
    (took : b.window.take = (.ok (some raw), window)) (among : m ∈ b.waiting) :
    (b.tracker.advance raw).1.mark? = some m ∨ m ∈ (b.tracker.advance raw).2.marks window.unread := by
  rw [waiting, given, List.nil_append] at among
  rcases unread_of_take_some took with none_ | next
  · rw [none_] at among
    cases among
  · rw [next, LineTracker.marks] at among
    generalize b.tracker.advance raw = advanced at among ⊢
    rcases advanced with ⟨_ | ⟨c, loc, opensLine⟩, tracker⟩
    · exact .inr among
    · exact (List.mem_cons.1 among).imp_left fun same => congrArg some same.symm

/-- A character that waits is dropped, or it is the answer, or it still waits. -/
theorem waiting_of_next {skipFormat : Bool} (answered : b.next skipFormat = (.ok answer, b'))
    (among : m ∈ b.waiting) :
    (skipFormat && isFormatControl m.1) = true ∨ answer = some m.1 ∨ m ∈ b'.waiting := by
  fun_induction SourceBuffer.next skipFormat b with
  | case1 b c loc pushback given passed ih =>
    rw [waiting, given, List.cons_append, List.mem_cons] at among
    rcases among with rfl | later
    · exact .inl passed
    · exact ih answered later
  | case2 b c loc pushback given kept =>
    cases answered
    rw [waiting, given, List.cons_append, List.mem_cons] at among
    rcases among with rfl | later
    · exact .inr (.inl rfl)
    · exact .inr (.inr later)
  | case3 b given cause window took => cases answered
  | case4 b given window took =>
    rw [waiting, given, unread_of_take_none took] at among
    cases among
  | case5 b given raw window took tracker advanced ih =>
    have later := waiting_of_take given took among
    rw [advanced] at later
    rcases later with here | later
    · cases here
    · refine ih answered ?_
      rw [waiting, given]
      exact later
  | case6 b given raw window took c loc opensLine tracker advanced passed ih =>
    have later := waiting_of_take given took among
    rw [advanced] at later
    rcases later with here | later
    · cases here
      exact .inl passed
    · refine ih answered ?_
      rw [place_waiting, given]
      exact later
  | case7 b given raw window took c loc opensLine tracker advanced kept =>
    have later := waiting_of_take given took among
    rw [advanced] at later
    cases answered
    rcases later with here | later
    · cases here
      exact .inr (.inl rfl)
    · refine .inr (.inr ?_)
      change m ∈ (b.place window tracker opensLine).waiting
      rw [place_waiting, given]
      exact later

theorem waiting_of_nextSignificant (answered : CharSource.nextSignificant b = (.ok answer, b'))
    (among : m ∈ b.waiting) :
    Call.nextSignificant.drops m.1 = true ∨ answer = some m.1 ∨ m ∈ b'.waiting := by
  fun_induction CharSource.nextSignificant b with
  | case1 b c b'' taken blank ih =>
    rcases waiting_of_next (b := b.beginLexeme) taken among with control | same | later
    · exact .inl (Bool.or_eq_true_iff.2 (.inr control))
    · cases same
      exact .inl blank
    · exact ih answered later
  | case2 b c b'' taken significant =>
    cases answered
    exact (waiting_of_next (b := b.beginLexeme) taken among).imp_left fun control =>
      Bool.or_eq_true_iff.2 (.inr control)
  | case3 b none_ =>
    exact (waiting_of_next (b := b.beginLexeme) answered among).imp_left fun control =>
      Bool.or_eq_true_iff.2 (.inr control)

/-- A character, or the end of input in its place, is the answer of one of two calls. -/
theorem Call.reply_character {call : Call} (answered : call.reply b = (.ok (.character answer), b')) :
    (∃ skipFormat, call = .next skipFormat ∧ b.next skipFormat = (.ok answer, b')) ∨
      call = .nextSignificant ∧ CharSource.nextSignificant b = (.ok answer, b') := by
  cases call with
  | next skipFormat =>
    obtain ⟨_, asked, same⟩ := mapAnswer_ok answered
    cases same
    exact .inl ⟨skipFormat, rfl, asked⟩
  | nextSignificant =>
    obtain ⟨_, asked, same⟩ := mapAnswer_ok answered
    cases same
    exact .inr ⟨rfl, asked⟩
  | fill =>
    obtain ⟨_, _, same⟩ := mapAnswer_ok answered
    cases same
  | putBack c => cases answered
  | beginLexeme => cases answered
  | collect => cases answered

theorem Call.reply_filled {call : Call} (answered : call.reply b = (.ok (.filled false), b')) :
    b'.window.exhausted = true := by
  cases call with
  | next skipFormat =>
    obtain ⟨_, _, same⟩ := mapAnswer_ok answered
    cases same
  | nextSignificant =>
    obtain ⟨_, _, same⟩ := mapAnswer_ok answered
    cases same
  | fill =>
    obtain ⟨_, asked, same⟩ := mapAnswer_ok answered
    cases same
    obtain ⟨filled, rfl⟩ := Prod.mk.inj asked
    exact exhausted_of_fill (Prod.ext filled rfl)
  | putBack c => cases answered
  | beginLexeme => cases answered
  | collect => cases answered

theorem Call.drained {call : Call} (answered : call.reply b = (.ok (.character none), b')) :
    b'.window.Ended ∧ b'.pushback = [] := by
  rcases reply_character answered with ⟨skipFormat, _, asked⟩ | ⟨_, asked⟩
  · exact drained_of_next asked
  · obtain ⟨b₀, asked⟩ := nextSignificant_none asked
    exact drained_of_next asked

theorem Call.waiting_of_reply {call : Call} (answered : call.reply b = (.ok (.character answer), b'))
    (among : m ∈ b.waiting) : call.drops m.1 = true ∨ answer = some m.1 ∨ m ∈ b'.waiting := by
  rcases reply_character answered with ⟨skipFormat, rfl, asked⟩ | ⟨rfl, asked⟩
  · exact waiting_of_next asked among
  · exact waiting_of_nextSignificant asked among

end SourceBuffer

open SourceWindow SourceBuffer

/-- What holds of the reads that a buffer has asked of `reader`, and of what it answers next. -/
structure AsksWell (reader : ByteReader) (capacity : Nat) (b : SourceBuffer) : Prop where
  requested : ∃ log, Requested reader capacity log b.window
  well : ∀ log, Requested reader capacity log b.window → b.window.RequestsWell reader log
  /-- A call answers the end of input only after a read of nothing. -/
  ended : ∀ (call : Call) (b' : SourceBuffer),
    call.reply b = (.ok (.filled false), b') ∨ call.reply b = (.ok (.character none), b') →
      ∀ log, Requested reader capacity log b'.window → ∃ q ∈ log, q.answer = .bytes []
  /-- Nothing else was left then, and nothing is left now. -/
  drained : ∀ (call : Call) (b' : SourceBuffer), call.reply b = (.ok (.character none), b') →
    (∀ m ∈ b.waiting, call.drops m.1 = true) ∧
      b'.pushback = [] ∧ b'.window.unread = [] ∧ b'.window.undecoded = []

/-- Whatever is asked of a new buffer, it asks its reader well and neither misses nor makes up the end of
input. -/
theorem buffer_asksWell (reader : ByteReader) (capacity : Nat) (startLine : UInt32) (calls : List Call) :
    AsksWell reader (max capacity 1) ((ofReader reader capacity startLine).called calls) := by
  have inv := requested_invariant reader (max capacity 1)
  have requested := called_window inv calls (b := ofReader reader capacity startLine) ⟨[], .opened (by omega)⟩
  refine ⟨requested, fun log run => run.well, ?_, ?_⟩
  · intro call b' answered log run
    refine run.well.exhausted.1 ?_
    rcases answered with filled | none_
    · exact Call.reply_filled filled
    · exact (Call.drained none_).1.exhausted
  · intro call b' answered
    obtain ⟨⟨exhausted, drained⟩, given⟩ := Call.drained answered
    have unread := unread_eq_nil drained
    refine ⟨?_, given, unread, ?_⟩
    · intro m among
      rcases Call.waiting_of_reply answered among with dropped | same | later
      · exact dropped
      · cases same
      · rw [waiting, given, unread] at later
        cases later
    · have again := call.run_window inv requested
      rw [← Call.reply_run, answered] at again
      obtain ⟨log, run⟩ := again
      exact run.well.undecoded exhausted

/-- An ill-formed sequence leaves the window one past its capacity, and the input ends inside another one. What
the reader has behind that end is not read. -/
theorem buffer_asksWell_truncated :
    let reader : ByteReader :=
      { script := [.piece [0xC3], .piece [0x61], .piece [0xE2, 0x82], .eof, .piece [0x62]] }
    let calls := List.replicate 3 (Call.next false)
    let b := (ofReader reader 0 1).called calls
    let b' := ((Call.next false).reply b).2
    AsksWell reader 1 b ∧ ((Call.next false).reply b).1 = .ok (.character none) ∧
      b'.window.reader.script = [.piece [0x62]] ∧
        ∀ log, Requested reader 1 log b'.window → ∃ q ∈ log, q.answer = .bytes [] := by
  intro reader calls b b'
  have asks := buffer_asksWell reader 0 1 calls
  have none_ : ((Call.next false).reply b).1 = .ok (.character none) := by decide +kernel
  exact ⟨asks, none_, by decide +kernel, asks.ended _ b' (.inr (Prod.ext none_ rfl))⟩

end EcmaLex
