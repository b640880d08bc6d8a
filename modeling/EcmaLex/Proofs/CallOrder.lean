import EcmaLex.Proofs.Pushback
import EcmaLex.Proofs.Source.Recording

/-!
Calls that give characters back in order: each time the character taken last, with the place at which it stands
in the text, and never the first one of its lexeme, and no more than two that wait to be handed out again. What
one call keeps of this (`Recording.Kept`), and what a scanner may rely on inside a lexeme (`Recording.Within`).
-/
namespace EcmaLex
open Text CharSource SourceBuffer

variable {whole : List Mark}

/-- A call takes the next characters of those ahead, and drops some of them. -/
theorem Tape.next_sublist (skipFormat : Bool) (t : Tape) :
    ((CharSource.next skipFormat t).2.taken.reverse ++ (CharSource.next skipFormat t).2.ahead).Sublist
      (t.taken.reverse ++ t.ahead) := by
  have rest := List.dropWhile_sublist (l := t.ahead) (dropped skipFormat)
  change ((t.next skipFormat).2.taken.reverse ++ (t.next skipFormat).2.ahead).Sublist _
  unfold Tape.next
  split
  · rw [List.append_nil]
    exact List.sublist_append_left _ _
  · rename_i m ahead found
    rw [found] at rest
    simpa using rest

namespace SourceBuffer

variable {b b' : SourceBuffer} {skipFormat : Bool} {c : Char} {loc : Location} {calls : List Call}

/-- The characters taken since the lexeme began and those given back stand in the text in this order, each of
them at its place, and what will be handed out after them comes behind. -/
def InText (whole : List Mark) (b : SourceBuffer) : Prop :=
  ∃ t, b.Trails t ∧ (t.taken.reverse ++ t.ahead).Sublist whole

theorem InText.ofReader (reader : ByteReader) (capacity : Nat) (line : UInt32) :
    (ofReader reader capacity line).InText
      (located ⟨line, 0⟩ (normalize (Utf8.lossy (ByteReader.contents reader.script)))) :=
  ⟨_, .ofReader reader capacity line, List.Sublist.refl _⟩

theorem InText.sublist (inText : b.InText whole) : (b.taken.reverse ++ b.pushback).Sublist whole := by
  obtain ⟨t, trails, within⟩ := inText
  rw [← trails.taken]
  exact ((List.Sublist.refl _).append trails.given.sublist).trans within

theorem InText.next {answer : Option Char} (inText : b.InText whole)
    (answered : b.next skipFormat = (.ok answer, b')) : b'.InText whole := by
  obtain ⟨t, trails, within⟩ := inText
  exact ⟨_, (trails.next_ok answered).2, (t.next_sublist skipFormat).trans within⟩

theorem InText.putBack (inText : b.InText whole) {rest : List Mark} (taken : b.taken = (c, loc) :: rest) :
    (b.putBack c).InText whole := by
  obtain ⟨t, trails, within⟩ := inText
  have given := trails.putBack c
  have top := trails.taken.trans taken
  rw [show CharSource.putBack c t = _ from Tape.putBack_taken top] at given
  refine ⟨_, given, ?_⟩
  rw [top] at within
  simpa using within

theorem InText.beginLexeme (inText : b.InText whole) : b.beginLexeme.InText whole := by
  obtain ⟨t, trails, within⟩ := inText
  exact ⟨_, trails.beginLexeme, (List.sublist_append_right _ _).trans within⟩

theorem InText.clearLog (inText : b.InText whole) : b.clearLog.InText whole := by
  obtain ⟨t, ⟨d, ⟨v, mends, rfl⟩, raw, onTape⟩, within⟩ := inText
  exact ⟨t, ⟨_, ⟨_, mends.clearLog, rfl⟩, raw, onTape.holds.clearLog, onTape.ahead, onTape.taken, onTape.last,
    onTape.ending⟩, within⟩

/-- Of what was given back a call leaves no more than there was. -/
theorem next_pushback_le (skipFormat : Bool) (b : SourceBuffer) :
    (b.next skipFormat).2.pushback.length ≤ b.pushback.length := by
  fun_induction SourceBuffer.next skipFormat b with
  | case1 b c loc pushback given passed ih =>
    rw [given, List.length_cons]
    exact Nat.le_succ_of_le ih
  | case2 b c loc pushback given kept =>
    rw [given, List.length_cons]
    exact Nat.le_succ _
  | case3 b given cause window took => exact Nat.le_refl _
  | case4 b given window took => exact Nat.le_refl _
  | case5 b given raw window took tracker advanced ih => exact ih
  | case6 b given raw window took c loc opensLine tracker advanced passed ih => exact ih
  | case7 b given raw window took c loc opensLine tracker advanced kept => exact Nat.le_refl _

theorem putBack_taken {rest : List Mark} (taken : b.taken = (c, loc) :: rest) :
    b.putBack c = { b with taken := rest, pushback := (c, loc) :: b.pushback } := by
  rw [SourceBuffer.putBack, taken]

/-- What is given back is the character taken last, with its own place, and not the first of the lexeme. -/
def GivesLastTaken (whole : List Mark) (c : Char) (b : SourceBuffer) : Prop :=
  ∃ loc rest, b.taken = (c, loc) :: rest ∧ rest ≠ [] ∧
    (b.putBack c).pushback = (c, loc) :: b.pushback ∧ (b.taken.reverse ++ b.pushback).Sublist whole

/-- How the calls made on a buffer give characters back. -/
structure Disciplined (whole : List Mark) (start : SourceBuffer) (calls : List Call) : Prop where
  putBack : ∀ front c, front ++ [.putBack c] <+: calls → GivesLastTaken whole c (called front start)
  /-- Between any two of the calls, and before and after them, no more than two characters wait. -/
  pending : ∀ front, front <+: calls → (called front start).pushback.length ≤ 2

theorem Disciplined.opened {start : SourceBuffer} (pending : start.pushback.length ≤ 2) :
    Disciplined whole start [] where
  putBack front c among := by simp at among
  pending front among := by
    rw [List.prefix_nil.1 among]
    exact pending

theorem Disciplined.call (before : Disciplined whole b calls) {call : Call}
    (gives : ∀ c, call = .putBack c → GivesLastTaken whole c (called calls b))
    (pending : (call.run (called calls b)).pushback.length ≤ 2) : Disciplined whole b (calls ++ [call]) where
  putBack front c among := by
    rcases List.prefix_concat_iff.1 among with same | earlier
    · obtain ⟨rfl, last⟩ := List.append_inj' same rfl
      cases last
      exact gives c rfl
    · exact before.putBack front c earlier
  pending front among := by
    rcases List.prefix_concat_iff.1 among with rfl | earlier
    · rw [called_concat]
      exact pending
    · exact before.pending front earlier

end SourceBuffer

namespace Recording

variable {α β ρ : Type} {r r' : Recording} {skipFormat : Bool} {answer : Except ReadFailure (Option Char)}
  {c : Char} {loc : Location} {held : List Char}

/-- All calls so far were in order, and the buffer is in its text. -/
structure Kept (whole : List Mark) (r : Recording) : Prop where
  disciplined : Disciplined whole r.start r.calls
  inText : r.buffer.InText whole

/-- All calls that led to an answer were in order. After a failure nothing is known of the text. -/
structure Leaves (whole : List Mark) (answered : Except ReadFailure α × Recording) : Prop where
  disciplined : Disciplined whole answered.2.start answered.2.calls
  inText : ∀ result, answered.1 = .ok result → answered.2.buffer.InText whole

theorem Leaves.kept {result : α} (leaves : Leaves whole (.ok result, r)) : r.Kept whole :=
  ⟨leaves.disciplined, leaves.inText result rfl⟩

theorem Kept.leaves (kept : r.Kept whole) (result : Except ReadFailure α) : Leaves whole (result, r) :=
  ⟨kept.disciplined, fun _ _ => kept.inText⟩

theorem Leaves.error {cause : ReadFailure} (leaves : Leaves whole ((.error cause, r) : Except ReadFailure α × _)) :
    Leaves whole ((.error cause, r) : Except ReadFailure β × _) :=
  ⟨leaves.disciplined, fun _ answered => nomatch answered⟩

theorem Leaves.mapAnswer {answered : Except ReadFailure α × Recording} (leaves : Leaves whole answered)
    (f : α → β) : Leaves whole (mapAnswer f answered) := by
  obtain ⟨cause | result, r⟩ := answered
  · exact leaves.error
  · exact leaves.kept.leaves _

theorem Kept.pending (kept : r.Kept whole) : r.buffer.pushback.length ≤ 2 :=
  kept.disciplined.pending r.calls (List.prefix_refl _)

theorem Kept.ask (kept : r.Kept whole) (skipFormat : Bool) : Leaves whole (r.ask skipFormat) where
  disciplined := by
    refine kept.disciplined.call (fun c same => nomatch same) ?_
    exact Nat.le_trans (next_pushback_le skipFormat r.buffer) kept.pending
  inText result answered := by
    have asked : r.buffer.next skipFormat = (.ok result, (r.ask skipFormat).2.buffer) :=
      ask_buffer (Prod.ext answered rfl)
    exact kept.inText.next asked

theorem Kept.putBack (kept : r.Kept whole) {rest : List Mark} (taken : r.buffer.taken = (c, loc) :: rest)
    (more : rest ≠ []) (room : r.buffer.pushback.length ≤ 1) : (CharSource.putBack c r).Kept whole where
  disciplined := by
    have given := putBack_taken taken
    refine kept.disciplined.call ?_ ?_
    · intro d same
      cases same
      exact ⟨loc, rest, taken, more, congrArg SourceBuffer.pushback given, kept.inText.sublist⟩
    · change (r.buffer.putBack c).pushback.length ≤ 2
      rw [given]
      exact Nat.succ_le_succ room
  inText := by
    rw [buffer_putBack]
    exact kept.inText.putBack taken

theorem Kept.beginLexeme (kept : r.Kept whole) : (CharSource.beginLexeme r).Kept whole where
  disciplined := kept.disciplined.call (fun c same => nomatch same) kept.pending
  inText := by
    rw [buffer_beginLexeme]
    exact kept.inText.beginLexeme

/-- A question that is asked twice stays in order: there is room for a character once it has been taken. -/
theorem Kept.next (kept : r.Kept whole) (skipFormat : Bool) : Leaves whole (CharSource.next skipFormat r) := by
  change Leaves whole (r.next skipFormat)
  have once := kept.ask skipFormat
  rcases asked : r.ask skipFormat with ⟨cause | _ | c, r'⟩ <;> rw [asked] at once
  · simp only [Recording.next, asked]
    exact once
  · simp only [Recording.next, asked]
    split
    · exact once.kept.ask skipFormat
    · exact once
  · simp only [Recording.next, asked]
    split
    · rename_i again
      obtain ⟨loc, d, same, taken, left, _⟩ := next_hands (ask_buffer asked)
      have top : r'.buffer.taken = (c, loc) :: r.buffer.taken := by
        rw [same, ← taken]
        rfl
      have more : r.buffer.taken ≠ [] := by
        intro none_
        simp [top, none_] at again
      have room : r'.buffer.pushback.length ≤ 1 := by
        have pending := kept.pending
        rw [same]
        change d.pushback.length ≤ 1
        omega
      exact (once.kept.putBack top more room).ask skipFormat
    · exact once

theorem Kept.next_end (kept : r.Kept whole) (asked : CharSource.next skipFormat r = (.ok none, r')) :
    r'.Kept whole ∧ r'.buffer.taken = r.buffer.taken ∧ r'.buffer.pushback = [] := by
  have after := kept.next skipFormat
  rw [asked] at after
  obtain ⟨d, same, _, given, taken⟩ := reachEnd_of_next (next_buffer asked)
  refine ⟨after.kept, ?_, ?_⟩
  · rw [same]
    exact taken
  · rw [same]
    exact given

theorem Kept.next_char (kept : r.Kept whole) (asked : CharSource.next skipFormat r = (.ok (some c), r')) :
    r'.Kept whole ∧ (∃ loc, r'.buffer.taken = (c, loc) :: r.buffer.taken) ∧
      r'.buffer.pushback.length ≤ r.buffer.pushback.length - 1 := by
  have after := kept.next skipFormat
  rw [asked] at after
  obtain ⟨loc, d, same, taken, left, _⟩ := next_hands (next_buffer asked)
  refine ⟨after.kept, ⟨loc, ?_⟩, ?_⟩
  · rw [same, ← taken]
    rfl
  · rw [same]
    exact left

/-- The characters taken last are these, the last one first, and there are others before them. -/
structure Within (whole : List Mark) (held : List Char) (r : Recording) : Prop where
  kept : r.Kept whole
  taken : ∃ first, first ≠ [] ∧ marked r.buffer.taken = held ++ first

/-- Characters still held may as well count as others. -/
theorem Within.of_prefix (within : r.Within whole held) {fewer : List Char} (front : fewer <+: held) :
    r.Within whole fewer := by
  obtain ⟨first, more, taken⟩ := within.taken
  obtain ⟨back, rfl⟩ := front
  refine ⟨within.kept, back ++ first, ?_, ?_⟩
  · simp [more]
  · rw [taken, List.append_assoc]

theorem Within.next_end (within : r.Within whole held) (asked : CharSource.next skipFormat r = (.ok none, r')) :
    r'.Within whole held ∧ r'.buffer.pushback.length = 0 := by
  obtain ⟨kept, taken, given⟩ := within.kept.next_end asked
  refine ⟨⟨kept, ?_⟩, ?_⟩
  · rw [taken]
    exact within.taken
  · rw [given]
    rfl

theorem Within.next_char (within : r.Within whole held) (room : r.buffer.pushback.length ≤ 1)
    (asked : CharSource.next skipFormat r = (.ok (some c), r')) :
    r'.Within whole (c :: held) ∧ r'.buffer.pushback.length = 0 := by
  obtain ⟨kept, ⟨loc, top⟩, left⟩ := within.kept.next_char asked
  obtain ⟨first, more, taken⟩ := within.taken
  refine ⟨⟨kept, first, more, ?_⟩, by omega⟩
  rw [top, marked_cons, taken]
  rfl

/-- The characters taken last may be given back, as long as no more than two wait. -/
theorem Within.putBackAll {back : List Char} (within : r.Within whole back)
    (room : r.buffer.pushback.length + back.length ≤ 2) : (putBackAll back r).Within whole [] ∧
      (putBackAll back r).buffer.pushback.length = r.buffer.pushback.length + back.length := by
  induction back generalizing r with
  | nil => exact ⟨within, rfl⟩
  | cons c back ih =>
    obtain ⟨first, more, taken⟩ := within.taken
    obtain ⟨loc, rest, top, others⟩ := marked_eq_cons taken
    have some_ : rest ≠ [] := by
      rintro rfl
      have none_ := (List.append_eq_nil_iff.1 others.symm).2
      exact more none_
    rw [List.length_cons] at room ⊢
    have kept := within.kept.putBack top some_ (by omega)
    have given : (CharSource.putBack c r).buffer =
        { r.buffer with taken := rest, pushback := (c, loc) :: r.buffer.pushback } :=
      (buffer_putBack c r).trans (putBack_taken top)
    have rest_ : (CharSource.putBack c r).Within whole back := by
      refine ⟨kept, first, more, ?_⟩
      rw [given]
      exact others
    have waiting : (CharSource.putBack c r).buffer.pushback.length = r.buffer.pushback.length + 1 := by
      rw [given]
      rfl
    have front := ih rest_ (by omega)
    rw [waiting] at front
    refine ⟨front.1, front.2.trans ?_⟩
    omega

/-- A lexeme has begun, and at most one character waits to be handed out again. -/
structure Inside (whole : List Mark) (r : Recording) : Prop where
  within : r.Within whole []
  room : r.buffer.pushback.length ≤ 1

/-- The calls that led to an answer end inside the lexeme in which they began. -/
structure StaysInside (whole : List Mark) (answered : Except ReadFailure α × Recording) : Prop where
  leaves : Leaves whole answered
  inside : ∀ result, answered.1 = .ok result → answered.2.Inside whole

theorem Inside.stays (inside : r.Inside whole) (result : Except ReadFailure α) : StaysInside whole (result, r) :=
  ⟨inside.within.kept.leaves result, fun _ _ => inside⟩

theorem StaysInside.error {cause : ReadFailure} (leaves : Leaves whole ((.error cause, r) : Except ReadFailure β × _)) :
    StaysInside whole ((.error cause, r) : Except ReadFailure α × _) :=
  ⟨leaves.error, fun _ answered => nomatch answered⟩

theorem Inside.next_end (inside : r.Inside whole) (asked : CharSource.next skipFormat r = (.ok none, r')) :
    r'.Inside whole := by
  obtain ⟨within, none_⟩ := inside.within.next_end asked
  exact ⟨within, by omega⟩

/-- The character that has been read may stay with the lexeme or go back. -/
theorem Inside.next_char (inside : r.Inside whole) (asked : CharSource.next skipFormat r = (.ok (some c), r')) :
    r'.Inside whole ∧ (CharSource.putBack c r').Inside whole := by
  obtain ⟨within, none_⟩ := inside.within.next_char inside.room asked
  have read : r'.Within whole [c] := within
  have room : r'.buffer.pushback.length + [c].length ≤ 1 := by
    rw [none_]
    exact Nat.le_refl 1
  obtain ⟨back, given⟩ := read.putBackAll (Nat.le_succ_of_le room)
  exact ⟨⟨within.of_prefix List.nil_prefix, by omega⟩, back, given.trans_le room⟩

end Recording
end EcmaLex
