import EcmaLex.Proofs.Source.BufferTape
import EcmaLex.Proofs.Source.HeldText
import EcmaLex.Proofs.Text.TrackedLines

/-!
Characters may be given back without limit. As long as they are given back in the reverse of the order in
which they were taken, a buffer stands at a point of its text and hands out what is written there, however
often it has been there before.
-/
namespace EcmaLex
open Text SourceWindow

namespace SourceBuffer

variable {b b' : SourceBuffer} {t : Tape} {cause : ReadFailure} {c : Char}

/-- Without its failures, the buffer is at the point of the text at which the tape is. -/
def Trails (b : SourceBuffer) (t : Tape) : Prop := ∃ d, Over Mends b d ∧ d.Follows t

theorem Trails.ofReader (reader : ByteReader) (capacity : Nat) (line : UInt32) :
    (ofReader reader capacity line).Trails
      (.ofText line (normalize (Utf8.lossy (ByteReader.contents reader.script)))) :=
  ⟨_, ⟨_, ⟨{ script := ByteReader.mended reader.script }, rfl, rfl⟩, rfl⟩,
    .ofReader (ByteReader.delivers_mended reader.script) capacity line⟩

theorem Trails.taken (trails : b.Trails t) : t.taken = b.taken := by
  obtain ⟨_, ⟨_, _, rfl⟩, _, onTape⟩ := trails
  exact onTape.taken

theorem Trails.given (trails : b.Trails t) : b.pushback <+: t.ahead := by
  obtain ⟨_, ⟨_, _, rfl⟩, raw, onTape⟩ := trails
  rw [onTape.ahead]
  exact List.prefix_append _ _

theorem Trails.last (trails : b.Trails t) : t.last = b.last := by
  obtain ⟨_, ⟨_, _, rfl⟩, _, onTape⟩ := trails
  exact onTape.last

theorem Trails.next_ok (trails : b.Trails t) {skipFormat : Bool} {answer : Option Char}
    (answered : b.next skipFormat = (.ok answer, b')) :
    (CharSource.next skipFormat t).1 = .ok answer ∧ b'.Trails (CharSource.next skipFormat t).2 := by
  obtain ⟨d, above, follows⟩ := trails
  obtain ⟨d', answer, related⟩ := (above.attempt_next skipFormat).confirms.answer answered
  obtain ⟨same, follows'⟩ := simulation.next follows skipFormat
  rw [show CharSource.next skipFormat d = _ from answer] at same follows'
  exact ⟨same.symm, d', related, follows'⟩

/-- A failure may come after the line feed of a terminator was passed over. The text at which the buffer
stands is the same. -/
theorem Trails.next_error (trails : b.Trails t) (failed : b.next false = (.error cause, b')) :
    b'.Trails t := by
  obtain ⟨_, ⟨v, mends, rfl⟩, raw, onTape⟩ := trails
  generalize plain : false = skipFormat at failed
  fun_induction SourceBuffer.next skipFormat b generalizing v raw with
  | case1 b c loc pushback given passed ih =>
    rw [← plain] at passed
    cases passed
  | case2 b c loc pushback given kept => cases failed
  | case3 b given cause' window took =>
    cases failed
    obtain ⟨v', mends', holds⟩ := Held.take_error ⟨v, mends, onTape.holds⟩ took
    exact ⟨_, ⟨v', mends', rfl⟩, raw, holds, onTape.ahead, onTape.taken, onTape.last, onTape.ending⟩
  | case4 b given window took => cases failed
  | case5 b given raw' window took tracker advanced ih =>
    have held : b.window.Held raw := ⟨v, mends, onTape.holds⟩
    obtain ⟨head, v', mends', holds⟩ := held.take_ok took
    obtain ⟨text, rfl⟩ := List.head?_eq_some_iff.1 head.symm
    refine ih v' mends' text ⟨holds, ?_, onTape.taken, onTape.last, ?_⟩ failed
    · rw [onTape.ahead, LineTracker.marks, advanced]
    · rw [onTape.ending, LineTracker.ending, advanced]
  | case6 b given raw' window took c loc opensLine tracker advanced passed ih =>
    rw [← plain] at passed
    cases passed
  | case7 b given raw' window took c loc opensLine tracker advanced kept => cases failed

theorem Trails.putBack (trails : b.Trails t) (c : Char) : (b.putBack c).Trails (CharSource.putBack c t) := by
  obtain ⟨d, above, follows⟩ := trails
  exact ⟨_, above.putBack c, simulation.putBack follows c⟩

theorem Trails.beginLexeme (trails : b.Trails t) : b.beginLexeme.Trails (CharSource.beginLexeme t) := by
  obtain ⟨d, above, follows⟩ := trails
  exact ⟨_, above.beginLexeme, simulation.beginLexeme follows⟩

theorem next_pushback (b : SourceBuffer) : (b.next false).2.pushback = b.pushback.tail := by
  generalize plain : false = skipFormat
  fun_induction SourceBuffer.next skipFormat b with
  | case1 b c loc pushback given passed ih =>
    rw [← plain] at passed
    cases passed
  | case2 b c loc pushback given kept => rw [given]; rfl
  | case3 b given cause window took => rw [given]; rfl
  | case4 b given window took => rw [given]; rfl
  | case5 b given raw window took tracker advanced ih => exact ih
  | case6 b given raw window took c loc opensLine tracker advanced passed ih => exact ih
  | case7 b given raw window took c loc opensLine tracker advanced kept => rw [given]; exact given

/-- A character that was given back is handed out again, and nothing else happens. -/
theorem next_replayed {m : Char × Location} {rest : List (Char × Location)} (given : b.pushback = m :: rest) :
    b.next false = (.ok (some m.1), handOut m.1 m.2 { b with pushback := rest }) := by
  rw [next_given given]
  rfl

end SourceBuffer

/-- A character that is placed stands on the line that a terminator before it opens. -/
theorem LineTracker.line_advance (t : LineTracker) (raw : Char) :
    ((t.advance raw).1 = .absorbed ∧ (t.advance raw).2.line = t.line ∧
        (t.advance raw).2.finish.line = t.finish.line) ∨
      (t.advance raw).1 ≠ .absorbed ∧ (t.advance raw).2.line = t.finish.line := by
  have placed (t : LineTracker) (opensLine : Bool) : (t.place raw opensLine).1 ≠ .absorbed := by
    rw [place_answer]
    exact nofun
  cases pending : t.pending with
  | none =>
    rw [advance, pending, finish_of_none pending]
    exact .inr ⟨placed t false, place_line t raw false⟩
  | some ending =>
    rw [advance, pending, finish_of_some pending]
    dsimp only
    split
    · exact .inl ⟨rfl, rfl, rfl⟩
    · exact .inr ⟨placed t.openLine true, place_line t.openLine raw true⟩

namespace SourceBuffer

/-- The line number stays, or a line terminator that was read before opens its line. -/
theorem lineNumber_next (b : SourceBuffer) :
    (b.next false).2.lineNumber = b.lineNumber ∨ (b.next false).2.lineNumber = b.tracker.finish.line := by
  generalize plain : false = skipFormat
  fun_induction SourceBuffer.next skipFormat b with
  | case1 b c loc pushback given passed ih =>
    rw [← plain] at passed
    cases passed
  | case2 b c loc pushback given kept => exact .inl rfl
  | case3 b given cause window took => exact .inl rfl
  | case4 b given window took => exact .inr rfl
  | case5 b given raw window took tracker advanced ih =>
    rcases b.tracker.line_advance raw with ⟨_, line, finish⟩ | ⟨placed, _⟩
    · rw [advanced] at line finish
      exact ih.imp (·.trans line) (·.trans finish)
    · exact absurd (by rw [advanced]) placed
  | case6 b given raw window took c loc opensLine tracker advanced passed ih =>
    rw [← plain] at passed
    cases passed
  | case7 b given raw window took c loc opensLine tracker advanced kept =>
    rcases b.tracker.line_advance raw with ⟨absorbed, _, _⟩ | ⟨_, line⟩
    · rw [advanced] at absorbed
      cases absorbed
    · rw [advanced] at line
      exact .inr line

theorem putBack_lineNumber (c : Char) (b : SourceBuffer) : (b.putBack c).lineNumber = b.lineNumber := by
  unfold SourceBuffer.putBack
  split <;> rfl

/-- The runs on a buffer that give back the character taken last of those since the lexeme began. `before`
are the characters up to there and `since` those after it, less those given back. No more than the first
`reach` characters have been taken so far. -/
inductive Backtracks (start : SourceBuffer) : List Char → List Char → Nat → SourceBuffer → Prop
  | opened : Backtracks start [] [] 0 start
  | took {before since reach b c b'} : Backtracks start before since reach b →
      b.next false = (.ok (some c), b') →
      Backtracks start before (since ++ [c]) (max reach ((before ++ since).length + 1)) b'
  | ended {before since reach b b'} : Backtracks start before since reach b →
      b.next false = (.ok none, b') → Backtracks start before since reach b'
  | failed {before since reach b cause b'} : Backtracks start before since reach b →
      b.next false = (.error cause, b') → Backtracks start before since reach b'
  | gaveBack {before since reach b c} : Backtracks start before (since ++ [c]) reach b →
      Backtracks start before since reach (b.putBack c)
  | began {before since reach b} : Backtracks start before since reach b →
      Backtracks start (before ++ since) [] reach b.beginLexeme

/-- Where a buffer stands in such a run, told on a tape over the text. -/
structure Stands (line : UInt32) (text before since : List Char) (reach : Nat) (b : SourceBuffer) (t : Tape) :
    Prop where
  trails : b.Trails t
  whole : ∃ earlier, located ⟨line, 0⟩ text = earlier ++ t.taken.reverse ++ t.ahead ∧ marked earlier = before
  spelled : marked t.taken.reverse = since
  ending : t.ending = Location.past ⟨line, 0⟩ text
  given : (before ++ since).length + b.pushback.length = reach

variable {b b' : SourceBuffer} {line : UInt32} {reach : Nat} {text before since : List Char} {t : Tape}
  {cause : ReadFailure} {c : Char}

theorem Stands.ahead (stands : Stands line text before since reach b t) :
    before ++ since = text.take (before ++ since).length ∧
      t.ahead = (located ⟨line, 0⟩ text).drop (before ++ since).length := by
  obtain ⟨earlier, whole, rfl⟩ := stands.whole
  obtain rfl := stands.spelled
  rw [← marked_append, length_marked, whole, List.drop_left]
  have chars := congrArg marked whole
  rw [marked_located, marked_append] at chars
  refine ⟨?_, rfl⟩
  rw [chars, ← length_marked, List.take_left]

theorem Stands.opened (reader : ByteReader) (capacity : Nat) (line : UInt32) :
    Stands line (normalize (Utf8.lossy (ByteReader.contents reader.script))) [] [] 0
      (ofReader reader capacity line) (.ofText line (normalize (Utf8.lossy (ByteReader.contents reader.script)))) where
  trails := .ofReader reader capacity line
  whole := ⟨[], rfl, rfl⟩
  spelled := rfl
  ending := rfl
  given := rfl

theorem Stands.took (stands : Stands line text before since reach b t)
    (answered : b.next false = (.ok (some c), b')) :
    ∃ t', Stands line text before (since ++ [c]) (max reach ((before ++ since).length + 1)) b' t' := by
  obtain ⟨same, trails⟩ := stands.trails.next_ok answered
  cases ahead : t.ahead with
  | nil =>
    rw [Tape.next_end (by simp [ahead])] at same
    cases same
  | cons m rest =>
    rw [Tape.next_kept ahead rfl] at same trails
    cases same
    obtain ⟨earlier, whole, front⟩ := stands.whole
    refine ⟨_, trails, ⟨earlier, ?_, front⟩, ?_, stands.ending, ?_⟩
    · rw [whole, ahead]
      simp
    · simp [← stands.spelled]
    · have left := b.next_pushback
      rw [answered] at left
      have given := stands.given
      rw [left, List.length_tail]
      simp only [List.length_append, List.length_singleton] at given ⊢
      omega

theorem Stands.ended (stands : Stands line text before since reach b t)
    (answered : b.next false = (.ok none, b')) : ∃ t', Stands line text before since reach b' t' := by
  obtain ⟨same, trails⟩ := stands.trails.next_ok answered
  cases ahead : t.ahead with
  | cons m rest =>
    rw [Tape.next_kept ahead rfl] at same
    cases same
  | nil =>
    rw [Tape.next_end (by simp [ahead])] at trails
    have none_ : b.pushback = [] := by
      have given := stands.trails.given
      rw [ahead] at given
      exact List.prefix_nil.1 given
    have left := b.next_pushback
    rw [answered, none_] at left
    have given := stands.given
    rw [none_] at given
    exact ⟨_, trails, ahead ▸ stands.whole, stands.spelled, stands.ending, left ▸ given⟩

/-- A call fails only where nothing that was given back is left. -/
theorem given_of_error (failed : b.next false = (.error cause, b')) : b.pushback = [] := by
  cases given : b.pushback with
  | nil => rfl
  | cons m rest =>
    rw [next_replayed given] at failed
    cases failed

theorem Stands.failed (stands : Stands line text before since reach b t)
    (failed : b.next false = (.error cause, b')) : Stands line text before since reach b' t := by
  have none_ := given_of_error failed
  have left := b.next_pushback
  rw [failed, none_] at left
  have given := stands.given
  rw [none_] at given
  exact ⟨stands.trails.next_error failed, stands.whole, stands.spelled, stands.ending, left ▸ given⟩

theorem Stands.gaveBack (stands : Stands line text before (since ++ [c]) reach b t) :
    ∃ t', Stands line text before since reach (b.putBack c) t' := by
  obtain ⟨front, back, split, spelled, one⟩ := marked_eq_append stands.spelled
  obtain ⟨loc, rfl⟩ := marked_eq_singleton one
  have taken : t.taken = (c, loc) :: front.reverse := by
    rw [← t.taken.reverse_reverse, split]
    simp
  have tape : CharSource.putBack c t = { t with taken := front.reverse, ahead := (c, loc) :: t.ahead } :=
    Tape.putBack_taken taken
  have trails := stands.trails.putBack c
  rw [tape] at trails
  have given := stands.given
  have buffer : b.putBack c = { b with taken := front.reverse, pushback := (c, loc) :: b.pushback } := by
    rw [SourceBuffer.putBack, ← stands.trails.taken, taken]
  obtain ⟨earlier, whole, first⟩ := stands.whole
  refine ⟨_, trails, ⟨earlier, ?_, first⟩, ?_, stands.ending, ?_⟩
  · rw [whole, split]
    simp
  · simpa using spelled
  · rw [buffer]
    simp only [List.length_append, List.length_cons, List.length_nil] at given ⊢
    omega

theorem Stands.began (stands : Stands line text before since reach b t) :
    ∃ t', Stands line text (before ++ since) [] reach b.beginLexeme t' := by
  obtain ⟨earlier, whole, first⟩ := stands.whole
  refine ⟨_, stands.trails.beginLexeme, ⟨earlier ++ t.taken.reverse, ?_, ?_⟩, rfl, stands.ending, ?_⟩
  · exact whole.trans (by simp [CharSource.beginLexeme])
  · rw [marked_append, first, stands.spelled]
  · rw [List.append_nil]
    exact stands.given

theorem Backtracks.stands {reader : ByteReader} {capacity : Nat}
    (run : Backtracks (ofReader reader capacity line) before since reach b) :
    ∃ t, Stands line (normalize (Utf8.lossy (ByteReader.contents reader.script))) before since reach b t := by
  induction run with
  | opened => exact ⟨_, .opened reader capacity line⟩
  | took _ answered ih =>
    obtain ⟨t, stands⟩ := ih
    exact stands.took answered
  | ended _ answered ih =>
    obtain ⟨t, stands⟩ := ih
    exact stands.ended answered
  | failed _ failed ih =>
    obtain ⟨t, stands⟩ := ih
    exact ⟨t, stands.failed failed⟩
  | gaveBack _ ih =>
    obtain ⟨t, stands⟩ := ih
    exact stands.gaveBack
  | began _ ih =>
    obtain ⟨t, stands⟩ := ih
    exact stands.began

theorem Backtracks.fails {reader : ByteReader} {capacity : Nat}
    (run : Backtracks (ofReader reader capacity line) before since reach b) :
    b.window.FailsAs reader.script := by
  have inv := failsAs_invariant reader.script
  have stepped {b b' : SourceBuffer} {answer : Except ReadFailure (Option Char)}
      (fails : b.window.FailsAs reader.script) (asked : b.next false = (answer, b')) :
      b'.window.FailsAs reader.script := by
    have kept := next_window inv false fails
    rwa [asked] at kept
  induction run with
  | opened => exact fun _ among => among
  | took _ answered ih => exact stepped ih answered
  | ended _ answered ih => exact stepped ih answered
  | failed _ failed ih => exact stepped ih failed
  | gaveBack _ ih => exact Call.run_window inv (.putBack _) ih
  | began _ ih => exact ih

/-- The tracker stands where the text that was taken so far ends. -/
theorem Stands.tracked (stands : Stands line text before since reach b t) :
    b.tracker.finish.location = .locate line (text.take reach) := by
  have ahead := stands.ahead.2
  have ending := stands.ending
  obtain ⟨_, ⟨_, _, rfl⟩, raw, onTape⟩ := stands.trails
  obtain ⟨marks, ends⟩ := b.tracker.marks_eq raw
  rw [onTape.ahead] at ahead
  rw [onTape.ending, ends] at ending
  have rest := congrArg (List.drop b.pushback.length) ahead
  rw [List.drop_left, List.drop_drop, stands.given, located_drop, marks] at rest
  rw [← List.take_append_drop reach text, Location.past_append] at ending
  rw [← Location.past_start]
  exact located_inj rest ending

theorem Stands.toNat_finish (stands : Stands line text before since reach b t)
    (fits : line.toNat + text.count '\n' < UInt32.size) :
    b.tracker.finish.line.toNat = line.toNat + (text.take reach).count '\n' := by
  have fewer := (List.take_sublist reach text).count_le '\n'
  have within : line.toNat + (text.take reach).count '\n' < UInt32.size := by omega
  have number := congrArg Location.line stands.tracked
  change b.tracker.finish.line = _ at number
  rw [number]
  exact Location.toNat_lineOn within

/-- While the lines of the text fit a word, the line number is none that is still to come. -/
theorem Backtracks.toNat_lineNumber_le {reader : ByteReader} {capacity : Nat}
    (run : Backtracks (ofReader reader capacity line) before since reach b)
    (whole : normalize (Utf8.lossy (ByteReader.contents reader.script)) = text)
    (fits : line.toNat + text.count '\n' < UInt32.size) :
    b.lineNumber.toNat ≤ line.toNat + (text.take reach).count '\n' := by
  have stepped {before since : List Char} {reach further : Nat} {b : SourceBuffer}
      (run : Backtracks (ofReader reader capacity line) before since reach b)
      (so_far : b.lineNumber.toNat ≤ line.toNat + (text.take reach).count '\n')
      (on : reach ≤ further) :
      (b.next false).2.lineNumber.toNat ≤ line.toNat + (text.take further).count '\n' := by
    have more := (List.take_prefix_take_left on : text.take reach <+: _).sublist.count_le '\n'
    obtain ⟨t, stands⟩ := run.stands
    rw [whole] at stands
    rcases b.lineNumber_next with same | opened
    · rw [same]
      omega
    · rw [opened, stands.toNat_finish fits]
      omega
  induction run with
  | opened => exact Nat.le_add_right _ _
  | @took before since reach b c b' run answered ih =>
    have next := stepped run ih (Nat.le_max_left reach ((before ++ since).length + 1))
    rwa [answered] at next
  | ended run answered ih =>
    have next := stepped run ih (Nat.le_refl _)
    rwa [answered] at next
  | failed run failed ih =>
    have next := stepped run ih (Nat.le_refl _)
    rwa [failed] at next
  | gaveBack _ ih => rwa [putBack_lineNumber]
  | began _ ih => exact ih

/-- What a buffer is at any point of such a run, and what it does next. -/
structure Zipper (script : List Delivery) (line : UInt32) (text before since : List Char) (reach : Nat)
    (b : SourceBuffer) : Prop where
  read : before ++ since = text.take (before ++ since).length
  lexeme : b.lexeme = since
  /-- What was given back is what lies between this point and the one furthest on. -/
  given : b.pushback = ((located ⟨line, 0⟩ text).take reach).drop (before ++ since).length
  answer : ∀ answer b', b.next false = (.ok answer, b') →
    answer = text[(before ++ since).length]? ∧
      b'.last = Location.past ⟨line, 0⟩ (text.take (before ++ since).length)
  failure : ∀ cause b', b.next false = (.error cause, b') →
    .failure cause ∈ script ∧ (before ++ since).length = reach
  /-- Only the number after the last one, which is zero, is less than the number before. -/
  lineNumber : (b.next false).2.lineNumber = b.lineNumber ∨
    (b.next false).2.lineNumber = b.lineNumber + 1
  lineNumber_le : line.toNat + text.count '\n' < UInt32.size →
    b.lineNumber ≤ (b.next false).2.lineNumber
  replay : (before ++ since).length < reach → (b.next false).2.lineNumber = b.lineNumber
  putBack : ∀ c, (b.putBack c).lineNumber = b.lineNumber
  beginLexeme : b.beginLexeme.lineNumber = b.lineNumber

theorem Stands.answer (stands : Stands line text before since reach b t) {answer : Option Char}
    (answered : b.next false = (.ok answer, b')) :
    answer = text[(before ++ since).length]? ∧
      b'.last = Location.past ⟨line, 0⟩ (text.take (before ++ since).length) := by
  obtain ⟨same, trails⟩ := stands.trails.next_ok answered
  have place := trails.last
  have here := congrArg List.head? stands.ahead.2
  rw [List.head?_drop, located_getElem?] at here
  cases ahead : t.ahead with
  | nil =>
    rw [Tape.next_end (by simp [ahead])] at same place
    rw [ahead] at here
    have past : text[(before ++ since).length]? = none := Option.map_eq_none_iff.1 here.symm
    cases same
    refine ⟨past.symm, ?_⟩
    rw [← place, List.take_of_length_le (List.getElem?_eq_none_iff.1 past)]
    exact stands.ending
  | cons m rest =>
    rw [Tape.next_kept ahead rfl] at same place
    rw [ahead] at here
    obtain ⟨c, found, rfl⟩ := Option.map_eq_some_iff.1 here.symm
    cases same
    exact ⟨found.symm, place.symm⟩

/-- At any point of such a run on a new buffer, whatever its reader and the size of its window, the buffer is
a zipper on its text. -/
theorem backtracks_zipper {reader : ByteReader} {capacity : Nat} {line : UInt32} {before since : List Char}
    {reach : Nat} {b : SourceBuffer} (run : Backtracks (ofReader reader capacity line) before since reach b) :
    Zipper reader.script line (normalize (Utf8.lossy (ByteReader.contents reader.script)))
      before since reach b := by
  obtain ⟨t, stands⟩ := run.stands
  obtain ⟨read, ahead⟩ := stands.ahead
  have reached := stands.given
  refine ⟨read, ?_, ?_, fun _ _ answered => stands.answer answered, ?_, ?_, ?_, ?_,
    fun c => putBack_lineNumber c b, rfl⟩
  · rw [SourceBuffer.lexeme, ← stands.trails.taken]
    exact stands.spelled
  · rw [List.drop_take, ← ahead, ← reached, Nat.add_sub_cancel_left]
    exact List.prefix_iff_eq_take.1 stands.trails.given
  · intro cause b' failed
    have none_ := given_of_error failed
    rw [none_] at reached
    exact ⟨failure_of_next run.fails failed, reached⟩
  · rcases b.lineNumber_next with same | opened
    · exact .inl same
    · rw [opened, b.tracker.finish_line]
      split
      · exact .inr rfl
      · exact .inl (UInt32.add_zero _)
  · intro fits
    have so_far := run.toNat_lineNumber_le rfl fits
    have number := stands.toNat_finish fits
    rcases b.lineNumber_next with same | opened
    · exact same ▸ UInt32.le_refl _
    · rw [UInt32.le_iff_toNat_le, opened, number]
      exact so_far
  · intro behind
    cases given : b.pushback with
    | nil =>
      rw [given, List.length_nil, Nat.add_zero] at reached
      exact absurd reached (Nat.ne_of_lt behind)
    | cons m rest =>
      rw [next_replayed given]
      rfl

/-- A window of one character. A carriage return is taken, given back and taken again; then the input fails
between it and its line feed, and then it ends. -/
theorem backtracks_zipper_return :
    let reader : ByteReader := { script := [.piece [0x61, 0x0D], .failure ⟨"", ""⟩, .piece [0x0A]] }
    ∃ b, Backtracks (ofReader reader 1 1) ['a'] ['\n'] 2 b ∧
      Zipper reader.script 1 (normalize (Utf8.lossy (ByteReader.contents reader.script))) ['a'] ['\n'] 2 b := by
  intro reader
  let first := ((ofReader reader 1 1).next false).2.beginLexeme
  let second := (first.next false).2
  let third := ((second.putBack '\n').next false).2
  have letter : Backtracks (ofReader reader 1 1) ['a'] [] 1 first :=
    (Backtracks.opened.took (Prod.ext (by decide +kernel) rfl)).began
  have break_ : Backtracks (ofReader reader 1 1) ['a'] ['\n'] 2 second :=
    letter.took (Prod.ext (by decide +kernel) rfl)
  have back : Backtracks (ofReader reader 1 1) ['a'] [] 2 (second.putBack '\n') := .gaveBack break_
  have again : Backtracks (ofReader reader 1 1) ['a'] ['\n'] 2 third :=
    back.took (Prod.ext (by decide +kernel) rfl)
  have cause : (third.next false).1 = .error ⟨"", ""⟩ := by decide +kernel
  have failed := again.failed (Prod.ext cause rfl)
  have run := failed.ended (Prod.ext (by decide +kernel) rfl)
  exact ⟨_, run, backtracks_zipper run⟩

/-- Behind the line with the last number comes line zero. -/
theorem backtracks_zipper_fails :
    let start := ofReader (.ofText "\na") 512 4294967295
    let first := (start.next false).2
    Backtracks start [] ['\n'] 1 first ∧ first.lineNumber = 4294967295 ∧
      (first.next false).2.lineNumber = 0 ∧ ¬first.lineNumber ≤ (first.next false).2.lineNumber := by
  intro start first
  have run : Backtracks start [] ['\n'] 1 first := Backtracks.opened.took (Prod.ext (by decide +kernel) rfl)
  have before : first.lineNumber = 4294967295 := by decide +kernel
  have behind : (first.next false).2.lineNumber = 0 := by decide +kernel
  refine ⟨run, before, behind, ?_⟩
  rw [before, behind]
  decide

end SourceBuffer
end EcmaLex
