import EcmaLex.Proofs.Source.ReadHead
import Mathlib.Data.List.TakeWhile

/-!
The line that a buffer shows is the one that it numbers, as far as it has been decoded. The empty line behind
the terminator at the end of a text is the exception: it is numbered, but the line before it is shown
(`buffer_showsLine`).
-/
namespace EcmaLex
open Text

/-- The lines of a text, with the empty line that begins behind a terminator at the end. -/
def sourceLines (text : List Char) : List (List Char) :=
  lines text ++ if text.getLast?.all isLineTerminator then [[]] else []

def withoutTerminator (line : List Char) : List Char := line.takeWhile fun c => !isLineTerminator c

/-- The line with `k` lines before it, as far as it is among the first `decoded` characters of the text. -/
def decodedLine (text : List Char) (decoded k : Nat) : Option (List Char) :=
  (sourceLines text)[k]?.map fun line =>
    withoutTerminator (line.take (decoded - ((sourceLines text).take k).flatten.length))

example : (List.range 3).map (decodedLine ['a', '\r', '\n', 'b', 'c', '\n'] 4) =
    [some ['a'], some ['b'], some []] := by
  decide

variable {text part whole rest : List Char} {earlier later : List (List Char)}

theorem ne_nil_of_ends (ends : text.getLast?.any isLineTerminator = true) : text ≠ [] := by
  rintro rfl
  cases ends

/-- What comes behind a terminator does not count. -/
theorem withoutTerminator_append {a : Char} (among : a ∈ whole) (ends : isLineTerminator a = true) :
    withoutTerminator (whole ++ rest) = withoutTerminator whole := by
  rw [withoutTerminator, List.takeWhile_append, if_neg]
  · rfl
  · intro full
    have all := List.takeWhile_eq_self_iff.1 ((List.takeWhile_prefix _).eq_of_length full)
    simpa [ends] using all a among

theorem withoutTerminator_take (front : part <+: whole ++ rest)
    (ends : rest ≠ [] → ∃ a ∈ whole, isLineTerminator a = true) :
    withoutTerminator (whole.take part.length) = withoutTerminator part := by
  have split := List.prefix_iff_eq_take.1 front
  rw [List.take_append] at split
  by_cases inside : part.length ≤ whole.length
  · rw [Nat.sub_eq_zero_of_le inside, List.take_zero, List.append_nil] at split
    rw [← split]
  · have short := List.take_of_length_le (Nat.le_of_not_le inside)
    have more : rest ≠ [] := by
      rintro rfl
      simp only [List.append_nil] at front
      exact inside front.length_le
    obtain ⟨a, among, ends⟩ := ends more
    rw [short] at split ⊢
    rw [split, withoutTerminator_append among ends]

theorem decodedLine_of_lines (split : lines text = earlier ++ whole :: later)
    (front : earlier.flatten ++ part <+: text) :
    decodedLine text (earlier.flatten ++ part).length earlier.length = some (withoutTerminator part) := by
  have text_ : text = earlier.flatten ++ (whole ++ later.flatten) := by
    rw [← flatten_lines text, split, List.flatten_append, List.flatten_cons]
  rw [text_, List.prefix_append_right_inj] at front
  -- A line with others behind it is complete.
  have ends : later.flatten ≠ [] → ∃ a ∈ whole, isLineTerminator a = true := by
    intro some_
    obtain ⟨next, later, rfl⟩ : ∃ next more, later = next :: more :=
      List.exists_cons_of_ne_nil fun none_ => some_ (by rw [none_]; rfl)
    obtain ⟨a, c, _, last, _, apart⟩ := lines_apart split
    refine ⟨a, List.mem_of_getLast? last, ?_⟩
    simpa [onOneLine] using (Bool.or_eq_false_iff.1 apart).1
  rw [decodedLine, sourceLines, split]
  simp only [List.append_assoc, List.cons_append, List.getElem?_append_right (Nat.le_refl _), Nat.sub_self,
    List.getElem?_cons_zero, Option.map_some, List.take_left', List.length_append, Nat.add_sub_cancel_left]
  rw [withoutTerminator_take front ends]

/-- No part of the empty line behind the last terminator is ever missing. -/
theorem decodedLine_behind (decoded : Nat) (ends : text.getLast?.all isLineTerminator = true) :
    decodedLine text decoded (lines text).length = some [] := by
  rw [decodedLine, sourceLines, if_pos ends, List.getElem?_concat_length]
  simp [withoutTerminator]

/-- The line behind so many lines is the empty one behind the terminator at the end of the text. -/
def OnEmptyEnd (text : List Char) (k : Nat) : Prop := text ≠ [] ∧ (lines text).length ≤ k

/-- What line a buffer shows that has moved these characters of an input with this text into its window, and
numbers the line behind `k` others. -/
structure ShowsLine (text : List Char) (startLine : UInt32) (h : WindowHistory) (k : Nat) (b : SourceBuffer) :
    Prop where
  front : h.moved <+: text
  /-- It is the line of the character handed out last, or at the end of input the empty line there. -/
  line : k = (lines h.handed).length - 1 ∨ b.window.Ended ∧ k = (lines text).length
  number : b.lineNumber = startLine + UInt32.ofNat k
  counted : startLine.toNat + (lines text).length < UInt32.size → b.lineNumber.toNat = startLine.toNat + k
  /-- The buffer shows the line that it numbers. On the empty line at the end it does so only if it
  shows nothing. -/
  shows : decodedLine text h.moved.length k = some b.window.currentLine ↔
    (OnEmptyEnd text k → b.window.currentLine = [])
  /-- It is the line before that is shown there. -/
  behind : OnEmptyEnd text k → b.window.Ended ∧ text.getLast?.any isLineTerminator = true ∧
    k = (lines text).length ∧ decodedLine text h.moved.length k = some [] ∧
    decodedLine text h.moved.length (k - 1) = some b.window.currentLine

variable {startLine : UInt32} {h : WindowHistory} {w : SourceWindow} {t : LineTracker} {b : SourceBuffer}
  {k : Nat}

theorem HeadState.currentLine (state : HeadState text h w t) :
    w.currentLine = withoutTerminator (lastLine h.handed ++ w.unread) := by
  rw [SourceWindow.currentLine, state.line, withoutTerminator]

/-- The window has moved in the lines before the one of the character handed out last, and something of it. -/
theorem HeadState.current (state : HeadState text h w t) (some_ : text ≠ []) :
    ∃ earlier whole later, lines text = earlier ++ whole :: later ∧
      (lines h.handed).length - 1 = earlier.length ∧
      h.moved = earlier.flatten ++ (lastLine h.handed ++ w.unread) := by
  obtain ⟨raw, _, rfl⟩ := state.held
  by_cases none_ : h.handed = []
  · obtain ⟨whole, later, split⟩ := List.exists_cons_of_ne_nil (lines_ne_nil some_)
    refine ⟨[], whole, later, split, ?_, ?_⟩
    · rw [none_]
      rfl
    · rw [state.moved, none_]
      rfl
  · obtain ⟨earlier, whole, later, split, own, _⟩ := lines_append none_ raw
    refine ⟨earlier, whole, later, split, ?_, ?_⟩
    · rw [own, List.length_append, List.length_singleton, Nat.add_sub_cancel]
    · rw [state.moved, ← List.append_assoc, ← text_of_split own]

/-- The window shows the line of the character handed out last. -/
theorem HeadState.shown (state : HeadState text h w t) :
    decodedLine text h.moved.length ((lines h.handed).length - 1) = some w.currentLine := by
  have front := state.front
  rw [state.currentLine]
  by_cases none_ : text = []
  · subst none_
    have moved := state.moved.symm.trans (List.prefix_nil.1 front)
    obtain ⟨handed, unread⟩ := List.append_eq_nil_iff.1 moved
    rw [handed, unread]
    exact decodedLine_behind _ rfl
  · obtain ⟨earlier, whole, later, split, number, moved⟩ := state.current none_
    rw [moved] at front ⊢
    rw [number]
    exact decodedLine_of_lines split front

/-- At the end of input everything has been handed out. -/
theorem HeadState.ended (state : HeadState text h w t) (ended : w.Ended) : h.handed = text := by
  obtain ⟨raw, held, rfl⟩ := state.held
  have none_ := List.head?_eq_none_iff.1 (held.take_ok ended.take).1.symm
  rw [none_, List.append_nil]

/-- The tracker is behind the characters that were handed out, or the end of input has been seen. -/
theorem HeadRun.tracked {reader : ByteReader} {capacity : Nat} {line : UInt32} {anytime : Prop}
    (run : HeadRun reader capacity line anytime h w t) :
    t = (LineTracker.start line).behind h.handed ∨
      w.Ended ∧ t = ((LineTracker.start line).behind h.handed).finish := by
  induction run with
  | opened capacity_pos => exact .inl rfl
  | @refill h w t run allowed ih =>
    -- At the end of input a refill changes nothing.
    refine ih.imp_right fun ⟨ended, finished⟩ => ⟨?_, finished⟩
    rw [SourceWindow.fill_exhausted ended.exhausted]
    exact ended
  | @hand h w t c run found ih =>
    rcases ih with same | ⟨ended, _⟩
    · rw [LineTracker.behind_push, ← same]
      exact .inl rfl
    · cases ended.drained.symm.trans found
  | @finish h w t run ended ih =>
    refine .inr ⟨ended, ?_⟩
    rcases ih with rfl | ⟨_, rfl⟩
    · rfl
    · exact LineTracker.finish_finish _
  | @collect h w t run ih =>
    exact ih.imp_right fun ⟨ended, finished⟩ => ⟨⟨ended.exhausted, ended.drained⟩, finished⟩

/-- The tracker is on the line of the character handed out last, or on the empty line at the end. -/
theorem HeadRun.line {reader : ByteReader} {capacity : Nat} {line : UInt32} {anytime : Prop}
    (run : HeadRun reader capacity line anytime h w t) :
    t.line = line + UInt32.ofNat ((lines h.handed).length - 1) ∨
      w.Ended ∧ h.handed.getLast?.any isLineTerminator = true ∧
        t.line = line + UInt32.ofNat (lines h.handed).length := by
  rcases run.tracked with same | ⟨ended, same⟩
  · rw [same, LineTracker.behind_line]
    exact .inl rfl
  · rw [same, LineTracker.finish_line, LineTracker.behind_line,
      LineTracker.pending_isSome (LineTracker.behind_pending line h.handed)]
    cases ends : h.handed.getLast?.any isLineTerminator with
    | false => exact .inl (UInt32.add_zero _)
    | true =>
      have counted := List.length_pos_iff.2 (lines_ne_nil (ne_nil_of_ends ends))
      have next : (lines h.handed).length = (lines h.handed).length - 1 + 1 := by omega
      refine .inr ⟨ended, rfl, ?_⟩
      rw [next, UInt32.ofNat_add, ← UInt32.add_assoc]
      rfl

/-- While the lines of the text fit a word, a line is numbered by the lines before it. -/
theorem toNat_lineNumber (number : b.lineNumber = startLine + UInt32.ofNat k) (inside : k ≤ (lines text).length)
    (fits : startLine.toNat + (lines text).length < UInt32.size) :
    b.lineNumber.toNat = startLine.toNat + k := by
  rw [number]
  exact Location.toNat_lineOn (by omega)

theorem HeadState.showsLine_within (state : HeadState text h b.window b.tracker)
    (within : b.lineNumber = startLine + UInt32.ofNat ((lines h.handed).length - 1)) :
    ShowsLine text startLine h ((lines h.handed).length - 1) b := by
  have inside : text ≠ [] → (lines h.handed).length - 1 < (lines text).length := by
    intro some_
    obtain ⟨earlier, whole, later, split, place, _⟩ := state.current some_
    rw [split, List.length_append, List.length_cons]
    omega
  have elsewhere : ¬OnEmptyEnd text ((lines h.handed).length - 1) :=
    fun ⟨some_, past⟩ => Nat.not_lt.2 past (inside some_)
  have few : (lines h.handed).length - 1 ≤ (lines text).length := by
    by_cases none_ : text = []
    · have moved := state.moved.symm.trans (List.prefix_nil.1 (none_ ▸ state.front))
      rw [(List.append_eq_nil_iff.1 moved).1]
      exact Nat.zero_le _
    · exact (inside none_).le
  refine ⟨state.front, .inl rfl, within, toNat_lineNumber within few, ?_, fun here => absurd here elsewhere⟩
  exact iff_of_true state.shown fun here => absurd here elsewhere

theorem HeadState.showsLine_behind (state : HeadState text h b.window b.tracker) (ended : b.window.Ended)
    (ends : text.getLast?.any isLineTerminator = true)
    (past : b.lineNumber = startLine + UInt32.ofNat (lines text).length) :
    ShowsLine text startLine h (lines text).length b := by
  have here : OnEmptyEnd text (lines text).length := ⟨ne_nil_of_ends ends, Nat.le_refl _⟩
  have shown := state.shown
  rw [state.ended ended] at shown
  have empty : decodedLine text h.moved.length (lines text).length = some [] := by
    obtain ⟨a, last, terminator⟩ := (Option.any_eq_true _ _).1 ends
    refine decodedLine_behind _ ?_
    rw [last]
    exact terminator
  refine ⟨state.front, .inr ⟨ended, rfl⟩, past, toNat_lineNumber past (Nat.le_refl _), ?_,
    fun _ => ⟨ended, ends, rfl, empty, shown⟩⟩
  rw [empty]
  constructor
  · intro same _
    exact (Option.some.inj same).symm
  · intro none_
    rw [none_ here]

/-- Whatever is asked of a new buffer, whether its reads fail or not, it shows the line that it numbers, if
that is not the empty line at the end of the text. -/
theorem buffer_showsLine (reader : ByteReader) (capacity : Nat) (startLine : UInt32)
    (calls : List SourceBuffer.Call) :
    let text := Utf8.lossy (ByteReader.contents reader.script)
    let b := (SourceBuffer.ofReader reader capacity startLine).called calls
    (∃ h, HeadRun reader (max capacity 1) startLine True h b.window b.tracker) ∧
      ∀ h, HeadRun reader (max capacity 1) startLine True h b.window b.tracker →
        ∃ k, ShowsLine text startLine h k b := by
  intro text b
  constructor
  · have opened := SourceBuffer.Runs.ofReader reader capacity startLine True
    exact opened.called fun _ => trivial
  · intro h run
    have state : HeadState text h b.window b.tracker := run.state
    rcases run.line with within | ⟨ended, ends, past⟩
    · exact ⟨_, state.showsLine_within within⟩
    · rw [state.ended ended] at ends past
      exact ⟨_, state.showsLine_behind ended ends past⟩

/-- A line that begins with a character given back, behind a terminator of two characters that arrive apart. -/
theorem buffer_showsLine_pair :
    let reader : ByteReader := { script := [.piece [0x61, 0x0D], .interrupted, .piece [0x0A, 0x62, 0x63]] }
    let b := (SourceBuffer.ofReader reader 2 1).called [.next false, .next false, .next false, .putBack 'b']
    b.lineNumber = 2 ∧ b.window.currentLine = ['b'] ∧
      ∃ h k, HeadRun reader 2 1 True h b.window b.tracker ∧
        ShowsLine (Utf8.lossy (ByteReader.contents reader.script)) 1 h k b := by
  intro reader b
  obtain ⟨⟨h, run⟩, shows⟩ := buffer_showsLine reader 2 1 [.next false, .next false, .next false, .putBack 'b']
  obtain ⟨k, shown⟩ := shows h run
  exact ⟨by decide +kernel, by decide +kernel, h, k, run, shown⟩

/-- At the end of this input line 2 is numbered, which is empty, and line 1 is shown. -/
theorem buffer_showsLine_fails :
    let reader : ByteReader := { script := [.piece [0x61, 0x0A]] }
    let text := Utf8.lossy (ByteReader.contents reader.script)
    let b := (SourceBuffer.ofReader reader 512 1).called [.next false, .next false, .next false]
    b.lineNumber = 2 ∧ b.window.currentLine = ['a'] ∧
      ∃ h, HeadRun reader 512 1 True h b.window b.tracker ∧
        ∀ k, k < (sourceLines text).length → b.lineNumber = 1 + UInt32.ofNat k →
          decodedLine text h.moved.length k ≠ some b.window.currentLine := by
  intro reader text b
  have opened := SourceBuffer.Runs.ofReader reader 512 1 True
  have ran : b.Runs reader 512 1 True := opened.called fun _ => trivial
  obtain ⟨h, run⟩ := ran
  have text_ : text = ['a', '\n'] := by decide +kernel
  have number : b.lineNumber = 2 := by decide +kernel
  have shown : b.window.currentLine = ['a'] := by decide +kernel
  refine ⟨number, shown, h, run, ?_⟩
  have two : (sourceLines ['a', '\n']).length = 2 := by decide +kernel
  have empty : decodedLine ['a', '\n'] h.moved.length 1 = some [] := decodedLine_behind _ rfl
  rw [text_, number, shown, two]
  intro k below named
  obtain rfl | rfl : k = 0 ∨ k = 1 := by omega
  · exact absurd named (by decide)
  · rw [empty]
    decide

end EcmaLex
