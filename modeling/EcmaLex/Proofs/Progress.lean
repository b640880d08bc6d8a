import EcmaLex.Library.Running
import EcmaLex.Proofs.LifeCycle

/-!
Every call that answers a token uses up characters, so a stream over input that does not fail comes to its
end after no more tokens than there are characters.
-/
namespace EcmaLex
open Text CharSource

/-- The bytes that a script delivers before its first read of nothing. -/
def ByteReader.bytesToCome : List Delivery → List UInt8
  | .piece bytes :: script => bytes ++ bytesToCome script
  | .interrupted :: script => bytesToCome script
  | _ => []

theorem Delivers.bytesToCome {script : List Delivery} {bytes : List UInt8}
    (delivers : Delivers script bytes) : ByteReader.bytesToCome script = bytes := by
  induction delivers with
  | exhausted => rfl
  | eof rest => rfl
  | piece piece _ ih => rw [ByteReader.bytesToCome, ih]
  | interrupted _ ih => exact ih

namespace SourceWindow

def bytesToCome (w : SourceWindow) : List UInt8 :=
  if w.exhausted then [] else ByteReader.bytesToCome w.reader.script

/-- The raw characters still to be taken. -/
def toCome (w : SourceWindow) : List Char := w.unread ++ Utf8.lossy (w.undecoded ++ w.bytesToCome)

theorem Awaits.bytesToCome {w : SourceWindow} {bytes : List UInt8} (awaits : w.Awaits bytes) :
    w.bytesToCome = bytes := by
  unfold Awaits at awaits
  unfold SourceWindow.bytesToCome
  split at awaits
  · rw [if_pos ‹_›, awaits.1]
  · rw [if_neg ‹_›, Delivers.bytesToCome awaits]

theorem Holds.toCome {w : SourceWindow} {text : List Char} (holds : w.Holds text) : w.toCome = text := by
  obtain ⟨bytes, awaits, rfl⟩ := holds.text
  rw [SourceWindow.toCome, awaits.bytesToCome]

end SourceWindow

/-- The characters still to be handed out: those given back, and those that the tracker will make of the
raw ones. -/
def SourceBuffer.toCome (b : SourceBuffer) : List Char :=
  marked (b.pushback ++ b.tracker.marks b.window.toCome)

theorem SourceBuffer.Follows.toCome {b : SourceBuffer} {t : Tape} (follows : b.Follows t) :
    b.toCome = marked t.ahead := by
  obtain ⟨raw, onTape⟩ := follows
  rw [SourceBuffer.toCome, onTape.holds.toCome, onTape.ahead]

variable {file : String} {mode : Mode} {loc : Location} {after slice text : List Char} {tile : Tile}
  {tiles : List Tile}

theorem kept_ne_nil (some_ : slice ≠ []) : kept slice ≠ [] := by
  unfold kept
  split
  · rename_i opens
    -- The solidus that opens the comment is kept.
    have opener : '/' ∈ slice.take 2 := by
      rw [of_decide_eq_true opens]
      exact List.mem_cons_self
    exact List.ne_nil_of_mem (List.mem_filter.2 ⟨List.mem_of_mem_take opener, by decide⟩)
  · exact some_

def TokenStream.toCome (s : TokenStream) : List Char := s.buffer.toCome

theorem TokenStream.On.toCome {s : TokenStream} {tape : Tape} (on : s.On file mode tape)
    (spot : tape.At loc text) : s.toCome = text := by
  rw [TokenStream.toCome, on.follows.toCome, spot.ahead, marked_located]

section
variable [Library]

theorem Tile.Fits.more (fits : tile.Fits file mode loc after) (more : tile.token.isEof = false) :
    tile.slice ≠ [] := by
  intro none_
  have eof : tile.token.kind = .eof := fits.read.eof_iff.1 none_
  simp [Token.isEof, eof] at more

theorem Tile.Fits.lexeme_ne (fits : tile.Fits file mode loc after) (some_ : tile.slice ≠ []) :
    tile.token.lexeme ≠ "" := by
  rw [fits.lexeme]
  intro none_
  exact kept_ne_nil some_ (by simpa using none_)

theorem Tiled.length_le (tiled : Tiled file mode loc text tiles) : tiles.length ≤ text.length + 1 := by
  induction tiled with
  | last _ _ => simp
  | @more loc rest tile tiles fits more _ ih =>
    have used := List.length_pos_iff.2 (mt fits.read.eof_iff.1 more)
    simp only [List.length_cons, List.length_append, Tile.source]
    omega

namespace TokenStream

variable {s : TokenStream} {tape : Tape} {r : ByteReader}

/-- The answers up to the end are those of one call after another. -/
theorem next_of_readAll {k : Nat} {answer : Except StreamError Token}
    (answered : s.readAll.1[k]? = some answer) : (s.skip k).next.1 = answer := by
  induction s using readAll.induct generalizing k with
  | case1 s e s' read =>
    rw [readAll_error read] at answered
    obtain ⟨rfl, rfl⟩ : k = 0 ∧ answer = .error e := by
      cases k <;> simp_all
    rw [skip, read]
  | case2 s token s' read eof =>
    rw [readAll_eof read eof] at answered
    obtain ⟨rfl, rfl⟩ : k = 0 ∧ answer = .ok token := by
      cases k <;> simp_all
    rw [skip, read]
  | case3 s token s' read more ih =>
    rw [readAll_more read (eq_false_of_ne_true more)] at answered
    cases k with
    | zero =>
      cases answered
      rw [skip, read]
    | succ k =>
      rw [skip, read]
      exact ih answered

theorem Reached.skip (reached : s.Reached r) (k : Nat) : (s.skip k).Reached r := by
  induction k generalizing s with
  | zero => exact reached
  | succ k ih => exact ih reached.next

/-- A call uses up characters unless it answers the end of input. -/
theorem On.call (on : s.On file mode tape) (spot : tape.At loc text) :
    ∃ token s', s.next = (.ok token, s') ∧
      (token.isEof = false → s'.toCome.length < s.toCome.length ∧ token.lexeme ≠ "") := by
  obtain ⟨tile, rest, s', tape', read, on', rfl, fits, spot'⟩ := on.next_tile spot
  refine ⟨tile.token, s', read, ?_⟩
  intro more
  have some_ := fits.more more
  have used := List.length_pos_iff.2 some_
  refine ⟨?_, fits.lexeme_ne some_⟩
  rw [on.toCome spot, on'.toCome spot', Tile.source, List.length_append, List.length_append]
  omega

/-- The tokens of a stream, and the end of input after them. -/
theorem On.tokens (on : s.On file mode tape) (spot : tape.At loc text) :
    ∃ tokens last, s.readAll.1 = (tokens ++ [last]).map .ok ∧ (∀ t ∈ tokens, t.isEof = false) ∧
      last.isEof = true ∧ tokens.length ≤ text.length := by
  obtain ⟨tiles, answers, tiled⟩ := on.readAll_tiled spot
  have bound := tiled.length_le
  obtain ⟨front, last, rfl, eof, others⟩ := tiled.eof_last
  refine ⟨front.map (·.token), last.token, ?_, ?_, ?_, ?_⟩
  · simp [answers]
  · simpa [Token.isEof] using others
  · simpa [Token.isEof] using eof
  · simpa using bound

end TokenStream

open TokenStream

/-- How a stream over a text of `size` characters comes to its end. -/
structure Progress (r : ByteReader) (start : TokenStream) (size : Nat) : Prop where
  toCome : start.toCome.length = size
  /-- A call answers, and a token that is not the end of input has used up characters. -/
  call : ∀ k, ∃ token s', (start.skip k).next = (.ok token, s') ∧
    (token.isEof = false → s'.toCome.length < (start.skip k).toCome.length ∧ token.lexeme ≠ "")
  /-- All calls together make so many reads at most. -/
  reads : ∀ k, (start.skip k).reader.reads ≤ r.reads + r.pending + 1
  /-- The calls answer no more tokens than there are characters, and then the end of input. -/
  tokens : ∃ tokens last, (∀ t ∈ tokens, t.isEof = false) ∧ last.isEof = true ∧ tokens.length ≤ size ∧
    ∀ k token, (tokens ++ [last])[k]? = some token → (start.skip k).next.1 = .ok token

/-- A stream over input that does not fail comes to its end, and so does a text that is read at once. -/
theorem progress_ofConfig (c : Config) :
    (∀ {reader : ByteReader} {bytes : List UInt8}, Delivers reader.script bytes →
      Progress reader (ofConfig reader c) (normalize (Utf8.lossy bytes)).length) ∧
    ∀ text : String, ∃ tokens last, tokenize text = .ok (tokens ++ [last]) ∧
      (∀ t ∈ tokens, t.isEof = false) ∧ last.isEof = true ∧
        tokens.length ≤ (normalize text.toList).length := by
  constructor
  · intro reader bytes delivers
    have on := On.ofConfig delivers c
    have spot := ofText_at c.startLine (normalize (Utf8.lossy bytes))
    obtain ⟨tiles, _, tiled⟩ := on.readAll_tiled spot
    constructor
    · rw [on.toCome spot]
    · intro k
      obtain ⟨_, on', spot'⟩ := on.skip spot tiled k
      exact on'.call spot'
    · intro k
      obtain ⟨_, on', _⟩ := on.skip spot tiled k
      exact (((Reached.ofConfig reader c).skip k).traces on'.going).reads_le
    · obtain ⟨tokens, last, answers, others, eof, bound⟩ := on.tokens spot
      refine ⟨tokens, last, others, eof, bound, ?_⟩
      intro k token here
      refine next_of_readAll ?_
      rw [answers, List.getElem?_map, here]
      rfl
  · intro text
    have on := On.ofConfig (delivers_ofText text) {}
    rw [Utf8.lossy_encode] at on
    obtain ⟨tokens, last, answers, others, eof, bound⟩ := on.tokens (ofText_at _ _)
    refine ⟨tokens, last, ?_, others, eof, bound⟩
    rw [tokenize, ofText, ofReader, answers, List.mapM_map]
    exact List.mapM_pure.trans (congrArg Except.ok (List.map_id _))

end

open Running TokenStream

/-- A euro sign and a line terminator, each in two pieces. What comes after the end is not read. -/
theorem progress_interrupted :
    let script : List Delivery := [.interrupted, .piece [0xE2, 0x82], .interrupted, .piece [0xAC, 0x0D],
      .piece [0x0A], .eof, .piece [0x61]]
    let c : Config := { mode := .strict, bufferCapacity := 1 }
    Delivers script [0xE2, 0x82, 0xAC, 0x0D, 0x0A] ∧ Progress { script } (ofConfig { script } c) 2 := by
  intro script c
  have delivers : Delivers script [0xE2, 0x82, 0xAC, 0x0D, 0x0A] :=
    .interrupted (.piece [0xE2, 0x82] (.interrupted (.piece [0xAC, 0x0D] (.piece [0x0A] (.eof _)))))
  have encoded : [0xE2, 0x82, 0xAC, 0x0D, 0x0A] = Utf8.encode ['€', '\r', '\n'] := by decide
  have size : (normalize (Utf8.lossy [0xE2, 0x82, 0xAC, 0x0D, 0x0A])).length = 2 := by
    rw [encoded, Utf8.lossy_encode]
    decide
  have progress : Progress { script } (ofConfig { script } c) _ := (progress_ofConfig c).1 delivers
  exact ⟨delivers, size ▸ progress⟩

end EcmaLex
