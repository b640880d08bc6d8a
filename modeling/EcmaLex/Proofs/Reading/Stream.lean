import EcmaLex.Proofs.Grammar.Unique
import EcmaLex.Proofs.Reading.Scan
import EcmaLex.Proofs.Source.BufferTape
import EcmaLex.Proofs.Source.Streams

/-!
Streams of tokens. What a stream answers is determined by the tape that its buffer follows, and the
answers tile the text ahead (`readAll_tiled`).
-/
namespace EcmaLex
open Text CharSource

variable {loc : Location} {text : List Char} {t t' : Tape} {p : Placed}

/-- The token that a scan leaves on a tape. -/
def Tape.token (file : String) (p : Placed) (t : Tape) : Token :=
  { kind := p.kind, lexeme := String.ofList (lexeme t), position := ⟨file, p.loc⟩ }

theorem Scanned.tile [Library] {mode : Mode} (scanned : Scanned mode loc text (some p) t') (file : String) :
    ∃ (tile : Tile) (rest : List Char), tile.token = t'.token file p ∧ text = tile.source ++ rest ∧
      tile.Fits file mode loc rest ∧ t'.At (loc.past tile.source) rest := by
  cases scanned with
  | @token gap slice rest items _ _ spaced oneLine read lexeme_ spot =>
    refine ⟨⟨gap, slice, t'.token file p⟩, rest, rfl, (List.append_assoc _ _ _).symm, ?_, ?_⟩
    · exact ⟨⟨items, spaced⟩, oneLine, read, congrArg String.ofList lexeme_, rfl⟩
    · rw [Tile.source, Location.past_append]
      exact spot

/-- What has been reported is not to be seen in the characters. -/
theorem SourceBuffer.Follows.clearLog {b : SourceBuffer} (follows : b.Follows t) :
    b.clearLog.Follows t := by
  obtain ⟨raw, holds, ahead, taken, last, ending⟩ := follows
  exact ⟨raw, holds.clearLog, ahead, taken, last, ending⟩

namespace TokenStream

variable {s s' : TokenStream} {token : Token}

/-- A stream that has not failed, and the tape it is on. -/
structure On (file : String) (mode : Mode) (t : Tape) (s : TokenStream) : Prop where
  follows : s.buffer.Follows t
  going : s.failed = false
  file : s.fileName = file
  mode : s.mode = mode

variable {file : String} {mode : Mode}

theorem On.ofConfig {reader : ByteReader} {bytes : List UInt8} (delivers : Delivers reader.script bytes)
    (c : Config) : (ofConfig reader c).On c.fileName c.mode
      (.ofText c.startLine (normalize (Utf8.lossy bytes))) :=
  ⟨.ofReader delivers c.bufferCapacity c.startLine, rfl, rfl, rfl⟩

theorem ofText_at (line : UInt32) (text : List Char) : (Tape.ofText line text).At ⟨line, 0⟩ text :=
  ⟨rfl, rfl⟩

theorem delivers_ofText (text : String) :
    Delivers (ByteReader.ofText text).script (Utf8.encode text.toList) := by
  have piece : Delivers [.piece (Utf8.encode text.toList)] (Utf8.encode text.toList ++ []) :=
    .piece _ .exhausted
  rwa [List.append_nil] at piece

variable [Library]

/-- The next token of a stream is the one on its tape. -/
theorem On.next (on : s.On file mode t) (scanned : scan mode t = (.ok p, t')) :
    ∃ s', s.next = (.ok (t'.token file p), s') ∧ s'.On file mode t' := by
  obtain ⟨follows, going, rfl, rfl⟩ := on
  obtain ⟨buffer, answered, follows'⟩ :=
    (SourceBuffer.simulation.converse.scan follows s.mode).answer scanned
  obtain ⟨log, read⟩ := next_scanned going answered
  have spelled : buffer.lexeme = lexeme t' := SourceBuffer.simulation.lexeme follows'
  have on' : { s with buffer := buffer.clearLog, log }.On s.fileName s.mode t' :=
    ⟨follows'.clearLog, going, rfl, rfl⟩
  refine ⟨_, read.trans ?_, on'⟩
  rw [Tape.token, ← spelled]
  rfl

/-- The next token of a stream is that of a tile, and the stream goes on behind it. -/
theorem On.next_tile (on : s.On file mode t) (spot : t.At loc text) :
    ∃ (tile : Tile) (rest : List Char) (s' : TokenStream) (t' : Tape),
      s.next = (.ok tile.token, s') ∧ s'.On file mode t' ∧
      text = tile.source ++ rest ∧ tile.Fits file mode loc rest ∧ t'.At (loc.past tile.source) rest := by
  obtain ⟨p, t', scanned, scanned'⟩ := scan_tape mode spot
  obtain ⟨s', next, on'⟩ := on.next scanned
  obtain ⟨tile, rest, token_, text_, fits, spot'⟩ := scanned'.tile file
  exact ⟨tile, rest, s', t', token_ ▸ next, on', text_, fits, spot'⟩

/-- The tokens of a stream tile the text that lies ahead. -/
theorem On.readAll_tiled (on : s.On file mode t) (spot : t.At loc text) :
    ∃ tiles : List Tile, s.readAll.1 = tiles.map (fun tile => .ok tile.token) ∧
      Tiled file mode loc text tiles := by
  induction s using readAll.induct generalizing t loc text with
  | case1 s cause s' read =>
    obtain ⟨_, _, _, _, next, _⟩ := on.next_tile spot
    cases read.symm.trans next
  | case2 s token s' read eof =>
    obtain ⟨tile, rest, _, _, next, _, rfl, fits, _⟩ := on.next_tile spot
    cases read.symm.trans next
    have kind : tile.token.kind = .eof := by simpa [Token.isEof] using eof
    obtain rfl : rest = [] := fits.read.ended kind
    rw [readAll_eof read eof, List.append_nil]
    exact ⟨[tile], rfl, .last fits kind⟩
  | case3 s token s' read more ih =>
    obtain ⟨tile, rest, _, _, next, on', rfl, fits, spot'⟩ := on.next_tile spot
    cases read.symm.trans next
    have kind : tile.token.kind ≠ .eof := by simpa [Token.isEof] using more
    obtain ⟨tiles, answers, tiled⟩ := ih on' spot'
    rw [readAll_more read (eq_false_of_ne_true more), answers]
    exact ⟨tile :: tiles, rfl, .more fits kind tiled⟩

/-- Streams on the same tape give the same tokens. -/
theorem On.readAll_eq {other : TokenStream} (on : s.On file mode t) (on' : other.On file mode t)
    (spot : t.At loc text) : s.readAll.1 = other.readAll.1 := by
  obtain ⟨tiles, answers, tiled⟩ := on.readAll_tiled spot
  obtain ⟨tiles', answers', tiled'⟩ := on'.readAll_tiled spot
  rw [answers, answers', tiled.functional tiled']

theorem readAll_ofText (c : Config) (text : String) :
    ∃ tiles : List Tile,
      (ofConfig (.ofText text) c).readAll.1 = tiles.map (fun tile => .ok tile.token) ∧
      Tiled c.fileName c.mode ⟨c.startLine, 0⟩ (normalize text.toList) tiles := by
  have on := On.ofConfig (delivers_ofText text) c
  rw [Utf8.lossy_encode] at on
  exact on.readAll_tiled (ofText_at _ _)

end TokenStream
end EcmaLex
