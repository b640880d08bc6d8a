import EcmaLex.Library.Running
import EcmaLex.Proofs.Reading.Stream

/-!
Nothing is remembered from one token to the next. What a stream answers after some tokens is what a new
stream answers to the rest of the text, but for the columns on the line where the rest begins.
-/
namespace EcmaLex
open Text TokenStream

/-- A place so many columns further on its line. -/
def Location.right (loc : Location) (columns : UInt32) : Location :=
  { loc with column := loc.column + columns }

def Token.right (t : Token) (columns : UInt32) : Token :=
  { t with position := { t.position with location := t.position.location.right columns } }

/-- A line feed ends what the column of the start has to do with a place. -/
theorem Location.right_past (loc : Location) (columns : UInt32) (text : List Char) :
    (loc.right columns).past text =
      if '\n' ∈ text then loc.past text else (loc.past text).right columns := by
  induction text generalizing loc with
  | nil => rfl
  | cons c text ih =>
    rw [past_cons, past_cons]
    by_cases feed : c = '\n'
    · simp [after, right, feed]
    · have next : (loc.right columns).after c = (loc.after c).right columns := by
        have swapped : loc.column + columns + 1 = loc.column + 1 + columns := by ac_rfl
        simp [after, right, feed, swapped]
      simp [next, ih, Ne.symm feed]

section
variable [Library]

/-- How far into its slice a token is reported: only a broken escape is reported behind the start. -/
def reportedAt (mode : Mode) (slice : List Char) (kind : TokenKind) : Nat :=
  if kind = .error .malformedEscapeSequence then (brokenEscape? mode slice).getD 0 else 0

/-- What a tile covers before the place that its token reports. -/
def Tile.lead (mode : Mode) (t : Tile) : List Char :=
  t.gap ++ t.slice.take (reportedAt mode t.slice t.token.kind)

/-- A tile of a text whose first line goes on at a column: what is reported on that line stands so many
columns further. -/
def Tile.right (mode : Mode) (columns : UInt32) (t : Tile) : Tile :=
  { t with token := if '\n' ∈ t.lead mode then t.token else t.token.right columns }

def shiftFirstLine (mode : Mode) (columns : UInt32) : List Tile → List Tile
  | [] => []
  | t :: tiles =>
    t.right mode columns :: if '\n' ∈ t.source then tiles else shiftFirstLine mode columns tiles

variable {file : String} {mode : Mode} {loc : Location} {text after slice : List Char}
  {p : Placed} {t : Tile} {tiles : List Tile}

theorem Tile.token_right (t : Tile) (columns : UInt32) :
    (t.right mode columns).token.kind = t.token.kind ∧
      (t.right mode columns).token.lexeme = t.token.lexeme ∧
      (t.right mode columns).token.position.file = t.token.position.file := by
  rw [Tile.right]
  split <;> exact ⟨rfl, rfl, rfl⟩

theorem ReadAs.reported (read : ReadAs mode loc after slice p) :
    p.loc = loc.past (slice.take (reportedAt mode slice p.kind)) := by
  rcases read.place with ⟨place, other⟩ | ⟨malformed, k, broken, place⟩
  · rw [place, reportedAt, if_neg other]
    rfl
  · rw [place, reportedAt, if_pos malformed, broken, Option.getD_some]

/-- What a slice is read as does not depend on where it stands. -/
theorem ReadAs.moved (read : ReadAs mode loc after slice p) (start : Location) :
    ReadAs mode start after slice
      ⟨p.kind, start.past (slice.take (reportedAt mode slice p.kind))⟩ := by
  cases read with
  | ending none_ => exact .ending none_
  | lineBreak => exact .lineBreak
  | crossingComment closed crossed => exact .crossingComment closed crossed
  | openComment opened none_ => exact .openComment opened none_
  | @brokenEscape _ k some_ opens leading broken =>
    have at_ : reportedAt mode slice (.error .malformedEscapeSequence) = k := by
      rw [reportedAt, if_pos rfl, broken, Option.getD_some]
    rw [at_]
    exact .brokenEscape some_ opens leading broken
  | plain some_ opens leading plain =>
    rw [reportedAt, if_neg plain.2.2.2]
    exact .plain some_ opens leading plain

theorem Tile.Fits.right (fits : t.Fits file mode loc after) (columns : UInt32) :
    (t.right mode columns).Fits file mode (loc.right columns) after where
  gap := fits.gap
  oneLine := fits.oneLine
  read := by
    have place : (t.right mode columns).placed =
        ⟨t.token.kind, (loc.right columns).past (t.lead mode)⟩ := by
      have own : t.token.position.location = loc.past (t.lead mode) :=
        fits.read.reported.trans (Location.past_append _ _ _).symm
      rw [Location.right_past, ← own, Tile.placed, Tile.right]
      split <;> rfl
    rw [place, Tile.lead, Location.past_append]
    exact fits.read.moved _
  lexeme := (t.token_right columns).2.1.trans fits.lexeme
  file := (t.token_right columns).2.2.trans fits.file

theorem Tiled.right (tiled : Tiled file mode loc text tiles) (columns : UInt32) :
    Tiled file mode (loc.right columns) text (shiftFirstLine mode columns tiles) := by
  induction tiled with
  | @last loc tile fits eof =>
    rw [shiftFirstLine, shiftFirstLine, ite_self]
    exact .last (fits.right columns) ((tile.token_right columns).1.trans eof)
  | @more loc rest tile tiles fits more tiled ih =>
    refine .more (fits.right columns) (fun eof => more ((tile.token_right columns).1.symm.trans eof)) ?_
    change Tiled file mode ((loc.right columns).past tile.source) rest _
    rw [Location.right_past]
    split
    · exact tiled
    · exact ih

namespace TokenStream

variable {s : TokenStream} {tape : Tape}

/-- The stream after so many tokens. -/
def skip : Nat → TokenStream → TokenStream
  | 0, s => s
  | k + 1, s => skip k s.next.2

/-- A stream stands where the tiles it has answered end. -/
theorem On.skip (on : s.On file mode tape) (spot : tape.At loc text)
    (tiled : Tiled file mode loc text tiles) (k : Nat) :
    ∃ tape', (s.skip k).On file mode tape' ∧
      tape'.At (loc.past (covered (tiles.take k))) (covered (tiles.drop k)) := by
  induction k generalizing s tape loc text tiles with
  | zero => exact ⟨tape, on, tiled.text_eq ▸ spot⟩
  | succ k ih =>
    obtain ⟨tile, rest, s₁, tape₁, next, on₁, rfl, fits, spot₁⟩ := on.next_tile spot
    have stepped : s.skip (k + 1) = s₁.skip k := by rw [TokenStream.skip, next]
    obtain ⟨tile', others, rfl, alike, _, last, later⟩ := fits.first tiled
    rw [stepped, List.take_succ_cons, List.drop_succ_cons, covered_cons, Location.past_append,
      ← alike.source]
    by_cases eof : tile.token.kind = .eof
    · -- At the end of the text every further token is the end of input.
      obtain rfl := last eof
      obtain rfl : rest = [] := fits.read.ended eof
      obtain ⟨ends, _, tiled⟩ := on₁.readAll_tiled spot₁
      obtain ⟨tape', on', spot'⟩ := ih on₁ spot₁ tiled
      have none_ := tiled.text_eq.symm
      rw [← List.take_append_drop k ends, covered_append, List.append_eq_nil_iff] at none_
      rw [none_.1, none_.2] at spot'
      exact ⟨tape', on', by simpa using spot'⟩
    · have tiled' := later eof
      rw [← alike.source] at tiled'
      exact ih on₁ spot₁ tiled'

end TokenStream

/-- After any number of tokens a stream goes on like a new one that starts on the line reached, with the
columns on that line counted from the one reached. -/
theorem readAll_resume (text : String) (plain : LineFeedOnly text.toList) (c : Config) :
    ∃ tiles : List Tile, (ofConfig (.ofText text) c).readAll.1 = tiles.map (fun t => .ok t.token) ∧
      Tiling text.toList tiles ∧
      ∀ k capacity,
        let rest := String.ofList (covered (tiles.drop k))
        let start := Location.locate c.startLine (covered (tiles.take k))
        let later := (ofConfig (.ofText text) c).skip k
        let fresh := ofConfig (.ofText rest)
          { c with startLine := start.line, bufferCapacity := capacity }
        (∃ new : List Tile, fresh.readAll.1 = new.map (fun t => .ok t.token) ∧
          Tiling (covered (tiles.drop k)) new ∧
          later.readAll.1 =
            (shiftFirstLine c.mode start.column new).map (fun t => .ok t.token)) ∧
          (k < tiles.length → (ofConfig (.ofText text) c).readAll.1.drop k = later.readAll.1) := by
  obtain ⟨tiles, answers, tiled⟩ := readAll_ofText c text
  rw [plain.normalize_eq] at tiled
  refine ⟨tiles, answers, tiled.tiling, ?_⟩
  intro k capacity rest start later fresh
  have split : covered (tiles.take k) ++ covered (tiles.drop k) = text.toList := by
    rw [← covered_append, List.take_append_drop, tiled.text_eq]
  -- What the stream answers after `k` tokens tiles the rest of the text from `start` on.
  have on := On.ofConfig (delivers_ofText text) c
  rw [Utf8.lossy_encode, plain.normalize_eq] at on
  obtain ⟨tape, on', spot⟩ := on.skip (ofText_at _ _) tiled k
  rw [Location.past_start] at spot
  obtain ⟨tiles', answers', tiled'⟩ := on'.readAll_tiled spot
  refine ⟨?_, ?_⟩
  · obtain ⟨new, newAnswers, newTiled⟩ := readAll_ofText
      { c with startLine := start.line, bufferCapacity := capacity } rest
    have plainRest : LineFeedOnly rest.toList := by
      rw [String.toList_ofList]
      exact plain.mono (split ▸ List.subset_append_right _ _)
    rw [plainRest.normalize_eq, String.toList_ofList] at newTiled
    have shifted := newTiled.right start.column
    rw [Location.right, UInt32.zero_add] at shifted
    exact ⟨new, newAnswers, newTiled.tiling, by rw [answers', tiled'.functional shifted]⟩
  · intro inside
    have some_ : tiles.drop k ≠ [] := fun none_ => Nat.not_lt.2 (List.drop_eq_nil_iff.1 none_) inside
    have later' := (tiles.take_append_drop k ▸ tiled).drop some_
    rw [Location.past_start] at later'
    rw [answers, answers', tiled'.functional later', List.map_drop]

end

open Running

/-- A string with a line continuation, a comment over a line break and a word that begins in the middle
of its line. -/
theorem readAll_resume_midline :
    let text := "s = 'a\\\nb' /*\n*/ d e"
    let c : Config := { mode := .strict, startLine := 7 }
    LineFeedOnly text.toList ∧
      ∃ tiles : List Tile, (ofConfig (.ofText text) c).readAll.1 = tiles.map (fun t => .ok t.token) ∧
        Tiling text.toList tiles ∧
        ∀ k capacity,
          let rest := String.ofList (covered (tiles.drop k))
          let start := Location.locate c.startLine (covered (tiles.take k))
          let later := (ofConfig (.ofText text) c).skip k
          let fresh := ofConfig (.ofText rest)
            { c with startLine := start.line, bufferCapacity := capacity }
          (∃ new : List Tile, fresh.readAll.1 = new.map (fun t => .ok t.token) ∧
            Tiling (covered (tiles.drop k)) new ∧
            later.readAll.1 =
              (shiftFirstLine c.mode start.column new).map (fun t => .ok t.token)) ∧
            (k < tiles.length →
              (ofConfig (.ofText text) c).readAll.1.drop k = later.readAll.1) := by
  intro text c
  have plain : LineFeedOnly text.toList := by simp [text, LineFeedOnly, isLineTerminator]
  exact ⟨plain, readAll_resume text plain c⟩

end EcmaLex
