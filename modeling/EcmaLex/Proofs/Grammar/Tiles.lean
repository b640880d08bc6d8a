import EcmaLex.Proofs.Grammar.LeadingToken

/-!
How tokens cover a text. Each token has a slice of the text and the gap before it; gaps hold trivia of
one line only, and the last token is the end of input.
-/
namespace EcmaLex
open Text

/-- The kinds that need nothing of their slice but that it is there. -/
def TokenKind.IsPlain (kind : TokenKind) : Prop :=
  kind ≠ .eof ∧ kind ≠ .eol ∧ kind ≠ .error .unterminatedComment ∧
    kind ≠ .error .malformedEscapeSequence

def opensComment (slice : List Char) : Bool := slice.take 2 = ['/', '*']

/-- The lexeme of a slice. Only a block comment loses its format controls. -/
def kept (slice : List Char) : List Char := if opensComment slice then visible slice else slice

/-- A token with its slice of the text and the gap before it. -/
structure Tile where
  gap : List Char
  slice : List Char
  token : Token
  deriving DecidableEq, Repr

namespace Tile

def source (t : Tile) : List Char := t.gap ++ t.slice

def placed (t : Tile) : Placed := ⟨t.token.kind, t.token.position.location⟩

end Tile

def covered (tiles : List Tile) : List Char := tiles.flatMap Tile.source

/-- What a tile that stands before `after` has to do with the text. -/
structure Tile.Covers (after : List Char) (t : Tile) : Prop where
  gap : ∃ items, Spaced (t.slice ++ after) t.gap items
  oneLine : '\n' ∉ t.gap
  eof_iff : t.slice = [] ↔ t.token.kind = .eof
  lexeme : t.token.lexeme = String.ofList (kept t.slice)
  /-- What opens as a block comment is a line break or an unterminated comment. -/
  comment : opensComment t.slice = true → ∃ body, t.slice = '/' :: '*' :: body ∧
    (t.token.kind = .eol ∧ ClosedComment body ∧ '\n' ∈ body ∨
      t.token.kind = .error .unterminatedComment ∧ OpenComment body ∧ after = [])

/-- The tiles cover the text without loss, and only the last of them is the end of input. -/
structure Tiling (text : List Char) (tiles : List Tile) : Prop where
  text : text = tiles.flatMap fun t => t.gap ++ t.slice
  covers {before t after} : tiles = before ++ t :: after → t.Covers (covered after)
  last {before t after} : tiles = before ++ t :: after → (t.token.kind = .eof ↔ after = [])

@[simp] theorem covered_nil : covered [] = [] := rfl

@[simp] theorem covered_cons (t : Tile) (tiles : List Tile) :
    covered (t :: tiles) = t.source ++ covered tiles := List.flatMap_cons

@[simp] theorem covered_append (first second : List Tile) :
    covered (first ++ second) = covered first ++ covered second := List.flatMap_append

variable {file : String} {mode : Mode} {loc : Location} {after slice : List Char} {p : Placed}

theorem kept_of_plain (plain : opensComment slice = false) : kept slice = slice := by
  rw [kept, plain]
  rfl

theorem opensComment_append (opens : opensComment slice = true) :
    opensComment (slice ++ after) = true := by
  simp only [opensComment, decide_eq_true_eq] at opens ⊢
  rw [← List.take_append_drop 2 slice, opens]
  rfl

variable [Library]

/-- What a slice that starts at `loc` and stands before `after` is read as. -/
inductive ReadAs (mode : Mode) (loc : Location) (after : List Char) : List Char → Placed → Prop
  | ending : after = [] → ReadAs mode loc after [] ⟨.eof, loc⟩
  | lineBreak : ReadAs mode loc after ['\n'] ⟨.eol, loc⟩
  | crossingComment {body} : ClosedComment body → '\n' ∈ body →
      ReadAs mode loc after ('/' :: '*' :: body) ⟨.eol, loc⟩
  | openComment {body} : OpenComment body → after = [] →
      ReadAs mode loc after ('/' :: '*' :: body) ⟨.error .unterminatedComment, loc⟩
  | brokenEscape {slice k} : slice ≠ [] → opensComment slice = false →
      leadingToken? mode (slice ++ after) = some (.error .malformedEscapeSequence, slice.length) →
      brokenEscape? mode slice = some k →
      ReadAs mode loc after slice ⟨.error .malformedEscapeSequence, loc.past (slice.take k)⟩
  | plain {slice kind} : slice ≠ [] → opensComment slice = false →
      leadingToken? mode (slice ++ after) = some (kind, slice.length) → kind.IsPlain →
      ReadAs mode loc after slice ⟨kind, loc⟩

/-- A tile may stand at `loc`, before `after`. -/
structure Tile.Fits (file : String) (mode : Mode) (loc : Location) (after : List Char) (t : Tile) :
    Prop where
  gap : ∃ items, Spaced (t.slice ++ after) t.gap items
  oneLine : '\n' ∉ t.gap
  read : ReadAs mode (loc.past t.gap) after t.slice t.placed
  lexeme : t.token.lexeme = String.ofList (kept t.slice)
  file : t.token.position.file = file

/-- The tiles cover the text from `loc` on, and the last of them is the end of input. -/
inductive Tiled (file : String) (mode : Mode) : Location → List Char → List Tile → Prop
  | last {loc tile} : tile.Fits file mode loc [] → tile.token.kind = .eof →
      Tiled file mode loc tile.source [tile]
  | more {loc rest tile tiles} : tile.Fits file mode loc rest → tile.token.kind ≠ .eof →
      Tiled file mode (loc.past tile.source) rest tiles →
      Tiled file mode loc (tile.source ++ rest) (tile :: tiles)

theorem leadingToken?_opensComment (opens : opensComment slice = true) :
    leadingToken? mode slice = none := by
  simp only [opensComment, decide_eq_true_eq] at opens
  rw [← List.take_append_drop 2 slice, opens]
  rfl

theorem ReadAs.eof_iff (read : ReadAs mode loc after slice p) : slice = [] ↔ p.kind = .eof := by
  cases read with
  | ending _ => simp
  | lineBreak => simp
  | crossingComment _ _ => simp
  | openComment _ _ => simp
  | brokenEscape some_ _ _ _ => simp [some_]
  | plain some_ _ _ plain => simp [some_, plain.1]

theorem ReadAs.ended (read : ReadAs mode loc after slice p) (eof : p.kind = .eof) : after = [] := by
  cases read with
  | ending none_ => exact none_
  | lineBreak => cases eof
  | crossingComment _ _ => cases eof
  | openComment _ _ => cases eof
  | brokenEscape _ _ _ _ => cases eof
  | plain _ _ _ plain => exact absurd eof plain.1

theorem ReadAs.eol (read : ReadAs mode loc after slice p) (kind : p.kind = .eol) :
    slice = ['\n'] ∨ ∃ body, slice = '/' :: '*' :: body ∧ ClosedComment body ∧ '\n' ∈ body := by
  cases read with
  | ending _ => cases kind
  | lineBreak => exact .inl rfl
  | crossingComment closed crossed => exact .inr ⟨_, rfl, closed, crossed⟩
  | openComment _ _ => cases kind
  | brokenEscape _ _ _ _ => cases kind
  | plain _ _ _ plain => exact absurd kind plain.2.1

theorem ReadAs.comment (read : ReadAs mode loc after slice p) (opens : opensComment slice = true) :
    ∃ body, slice = '/' :: '*' :: body ∧
      (p.kind = .eol ∧ ClosedComment body ∧ '\n' ∈ body ∨
        p.kind = .error .unterminatedComment ∧ OpenComment body ∧ after = []) := by
  cases read with
  | ending _ => cases opens
  | lineBreak => cases opens
  | crossingComment closed crossed => exact ⟨_, rfl, .inl ⟨rfl, closed, crossed⟩⟩
  | openComment opened none_ => exact ⟨_, rfl, .inr ⟨rfl, opened, none_⟩⟩
  | brokenEscape _ other _ _ => rw [opens] at other; cases other
  | plain _ other _ _ => rw [opens] at other; cases other

/-- Only a broken escape is reported inside its slice. -/
theorem ReadAs.place (read : ReadAs mode loc after slice p) :
    p.loc = loc ∧ p.kind ≠ .error .malformedEscapeSequence ∨
      p.kind = .error .malformedEscapeSequence ∧
        ∃ k, brokenEscape? mode slice = some k ∧ p.loc = loc.past (slice.take k) := by
  cases read with
  | ending _ => exact .inl ⟨rfl, by simp⟩
  | lineBreak => exact .inl ⟨rfl, by simp⟩
  | crossingComment _ _ => exact .inl ⟨rfl, by simp⟩
  | openComment _ _ => exact .inl ⟨rfl, by simp⟩
  | brokenEscape _ _ _ broken => exact .inr ⟨rfl, _, broken, rfl⟩
  | plain _ _ _ plain => exact .inl ⟨rfl, plain.2.2.2⟩

variable {text : List Char} {tiles : List Tile}

theorem Tiled.text_eq (tiled : Tiled file mode loc text tiles) : text = covered tiles := by
  induction tiled with
  | last _ _ => simp
  | more _ _ _ ih => rw [covered_cons, ← ih]

theorem Tiled.ne_nil (tiled : Tiled file mode loc text tiles) : tiles ≠ [] := by
  cases tiled <;> simp

theorem Tiled.tail {others : List Tile} {t : Tile} (tiled : Tiled file mode loc text (t :: others))
    (some_ : others ≠ []) : Tiled file mode (loc.past t.source) (covered others) others := by
  cases tiled with
  | last _ _ => exact absurd rfl some_
  | more _ _ rest => exact rest.text_eq ▸ rest

theorem Tiled.drop {front others : List Tile} (tiled : Tiled file mode loc text (front ++ others))
    (some_ : others ≠ []) :
    Tiled file mode (loc.past (covered front)) (covered others) others := by
  induction front generalizing loc text with
  | nil => exact tiled.text_eq ▸ tiled
  | cons first front ih =>
    rw [covered_cons, Location.past_append]
    exact ih (tiled.tail (by simp [some_]))

theorem Tiled.head {others : List Tile} {t : Tile} (tiled : Tiled file mode loc text (t :: others)) :
    t.Fits file mode loc (covered others) ∧ (t.token.kind = .eof ↔ others = []) := by
  cases tiled with
  | last fits eof => exact ⟨fits, by simp [eof]⟩
  | more fits more rest => exact ⟨rest.text_eq ▸ fits, by simp [more, rest.ne_nil]⟩

/-- A tile stands where the tiles before it end, and before what the tiles after it cover. -/
theorem Tiled.fits {before others : List Tile} {t : Tile}
    (tiled : Tiled file mode loc text (before ++ t :: others)) :
    t.Fits file mode (loc.past (covered before)) (covered others) ∧
      (t.token.kind = .eof ↔ others = []) :=
  (tiled.drop (List.cons_ne_nil t others)).head

theorem Tiled.eof_last (tiled : Tiled file mode loc text tiles) :
    ∃ front last, tiles = front ++ [last] ∧ last.token.kind = .eof ∧
      ∀ t ∈ front, t.token.kind ≠ .eof := by
  induction tiled with
  | @last loc tile _ eof => exact ⟨[], tile, rfl, eof, by simp⟩
  | @more loc rest tile tiles _ more _ ih =>
    obtain ⟨front, last, rfl, eof, others⟩ := ih
    refine ⟨tile :: front, last, rfl, eof, ?_⟩
    intro t member
    rcases List.mem_cons.1 member with rfl | later
    · exact more
    · exact others t later

theorem Tile.Fits.covers {t : Tile} (fits : t.Fits file mode loc after) : t.Covers after where
  gap := fits.gap
  oneLine := fits.oneLine
  eof_iff := fits.read.eof_iff
  lexeme := fits.lexeme
  comment := fits.read.comment

theorem Tiled.tiling (tiled : Tiled file mode loc text tiles) : Tiling text tiles where
  text := tiled.text_eq
  covers := by
    rintro before t after rfl
    exact tiled.fits.1.covers
  last := by
    rintro before t after rfl
    exact tiled.fits.2

end EcmaLex
