import EcmaLex.Proofs.Grammar.Modes
import EcmaLex.Proofs.Reading.Stream

/-!
Strict and sloppy streams. They agree on a text up to the first fault that the strict one finds, but for
the words that only strict code reserves.
-/
namespace EcmaLex
open Text TokenStream

def Token.loosen (t : Token) : Token := { t with kind := t.kind.loosen t.lexeme }

def Tile.loosen (t : Tile) : Tile := { t with token := t.token.loosen }

/-- The token is no fault. -/
def Token.sound (t : Token) : Bool := t.kind.fault?.isNone

variable {file : String} {loc : Location} {text after slice : List Char} {p : Placed} {t : Tile}
  {tiles tiles' : List Tile}

theorem TokenKind.IsPlain.loosen {kind : TokenKind} {lexeme : String} (plain : kind.IsPlain) :
    (kind.loosen lexeme).IsPlain := by
  unfold TokenKind.loosen
  split
  · simp [TokenKind.IsPlain]
  · exact plain

theorem TokenKind.loosen_eof {kind : TokenKind} {lexeme : String} :
    kind.loosen lexeme = .eof ↔ kind = .eof := by
  unfold TokenKind.loosen
  split
  · rename_i reserved
    simp [reserved.1]
  · exact Iff.rfl

variable [Library]

theorem ReadAs.loosen (read : ReadAs .strict loc after slice p) (sound : p.kind.fault? = none) :
    ReadAs .sloppy loc after slice ⟨p.kind.loosen (String.ofList (kept slice)), p.loc⟩ := by
  cases read with
  | ending none_ => exact .ending none_
  | lineBreak => exact .lineBreak
  | crossingComment closed crossed => exact .crossingComment closed crossed
  | openComment _ _ => cases sound
  | brokenEscape _ _ _ _ => cases sound
  | plain some_ opens leading plain =>
    have sloppy := leadingToken?_loosen leading sound
    rw [List.take_left] at sloppy
    rw [kept_of_plain opens]
    exact .plain some_ opens sloppy plain.loosen

theorem Tile.Fits.loosen (fits : t.Fits file .strict loc after) (sound : t.token.sound = true) :
    t.loosen.Fits file .sloppy loc after where
  gap := fits.gap
  oneLine := fits.oneLine
  read := by
    have read := fits.read.loosen (Option.isNone_iff_eq_none.1 sound)
    rwa [← fits.lexeme] at read
  lexeme := fits.lexeme
  file := fits.file

/-- Up to the first fault of the strict tiles, the sloppy ones are what these come to. -/
theorem Tiled.loosen (strict : Tiled file .strict loc text tiles)
    (sloppy : Tiled file .sloppy loc text tiles') :
    ∃ others, tiles' = (tiles.takeWhile (·.token.sound)).map Tile.loosen ++ others ∧
      ((∀ t ∈ tiles, t.token.sound = true) → others = []) := by
  induction strict generalizing tiles' with
  | @last loc tile fits eof =>
    have sound : tile.token.sound = true := by simp [Token.sound, eof, TokenKind.fault?]
    have loosened : Tiled file .sloppy loc tile.source [tile.loosen] :=
      .last (fits.loosen sound) (TokenKind.loosen_eof.2 eof)
    obtain rfl := sloppy.functional loosened
    exact ⟨[], by simp [sound], fun _ => rfl⟩
  | @more loc rest tile tiles fits more _ ih =>
    cases sound : tile.token.sound with
    | false => exact ⟨tiles', by simp [sound], fun all => by simp [sound] at all⟩
    | true =>
      have loosened := fits.loosen sound
      obtain ⟨tile', others, rfl, alike, fits', _, later⟩ := loosened.first sloppy
      obtain rfl := alike.eq loosened fits'
      obtain ⟨others, rfl, all⟩ := ih (later (mt TokenKind.loosen_eof.1 more))
      refine ⟨others, by simp [sound], fun sound => all fun t member => ?_⟩
      exact sound t (List.mem_cons_of_mem _ member)

/-- Strict and sloppy streams agree before the first fault of the strict one, and altogether if it has
none, except that a word reserved in strict code only is a name in sloppy code. -/
theorem readAll_loosen (text : String) (c : Config) :
    ∃ strict sloppy : List Token,
      (ofConfig (.ofText text) { c with mode := .strict }).readAll.1 = strict.map .ok ∧
      (ofConfig (.ofText text) { c with mode := .sloppy }).readAll.1 = sloppy.map .ok ∧
      ∃ others, sloppy = (strict.takeWhile Token.sound).map Token.loosen ++ others ∧
        ((∀ t ∈ strict, t.sound = true) → others = []) := by
  obtain ⟨tiles, answers, strict⟩ := readAll_ofText { c with mode := .strict } text
  obtain ⟨tiles', answers', sloppy⟩ := readAll_ofText { c with mode := .sloppy } text
  obtain ⟨others, same, all⟩ := strict.loosen sloppy
  refine ⟨tiles.map (·.token), tiles'.map (·.token), ?_, ?_, others.map (·.token), ?_, ?_⟩
  · rw [answers, List.map_map]
    rfl
  · rw [answers', List.map_map]
    rfl
  · rw [same, List.map_append, List.takeWhile_map, List.map_map, List.map_map]
    rfl
  · intro sound
    rw [all fun t member => sound t.token (List.mem_map_of_mem member)]
    rfl

end EcmaLex
