import EcmaLex.Proofs.Grammar.Tiles

/-!
The tiles of a text. Neither the place where a text starts nor the name of its file decides how it is
cut: two ways to tile it differ in places only (`Tiled.unique`).
-/
namespace EcmaLex
open Text

variable {file file' : String} {mode : Mode} {loc loc' : Location}
  {text after after' slice slice' : List Char} {p p' : Placed}

theorem OpenComment.not_closed {body body' rest : List Char} (opened : OpenComment body)
    (closed : ClosedComment body') : body ≠ body' ++ rest := by
  rintro rfl
  exact opened body' (List.prefix_append body' rest) closed.1

/-- Tiles that differ in places only. -/
structure Tile.Alike (t t' : Tile) : Prop where
  gap : t.gap = t'.gap
  slice : t.slice = t'.slice
  kind : t.token.kind = t'.token.kind
  lexeme : t.token.lexeme = t'.token.lexeme

theorem Tile.Alike.source {t t' : Tile} (alike : t.Alike t') : t.source = t'.source := by
  rw [Tile.source, Tile.source, alike.gap, alike.slice]

variable [Library]

theorem leadingToken?_trivia {item : Trivia} {rest : List Char} (stands : item.Stands rest) :
    leadingToken? mode (item.source ++ rest) = none := by
  cases item with
  | blank c => exact if_pos (.inl stands)
  | lineBreak => rfl
  | lineComment body => rfl
  | blockComment body => exact leadingToken?_opensComment rfl

/-- A text that begins with a token is read by that token. -/
theorem ReadAs.leading {told : TokenKind × Nat} (read : ReadAs mode loc after slice p)
    (leading : leadingToken? mode (slice ++ after) = some told) :
    told = (p.kind, slice.length) := by
  cases read with
  | ending none_ =>
    subst none_
    cases leading
  | lineBreak => cases leading
  | crossingComment _ _ =>
    rw [leadingToken?_opensComment (opensComment_append rfl)] at leading
    cases leading
  | openComment _ _ =>
    rw [leadingToken?_opensComment (opensComment_append rfl)] at leading
    cases leading
  | brokenEscape _ _ same _ => exact Option.some.inj (leading.symm.trans same)
  | plain _ _ same _ => exact Option.some.inj (leading.symm.trans same)

/-- What is read begins with no trivia but a line break and a comment over one. -/
theorem ReadAs.standsOut (read : ReadAs mode loc after slice p) : StandsOut (slice ++ after) := by
  intro item rest stands same
  have noToken : leadingToken? mode (slice ++ after) = none := by rw [same, leadingToken?_trivia stands]
  cases read with
  | ending none_ =>
    subst none_
    exact absurd (List.append_eq_nil_iff.1 same.symm).1 item.source_ne_nil
  | lineBreak =>
    have own : Trivia.lineBreak.Stands after := trivial
    obtain ⟨rfl, _⟩ := own.unique stands same
    exact List.mem_singleton_self _
  | @crossingComment body closed crossed =>
    have own : (Trivia.blockComment body).Stands after := closed
    obtain ⟨rfl, _⟩ := own.unique stands same
    exact List.mem_cons_of_mem _ (List.mem_cons_of_mem _ crossed)
  | @openComment body opened none_ =>
    subst none_
    rw [List.append_nil] at same
    cases item with
    | blank c =>
      have solidus : isBlank c = false := (List.cons.inj same).1 ▸ rfl
      exact absurd (solidus.symm.trans stands) Bool.false_ne_true
    | lineBreak => cases same
    | lineComment _ => simp [Trivia.source] at same
    | blockComment body' =>
      exact absurd (List.cons.inj (List.cons.inj same).2).2 (opened.not_closed stands)
  | brokenEscape _ _ leading _ =>
    rw [noToken] at leading
    cases leading
  | plain _ _ leading _ =>
    rw [noToken] at leading
    cases leading

theorem ReadAs.of_lineBreak {rest : List Char} (read : ReadAs mode loc after slice p)
    (begins : slice ++ after = '\n' :: rest) : slice = ['\n'] ∧ p.kind = .eol := by
  have noToken : leadingToken? mode (slice ++ after) = none := by rw [begins]; rfl
  cases read with
  | ending none_ => simp [none_] at begins
  | lineBreak => exact ⟨rfl, rfl⟩
  | crossingComment _ _ => simp at begins
  | openComment _ _ => simp at begins
  | brokenEscape _ _ leading _ => rw [noToken] at leading; cases leading
  | plain _ _ leading _ => rw [noToken] at leading; cases leading

theorem ReadAs.of_comment (read : ReadAs mode loc after slice p)
    (begins : opensComment (slice ++ after) = true) : opensComment slice = true := by
  cases read with
  | ending none_ => simp [none_, opensComment] at begins
  | lineBreak => simp [opensComment] at begins
  | crossingComment _ _ => rfl
  | openComment _ _ => rfl
  | brokenEscape _ _ leading _ => rw [leadingToken?_opensComment begins] at leading; cases leading
  | plain _ _ leading _ => rw [leadingToken?_opensComment begins] at leading; cases leading

/-- A text is read in one way only. -/
theorem ReadAs.unique (read : ReadAs mode loc after slice p) (read' : ReadAs mode loc' after' slice' p')
    (same : slice ++ after = slice' ++ after') : slice = slice' ∧ after = after' ∧ p.kind = p'.kind := by
  have length {told : TokenKind × Nat} (leading : leadingToken? mode (slice ++ after) = some told) :
      slice = slice' ∧ after = after' ∧ p.kind = p'.kind := by
    have first := read.leading leading
    have second := read'.leading (same ▸ leading)
    obtain ⟨kinds, lengths⟩ := Prod.mk.inj (first.symm.trans second)
    obtain ⟨slices, afters⟩ := List.append_inj same lengths
    exact ⟨slices, afters, kinds⟩
  cases read with
  | ending none_ =>
    subst none_
    obtain ⟨rfl, rfl⟩ := List.append_eq_nil_iff.1 same.symm
    exact ⟨rfl, rfl, (read'.eof_iff.1 rfl).symm⟩
  | lineBreak =>
    obtain ⟨rfl, kind⟩ := read'.of_lineBreak same.symm
    exact ⟨rfl, (List.cons.inj same).2, kind.symm⟩
  | @crossingComment body closed crossed =>
    obtain ⟨body', rfl, ⟨kind, closed', _⟩ | ⟨kind, opened, none_⟩⟩ :=
      read'.comment (read'.of_comment (same ▸ rfl))
    · obtain ⟨rfl, afters⟩ := closed.unique closed' (List.cons.inj (List.cons.inj same).2).2
      exact ⟨rfl, afters, kind.symm⟩
    · subst none_
      rw [List.append_nil] at same
      exact absurd (List.cons.inj (List.cons.inj same).2).2.symm (opened.not_closed closed)
  | @openComment body opened none_ =>
    subst none_
    rw [List.append_nil] at same
    obtain ⟨body', rfl, ⟨_, closed, _⟩ | ⟨kind, _, none_⟩⟩ :=
      read'.comment (read'.of_comment (same ▸ rfl))
    · exact absurd (List.cons.inj (List.cons.inj same).2).2 (opened.not_closed closed)
    · subst none_
      rw [List.append_nil] at same
      exact ⟨same, rfl, kind.symm⟩
  | brokenEscape _ _ leading _ => exact length leading
  | plain _ _ leading _ => exact length leading

/-- What is read at the same place is reported at the same place. -/
theorem ReadAs.loc_eq (read : ReadAs mode loc after slice p) (read' : ReadAs mode loc after' slice p')
    (kinds : p.kind = p'.kind) : p.loc = p'.loc := by
  rcases read.place with ⟨place, other⟩ | ⟨malformed, k, broken, place⟩ <;>
    rcases read'.place with ⟨place', other'⟩ | ⟨malformed', k', broken', place'⟩
  · rw [place, place']
  · exact absurd (kinds.trans malformed') other
  · exact absurd (kinds.symm.trans malformed) other'
  · obtain rfl : k = k' := Option.some.inj (broken.symm.trans broken')
    rw [place, place']

theorem Tile.Fits.unique {t t' : Tile} (fits : t.Fits file mode loc after)
    (fits' : t'.Fits file' mode loc' after') (same : t.source ++ after = t'.source ++ after') :
    t.Alike t' ∧ after = after' := by
  obtain ⟨items, spaced⟩ := fits.gap
  obtain ⟨items', spaced'⟩ := fits'.gap
  rw [Tile.source, Tile.source, List.append_assoc, List.append_assoc] at same
  obtain ⟨gaps, rests⟩ := spaced.gap_unique spaced' fits.oneLine fits'.oneLine fits.read.standsOut
    fits'.read.standsOut same
  obtain ⟨slices, afters, kinds⟩ := fits.read.unique fits'.read rests
  refine ⟨⟨gaps, slices, kinds, ?_⟩, afters⟩
  rw [fits.lexeme, fits'.lexeme, slices]

/-- A tile that fits at the start of a text is the first one of the text. -/
theorem Tile.Fits.first {t : Tile} {tiles : List Tile} (fits : t.Fits file mode loc after)
    (tiled : Tiled file' mode loc' (t.source ++ after) tiles) :
    ∃ t' others, tiles = t' :: others ∧ t.Alike t' ∧ t'.Fits file' mode loc' after ∧
      (t.token.kind = .eof → others = []) ∧
      (t.token.kind ≠ .eof → Tiled file' mode (loc'.past t'.source) after others) := by
  generalize same : t.source ++ after = text at tiled
  cases tiled with
  | @last _ t' fits' eof =>
    obtain ⟨alike, rfl⟩ := fits.unique fits' (same.trans (List.append_nil _).symm)
    exact ⟨t', [], rfl, alike, fits', fun _ => rfl, fun more => absurd (alike.kind.trans eof) more⟩
  | @more _ rest t' others fits' more tiled =>
    obtain ⟨alike, rfl⟩ := fits.unique fits' same
    exact ⟨t', others, rfl, alike, fits', fun eof => absurd (alike.kind ▸ eof) more, fun _ => tiled⟩

theorem Tile.Alike.eq {t t' : Tile} (alike : t.Alike t') (fits : t.Fits file mode loc after)
    (fits' : t'.Fits file mode loc after') : t = t' := by
  have own : ReadAs mode (loc.past t.gap) after' t.slice t'.placed := by
    rw [alike.gap, alike.slice]
    exact fits'.read
  have place : t.token.position.location = t'.token.position.location :=
    ReadAs.loc_eq fits.read own alike.kind
  have file := fits.file.trans fits'.file.symm
  obtain ⟨gap, slice, kind, lexeme, file_, location⟩ := t
  obtain ⟨gap', slice', kind', lexeme', file_', location'⟩ := t'
  obtain ⟨rfl, rfl, rfl, rfl⟩ := alike
  cases place
  cases file
  rfl

/-- Two ways to tile a text differ in places only. -/
theorem Tiled.unique {tiles tiles' : List Tile} (tiled : Tiled file mode loc text tiles)
    (tiled' : Tiled file' mode loc' text tiles') : List.Forall₂ Tile.Alike tiles tiles' := by
  induction tiled generalizing loc' tiles' with
  | @last loc tile fits eof =>
    rw [← List.append_nil tile.source] at tiled'
    obtain ⟨tile', others, rfl, alike, _, last, _⟩ := fits.first tiled'
    obtain rfl := last eof
    exact .cons alike .nil
  | more fits more _ ih =>
    obtain ⟨tile', others, rfl, alike, _, _, later⟩ := fits.first tiled'
    exact .cons alike (ih (later more))

/-- A text is tiled from a place on in one way only. -/
theorem Tiled.functional {tiles tiles' : List Tile} (tiled : Tiled file mode loc text tiles)
    (tiled' : Tiled file mode loc text tiles') : tiles = tiles' := by
  induction tiled generalizing tiles' with
  | @last loc tile fits eof =>
    rw [← List.append_nil tile.source] at tiled'
    obtain ⟨tile', others, rfl, alike, fits', last, _⟩ := fits.first tiled'
    rw [alike.eq fits fits', last eof]
  | more fits more _ ih =>
    obtain ⟨tile', others, rfl, alike, fits', _, later⟩ := fits.first tiled'
    obtain rfl := alike.eq fits fits'
    rw [ih (later more)]

end EcmaLex
