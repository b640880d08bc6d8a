import EcmaLex.Proofs.Reading.Stream

/-!
The tokens of a text are laid out over it without loss (`readAll_tiling`), and each of them reports
the place where its slice starts (`readAll_positions`).
-/
namespace EcmaLex
open Text TokenStream

variable [Library]

/-- The slices of the tokens and the gaps between them make up the normalized text. -/
theorem readAll_tiling (text : String) (c : Config) :
    ∃ tiles : List Tile, (ofConfig (.ofText text) c).readAll.1 = tiles.map (fun t => .ok t.token) ∧
      Tiling (normalize text.toList) tiles := by
  obtain ⟨tiles, answers, tiled⟩ := readAll_ofText c text
  exact ⟨tiles, answers, tiled.tiling⟩

variable {file : String} {mode : Mode} {loc : Location} {line : UInt32} {front after text : List Char}
  {tiles : List Tile} {t : Tile}

/-- A token is reported in its slice, or at the end of input. -/
theorem Tile.Fits.place (fits : t.Fits file mode loc after) :
    ∃ part rest, t.source = part ++ rest ∧ t.token.position.location = loc.past part ∧
      (t.slice ≠ [] → rest ≠ []) := by
  have cut (k : Nat) : t.source = (t.gap ++ t.slice.take k) ++ t.slice.drop k := by
    rw [List.append_assoc, List.take_append_drop, Tile.source]
  have left {k : Nat} (inside : k < t.slice.length) : t.slice.drop k ≠ [] := fun none_ =>
    Nat.not_lt.2 (List.drop_eq_nil_iff.1 none_) inside
  rcases fits.read.place with ⟨place, _⟩ | ⟨_, k, broken, place⟩
  · refine ⟨_, _, cut 0, ?_, fun some_ => left (List.length_pos_iff.2 some_)⟩
    rw [List.take_zero, List.append_nil]
    exact place
  · obtain ⟨inside, _⟩ := List.getElem?_eq_some_iff.1 (brokenEscape?_backslash broken)
    refine ⟨_, _, cut k, ?_, fun _ => left inside⟩
    rw [Location.past_append]
    exact place

theorem Tiled.place (tiled : Tiled file mode loc text tiles) (member : t ∈ tiles) :
    ∃ part rest, text = part ++ rest ∧ t.token.position.location = loc.past part := by
  obtain ⟨before, others, rfl⟩ := List.mem_iff_append.1 member
  obtain ⟨part, rest, source, place, _⟩ := tiled.fits.1.place
  refine ⟨covered before ++ part, rest ++ covered others, ?_, ?_⟩
  · rw [tiled.text_eq, covered_append, covered_cons, source]
    simp
  · rw [place, Location.past_append]

/-- Positions only ever move on, while there are numbers for the lines and columns. -/
theorem Tiled.increasing (tiled : Tiled file mode (.locate line front) text tiles)
    (numbered : Location.Numbered line (front ++ text)) :
    (tiles.map (·.token.position.location)).Pairwise Location.Before := by
  induction tiles generalizing front text with
  | nil => exact .nil
  | cons tile tiles ih =>
    rw [List.map_cons, List.pairwise_cons]
    cases tiled with
    | last _ _ => simp
    | @more _ rest _ _ fits more tiled =>
      rw [Location.locate_past] at tiled
      rw [← List.append_assoc] at numbered
      refine ⟨?_, ih tiled numbered⟩
      intro place member
      obtain ⟨u, later, rfl⟩ := List.mem_map.1 member
      obtain ⟨part, own, source, here, left⟩ := fits.place
      obtain ⟨further, last, rfl, there⟩ := tiled.place later
      have some_ : own ≠ [] := left fun none_ => more (fits.read.eof_iff.1 none_)
      have inside : (front ++ part) ++ (own ++ further) <+: front ++ tile.source ++ (further ++ last) :=
        ⟨last, by simp [source]⟩
      have earlier := numbered.before inside (by simp [some_])
      rw [here, there, Location.locate_past, Location.locate_past, source]
      simpa using earlier

/-- A token is reported where its slice starts: so many lines on, at the length of the line before it.
A broken escape is reported at its backslash. The end of input stands where the text ends. While lines
and columns fit their words, the numbers are those of the text and no two tokens share a place. -/
theorem readAll_positions (text : String) (c : Config) :
    ∃ tiles : List Tile, (ofConfig (.ofText text) c).readAll.1 = tiles.map (fun t => .ok t.token) ∧
      Tiling (normalize text.toList) tiles ∧
      (∀ before t after, tiles = before ++ t :: after →
        t.token.position.file = c.fileName ∧
        (t.token.kind ≠ .error .malformedEscapeSequence → t.token.position.location =
          .locate c.startLine (covered before ++ t.gap)) ∧
        (t.token.kind = .error .malformedEscapeSequence →
          ∃ k, brokenEscape? c.mode t.slice = some k ∧ t.slice[k]? = some '\\' ∧
            t.token.position.location =
              .locate c.startLine (covered before ++ t.gap ++ t.slice.take k)) ∧
        (t.token.kind = .eof → t.token.position.location =
          .locate c.startLine (normalize text.toList))) ∧
      (Location.Numbered c.startLine (normalize text.toList) →
        (∀ part, part <+: normalize text.toList →
          (Location.locate c.startLine part).line.toNat = c.startLine.toNat + part.count '\n' ∧
          (Location.locate c.startLine part).column.toNat =
            (part.reverse.takeWhile (· ≠ '\n')).length) ∧
        (tiles.map (·.token.position.location)).Pairwise Location.Before) := by
  obtain ⟨tiles, answers, tiled⟩ := readAll_ofText c text
  have started : Tiled c.fileName c.mode (.locate c.startLine []) (normalize text.toList) tiles := by
    rwa [Location.locate_nil]
  refine ⟨tiles, answers, tiled.tiling, ?_, fun numbered =>
    ⟨fun _ => numbered.toNat_locate, started.increasing numbered⟩⟩
  rintro before t after rfl
  obtain ⟨fits, eof_iff⟩ := tiled.fits
  have start : ((Location.mk c.startLine 0).past (covered before)).past t.gap =
      .locate c.startLine (covered before ++ t.gap) := by
    rw [← Location.past_append, Location.past_start]
  refine ⟨fits.file, ?_, ?_, ?_⟩
  · intro other
    rcases fits.read.place with ⟨place, _⟩ | ⟨malformed, _⟩
    · exact place.trans start
    · exact absurd malformed other
  · intro malformed
    rcases fits.read.place with ⟨_, other⟩ | ⟨_, k, broken, place⟩
    · exact absurd malformed other
    · refine ⟨k, broken, brokenEscape?_backslash broken, place.trans ?_⟩
      rw [← Location.past_append, ← Location.past_append, Location.past_start, List.append_assoc]
  · intro eof
    have none_ : t.slice = [] := fits.read.eof_iff.2 eof
    have all : normalize text.toList = covered before ++ t.gap := by
      rw [tiled.text_eq, eof_iff.1 eof]
      simp [Tile.source, none_]
    rw [all]
    rcases fits.read.place with ⟨place, _⟩ | ⟨malformed, _⟩
    · exact place.trans start
    · exact absurd (eof.symm.trans malformed) (by simp)

end EcmaLex
