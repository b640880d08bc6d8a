import EcmaLex.Proofs.Reading.Stream

/-!
Line breaks between tokens. There are as many of them as the text between two tokens has line feeds
outside comments and comments with a line feed in them (`readAll_lineBreaks`). Which characters end a
line in the source is not to be seen in the tokens (`readAll_normalize`).
-/
namespace EcmaLex
open Text TokenStream

variable {file : String} {mode : Mode} {loc : Location} {after text : List Char}

theorem normalize_idem (text : List Char) : normalize (normalize text) = normalize text :=
  (lineFeedOnly_normalize text).normalize_eq

variable [Library]

theorem Tile.Fits.lineBreak {t : Tile} (fits : t.Fits file mode loc after)
    (eol : t.token.kind = .eol) : ∃ items, Spaced after t.slice items ∧ lineBreaks items = 1 := by
  rcases fits.read.eol eol with slice | ⟨body, slice, closed, crossed⟩
  · exact ⟨[.lineBreak], slice ▸ .lineBreak .nil, by simp [lineBreaks, Trivia.crossesLine]⟩
  · refine ⟨[.blockComment body], slice ▸ spaced_blockComment closed, ?_⟩
    simp [lineBreaks, Trivia.crossesLine, crossed]

theorem Tile.Fits.gap_lineBreaks {t : Tile} (fits : t.Fits file mode loc after) :
    ∃ items, Spaced (t.slice ++ after) t.gap items ∧ lineBreaks items = 0 := by
  obtain ⟨items, spaced⟩ := fits.gap
  exact ⟨items, spaced, spaced.lineBreaks_eq_zero.2 fits.oneLine⟩

/-- Line breaks in a row and the gap after them are a run of trivia, with one line break each. -/
theorem Tiled.between {between others : List Tile} {u : Tile}
    (tiled : Tiled file mode loc text (between ++ u :: others))
    (eols : ∀ e ∈ between, e.token.kind = .eol) :
    ∃ items, Spaced (u.slice ++ covered others) (covered between ++ u.gap) items ∧
      lineBreaks items = between.length := by
  induction between generalizing loc text with
  | nil =>
    obtain ⟨items, spaced, none_⟩ := tiled.fits.1.gap_lineBreaks
    exact ⟨items, spaced, none_⟩
  | cons e between ih =>
    have fits := tiled.head.1
    rw [← List.singleton_append, List.append_assoc] at tiled
    obtain ⟨later, spaced, count⟩ := ih (tiled.drop (by simp)) fun e' member => eols e' (by simp [member])
    -- What follows the line break is the rest of the run, and then the next token.
    have follows : covered (between ++ u :: others) =
        (covered between ++ u.gap) ++ (u.slice ++ covered others) := by
      simp [Tile.source]
    obtain ⟨gapItems, gap, none_⟩ := fits.gap_lineBreaks
    obtain ⟨items, slice, one⟩ := fits.lineBreak (eols e (by simp))
    rw [List.append_eq, follows] at gap slice
    have run := slice.append spaced
    rw [← List.append_assoc e.slice] at gap
    refine ⟨gapItems ++ (items ++ later), ?_, ?_⟩
    · rw [covered_cons, Tile.source, List.append_assoc, List.append_assoc]
      exact gap.append run
    · rw [lineBreaks_append, lineBreaks_append, none_, one, count, List.length_cons]
      omega

/-- Between two tokens with nothing but line breaks between them stand as many line breaks as their
text has outside comments, and one for each comment that goes over a line. -/
theorem readAll_lineBreaks (text : String) (c : Config) :
    ∃ tiles : List Tile, (ofConfig (.ofText text) c).readAll.1 = tiles.map (fun t => .ok t.token) ∧
      Tiling (normalize text.toList) tiles ∧
      ∀ before t between u after, tiles = before ++ t :: (between ++ u :: after) →
        (∀ e ∈ between, e.token.kind = .eol) →
        ∃ items, Spaced (u.slice ++ covered after) (covered between ++ u.gap) items ∧
          (∀ other, Spaced (u.slice ++ covered after) (covered between ++ u.gap) other →
            other = items) ∧
          between.length = items.count .lineBreak + items.countP Trivia.crossesLine ∧
          (between ≠ [] ↔ '\n' ∈ covered between ++ u.gap) := by
  obtain ⟨tiles, answers, tiled⟩ := readAll_ofText c text
  refine ⟨tiles, answers, tiled.tiling, ?_⟩
  rintro before t between u after rfl eols
  rw [List.append_cons] at tiled
  obtain ⟨items, spaced, count⟩ := (tiled.drop (by simp)).between eols
  refine ⟨items, spaced, fun other spaced' => spaced'.unique spaced, count.symm, ?_⟩
  have none_ := spaced.lineBreaks_eq_zero
  rw [count, List.length_eq_zero_iff] at none_
  rw [ne_eq, none_, not_not]

/-- A text has the tokens of the text that ends its lines with line feeds only, and so has every text
that comes to the same. -/
theorem readAll_normalize (text : String) (c : Config) :
    let plain := String.ofList (normalize text.toList)
    LineFeedOnly plain.toList ∧ ∃ tokens : List Token,
      (ofConfig (.ofText text) c).readAll.1 = tokens.map .ok ∧
      (ofConfig (.ofText plain) c).readAll.1 = tokens.map .ok ∧
      ∀ other : String, normalize other.toList = plain.toList →
        (ofConfig (.ofText other) c).readAll.1 = tokens.map .ok := by
  intro plain
  have chars : plain.toList = normalize text.toList := String.toList_ofList
  obtain ⟨tiles, _, tiled⟩ := readAll_ofText c text
  -- A text that comes to the same is tiled by the same tiles, for there is only one way.
  have alike (other : String) (same : normalize other.toList = plain.toList) :
      (ofConfig (.ofText other) c).readAll.1 = (tiles.map (·.token)).map .ok := by
    obtain ⟨tiles', answers', tiled'⟩ := readAll_ofText c other
    rw [same, chars] at tiled'
    rw [answers', tiled'.functional tiled, List.map_map]
    rfl
  refine ⟨chars ▸ lineFeedOnly_normalize _, tiles.map (·.token), alike text chars.symm, ?_, alike⟩
  exact alike plain (by rw [chars, normalize_idem])

end EcmaLex
