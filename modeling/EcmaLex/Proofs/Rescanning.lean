import EcmaLex.Library.Running
import EcmaLex.Proofs.Grammar.Followers
import EcmaLex.Proofs.Reading.Stream

/-!
Lexemes scanned again. A lexeme alone gives its token back, and lexemes with single spaces between them
give back the tokens of a text without faults.
-/
namespace EcmaLex
open Text TokenStream

theorem visible_visible (text : List Char) : visible (visible text) = visible text := by
  simp [visible, List.filter_filter]

theorem endsComment_visible_iff {text : List Char} : EndsComment (visible text) ↔ EndsComment text := by
  rw [EndsComment, visible_visible, EndsComment]

/-- What begins the visible part of a text is the visible part of what begins the text. -/
theorem visible_prefix {body text : List Char} (inside : text <+: visible body) :
    ∃ front, front <+: body ∧ visible front = text := by
  obtain ⟨rest, whole⟩ := inside
  obtain ⟨front, back, rfl, rfl, _⟩ := List.filter_eq_append_iff.1 whole.symm
  exact ⟨front, List.prefix_append front back, rfl⟩

theorem OpenComment.visible {body : List Char} (opened : OpenComment body) :
    OpenComment (visible body) := by
  intro text inside ends
  obtain ⟨front, before, rfl⟩ := visible_prefix inside
  exact opened front before (endsComment_visible_iff.1 ends)

theorem ClosedComment.visible {body : List Char} (closed : ClosedComment body) :
    ClosedComment (visible body) := by
  refine ⟨endsComment_visible_iff.2 closed.1, ?_⟩
  intro text inside ends
  obtain ⟨front, before, rfl⟩ := visible_prefix inside
  rw [closed.2 front before (endsComment_visible_iff.1 ends)]

theorem kept_comment (body : List Char) : kept ('/' :: '*' :: body) = '/' :: '*' :: visible body := rfl

theorem mem_visible_feed {body : List Char} : '\n' ∈ visible body ↔ '\n' ∈ body := by
  have plain : isFormatControl '\n' = false := by decide
  simp [visible, plain]

variable {file : String} {mode : Mode} {loc : Location} {after slice text : List Char} {p : Placed}
  {kind : TokenKind} {lexeme : List Char}

theorem Separated.of_fault {fault : LexFault} (apart : Separated (.error fault) after) : after = [] := by
  rcases apart with none_ | ⟨sound, _⟩
  · exact none_
  · cases sound

/-- What a token says, its place aside. -/
def Token.content (t : Token) : TokenKind × String := (t.kind, t.lexeme)

def spacedOut (tokens : List Token) : List Char := [' '].intercalate (tokens.map (·.lexeme.toList))

theorem toList_intercalate_lexemes (tokens : List Token) :
    (" ".intercalate (tokens.map Token.lexeme)).toList = spacedOut tokens := by
  rw [String.toList_intercalate, List.map_map]
  rfl

variable {t : Token} {tokens : List Token} {gap : List Char}

theorem spaced_spaces (spaces : ∀ c ∈ gap, c = ' ') : ∃ items, Spaced after gap items := by
  refine ⟨_, spaced_blanks fun c member => ?_⟩
  rw [spaces c member]
  rfl

theorem no_feed_spaces (spaces : ∀ c ∈ gap, c = ' ') : '\n' ∉ gap :=
  fun feed => absurd (spaces _ feed) (by decide)

theorem spacedOut_cons (sound : ∀ u ∈ (t :: tokens).dropLast, u.kind.fault? = none) :
    ∃ gap, (∀ c ∈ gap, c = ' ') ∧ Separated t.kind (gap ++ spacedOut tokens) ∧
      spacedOut (t :: tokens) = t.lexeme.toList ++ (gap ++ spacedOut tokens) := by
  cases tokens with
  | nil => exact ⟨[], by simp, .inl rfl, by simp [spacedOut]⟩
  | cons next tokens =>
    refine ⟨[' '], by simp, .inr ⟨sound t (by simp), rfl⟩, ?_⟩
    simp [spacedOut, List.intercalate_cons_cons]

theorem Tile.Alike.contents {tiles tiles' : List Tile} (alike : List.Forall₂ Tile.Alike tiles tiles') :
    tiles.map (·.token.content) = tiles'.map (·.token.content) := by
  induction alike with
  | nil => rfl
  | cons first _ ih => rw [List.map_cons, List.map_cons, ih, Token.content, first.kind, first.lexeme]; rfl

theorem mem_spacedOut {c : Char} (member : c ∈ spacedOut tokens) :
    c = ' ' ∨ ∃ t ∈ tokens, c ∈ t.lexeme.toList := by
  induction tokens with
  | nil => cases member
  | cons t tokens ih =>
    have split : c ∈ t.lexeme.toList ∨ c = ' ' ∨ c ∈ spacedOut tokens := by
      cases tokens with
      | nil => exact .inl (by simpa [spacedOut] using member)
      | cons next tokens => simpa [spacedOut, List.intercalate_cons_cons, or_assoc] using member
    rcases split with own | blank | later
    · exact .inr ⟨t, List.mem_cons_self, own⟩
    · exact .inl blank
    · rcases ih later with blank | ⟨u, inside, own⟩
      · exact .inl blank
      · exact .inr ⟨u, List.mem_cons_of_mem t inside, own⟩

theorem kept_subset (slice : List Char) : kept slice ⊆ slice := by
  unfold kept
  split
  · exact List.filter_subset_self _
  · exact List.Subset.refl _

section
variable [Library]

/-- The text is the lexeme of a token of that kind, whatever place it stands at. -/
structure Rescans (mode : Mode) (kind : TokenKind) (lexeme : List Char) : Prop where
  more : kind ≠ .eof
  kept : EcmaLex.kept lexeme = lexeme
  read (loc : Location) {after : List Char} : Separated kind after →
    ∃ place, ReadAs mode loc after lexeme ⟨kind, place⟩

theorem ReadAs.rescans (read : ReadAs mode loc after slice p) (more : p.kind ≠ .eof) :
    Rescans mode p.kind (kept slice) := by
  cases read with
  | ending _ => exact absurd rfl more
  | lineBreak => exact ⟨more, rfl, fun loc' _ _ => ⟨loc', .lineBreak⟩⟩
  | @crossingComment body closed crossed =>
    rw [kept_comment]
    refine ⟨more, by rw [kept_comment, visible_visible], fun loc' _ _ => ⟨loc', ?_⟩⟩
    exact .crossingComment closed.visible (mem_visible_feed.2 crossed)
  | @openComment body opened _ =>
    rw [kept_comment]
    refine ⟨more, by rw [kept_comment, visible_visible], fun loc' _ apart => ⟨loc', ?_⟩⟩
    exact .openComment opened.visible apart.of_fault
  | @brokenEscape _ k some_ opens leading broken =>
    rw [kept_of_plain opens]
    refine ⟨more, kept_of_plain opens, fun loc' _ apart => ⟨loc'.past (slice.take k), ?_⟩⟩
    exact .brokenEscape some_ opens (leadingToken?_before some_ apart leading) broken
  | plain some_ opens leading plain =>
    rw [kept_of_plain opens]
    refine ⟨more, kept_of_plain opens, fun loc' _ apart => ⟨loc', ?_⟩⟩
    exact .plain some_ opens (leadingToken?_before some_ apart leading) plain

theorem Tile.Fits.rescans {tile : Tile} (fits : tile.Fits file mode loc after)
    (more : tile.token.kind ≠ .eof) : Rescans mode tile.token.kind tile.token.lexeme.toList := by
  rw [fits.lexeme, String.toList_ofList]
  exact fits.read.rescans more

theorem Rescans.tile (rescans : Rescans mode t.kind t.lexeme.toList) (apart : Separated t.kind after)
    (spaces : ∀ c ∈ gap, c = ' ') (file : String) (loc : Location) :
    ∃ tile : Tile, tile.Fits file mode loc after ∧ tile.source = gap ++ t.lexeme.toList ∧
      tile.token.content = t.content := by
  obtain ⟨place, read⟩ := rescans.read (loc.past gap) apart
  refine ⟨⟨gap, t.lexeme.toList, ⟨t.kind, t.lexeme, ⟨file, place⟩⟩⟩, ⟨?_, ?_, read, ?_, rfl⟩, rfl, rfl⟩
  · exact spaced_spaces spaces
  · exact no_feed_spaces spaces
  · rw [rescans.kept, String.ofList_toList]

theorem tiled_ending (file : String) (mode : Mode) (loc : Location) (spaces : ∀ c ∈ gap, c = ' ') :
    ∃ tile : Tile, Tiled file mode loc gap [tile] ∧ tile.token.content = (.eof, "") := by
  let tile : Tile := ⟨gap, [], ⟨.eof, "", ⟨file, loc.past gap⟩⟩⟩
  have fits : tile.Fits file mode loc [] :=
    ⟨spaced_spaces spaces, no_feed_spaces spaces, .ending rfl, rfl, rfl⟩
  have tiled : Tiled file mode loc tile.source [tile] := .last fits rfl
  rw [Tile.source, List.append_nil] at tiled
  exact ⟨tile, tiled, rfl⟩

/-- A token that a text begins with may stand first. -/
theorem Tiled.lead {tiles : List Tile} (slice : List Char) (kind : TokenKind) (some_ : slice ≠ [])
    (opens : opensComment slice = false)
    (leading : leadingToken? mode (slice ++ after) = some (kind, slice.length)) (plain : kind.IsPlain)
    (tiled : Tiled file mode (loc.past slice) after tiles) :
    Tiled file mode loc (slice ++ after)
      (⟨[], slice, ⟨kind, String.ofList slice, ⟨file, loc⟩⟩⟩ :: tiles) := by
  let tile : Tile := ⟨[], slice, ⟨kind, String.ofList slice, ⟨file, loc⟩⟩⟩
  have fits : tile.Fits file mode loc after :=
    ⟨⟨[], .nil⟩, List.not_mem_nil, .plain some_ opens leading plain, by rw [kept_of_plain opens], rfl⟩
  exact .more fits plain.1 tiled

/-- Lexemes with single spaces between them are read as their tokens, if none but the last is a
fault. -/
theorem tiled_spacedOut (file : String) (loc : Location) (rescans : ∀ t ∈ tokens, Rescans mode t.kind t.lexeme.toList)
    (sound : ∀ t ∈ tokens.dropLast, t.kind.fault? = none) (spaces : ∀ c ∈ gap, c = ' ') :
    ∃ tiles : List Tile, Tiled file mode loc (gap ++ spacedOut tokens) tiles ∧
      tiles.map (·.token.content) = tokens.map Token.content ++ [(.eof, "")] := by
  induction tokens generalizing gap loc with
  | nil =>
    obtain ⟨tile, tiled, content⟩ := tiled_ending file mode loc spaces
    exact ⟨[tile], by simpa [spacedOut] using tiled, by simp [content]⟩
  | cons t tokens ih =>
    obtain ⟨gap', spaces', apart, text⟩ := spacedOut_cons sound
    have later : ∀ u ∈ tokens.dropLast, u.kind.fault? = none := by
      intro u member
      refine sound u ?_
      cases tokens with
      | nil => cases member
      | cons _ _ => exact List.mem_cons_of_mem t member
    have first := rescans t List.mem_cons_self
    obtain ⟨tile, fits, source, content⟩ := first.tile apart spaces file loc
    obtain ⟨tiles, tiled, contents⟩ :=
      ih (loc.past tile.source) (fun u member => rescans u (List.mem_cons_of_mem t member)) later
        spaces'
    have kind : tile.token.kind = t.kind := congrArg Prod.fst content
    refine ⟨tile :: tiles, ?_, by rw [List.map_cons, content, contents]; rfl⟩
    rw [text, ← List.append_assoc, ← source]
    exact .more fits (kind ▸ first.more) tiled

/-- What a stream makes of lexemes with single spaces between them. -/
theorem readAll_spacedOut (c : Config) (rescans : ∀ t ∈ tokens, Rescans c.mode t.kind t.lexeme.toList)
    (plain : ∀ t ∈ tokens, LineFeedOnly t.lexeme.toList)
    (sound : ∀ t ∈ tokens.dropLast, t.kind.fault? = none) :
    ∃ again : List Token,
      (ofConfig (.ofText (" ".intercalate (tokens.map Token.lexeme))) c).readAll.1 = again.map .ok ∧
      again.map Token.content = tokens.map Token.content ++ [(.eof, "")] := by
  obtain ⟨tiles, answers, tiled⟩ := readAll_ofText c (" ".intercalate (tokens.map Token.lexeme))
  have feeds : LineFeedOnly (spacedOut tokens) := by
    intro d member ends
    rcases mem_spacedOut member with rfl | ⟨t, inside, own⟩
    · cases ends
    · exact plain t inside d own ends
  rw [toList_intercalate_lexemes, feeds.normalize_eq] at tiled
  obtain ⟨tiles', tiled', contents⟩ := tiled_spacedOut c.fileName ⟨c.startLine, 0⟩ rescans sound
    (List.forall_mem_nil _)
  refine ⟨tiles.map (·.token), by rw [answers, List.map_map]; rfl, ?_⟩
  rw [List.map_map, ← contents]
  exact Tile.Alike.contents (tiled.unique tiled')

/-- All tokens before the end of input can be scanned again. -/
theorem readAll_rescans (text : String) (c : Config) :
    ∃ tokens last, (ofConfig (.ofText text) c).readAll.1 = (tokens ++ [last]).map .ok ∧
      last.content = (.eof, "") ∧
      ∀ t ∈ tokens, Rescans c.mode t.kind t.lexeme.toList ∧ LineFeedOnly t.lexeme.toList := by
  obtain ⟨tiles, answers, tiled⟩ := readAll_ofText c text
  obtain ⟨front, last, rfl, eof, others⟩ := tiled.eof_last
  refine ⟨front.map (·.token), last.token, ?_, ?_, ?_⟩
  · rw [answers]
    simp
  · have fits := tiled.fits.1
    rw [Token.content, eof, fits.lexeme, fits.read.eof_iff.2 eof]
    rfl
  · intro t member
    obtain ⟨tile, inside, rfl⟩ := List.mem_map.1 member
    obtain ⟨before, later, rfl⟩ := List.append_of_mem inside
    rw [List.append_assoc] at tiled
    have fits := tiled.fits.1
    refine ⟨fits.rescans (others tile inside), ?_⟩
    rw [fits.lexeme, String.toList_ofList]
    have plain := lineFeedOnly_normalize text.toList
    rw [tiled.text_eq] at plain
    refine plain.mono (List.Subset.trans (kept_subset _) ?_)
    intro d own
    simp [Tile.source, own]

/-- A lexeme alone is scanned as one token that says the same. -/
theorem readAll_rescan (text : String) (c : Config) :
    ∃ tokens last, (ofConfig (.ofText text) c).readAll.1 = (tokens ++ [last]).map .ok ∧
      last.kind = .eof ∧
      ∀ t ∈ tokens, t.kind ≠ .eof ∧ ∀ other : Config, ∃ again ending,
        (ofConfig (.ofText t.lexeme) { other with mode := c.mode }).readAll.1 =
          [.ok again, .ok ending] ∧
        again.kind = t.kind ∧ again.lexeme = t.lexeme ∧ ending.kind = .eof := by
  obtain ⟨tokens, last, answers, eof, rescans⟩ := readAll_rescans text c
  refine ⟨tokens, last, answers, congrArg Prod.fst eof, ?_⟩
  intro t member
  obtain ⟨again, plain⟩ := rescans t member
  refine ⟨again.more, fun other => ?_⟩
  have rescans' : ∀ u ∈ [t], Rescans c.mode u.kind u.lexeme.toList := by simpa using again
  obtain ⟨found, answers', contents⟩ := readAll_spacedOut { other with mode := c.mode } rescans'
    (by simpa using plain) (by simp)
  obtain ⟨first, rest, rfl, same, contents⟩ := List.map_eq_cons_iff.1 contents
  obtain ⟨ending, rest, rfl, ends, none_⟩ := List.map_eq_cons_iff.1 contents
  obtain rfl := List.map_eq_nil_iff.1 none_
  rw [List.map_singleton, String.intercalate_singleton] at answers'
  exact ⟨first, ending, answers', congrArg Prod.fst same, congrArg Prod.snd same,
    congrArg Prod.fst ends⟩

/-- The lexemes of a text without faults, with single spaces between them, are scanned as the same
tokens. -/
theorem readAll_spaced (text : String) (c : Config) :
    ∃ tokens last, (ofConfig (.ofText text) c).readAll.1 = (tokens ++ [last]).map .ok ∧
      last.kind = .eof ∧ (∀ t ∈ tokens, t.kind ≠ .eof) ∧
      ((∀ t ∈ tokens, ∀ fault, t.kind ≠ .error fault) → ∀ other : Config, ∃ again ending,
        (ofConfig (.ofText (" ".intercalate (tokens.map Token.lexeme)))
          { other with mode := c.mode }).readAll.1 = (again ++ [ending]).map .ok ∧
        again.map (fun t => (t.kind, t.lexeme)) = tokens.map (fun t => (t.kind, t.lexeme)) ∧
        (ending.kind, ending.lexeme) = (last.kind, last.lexeme)) := by
  obtain ⟨tokens, last, answers, eof, rescans⟩ := readAll_rescans text c
  refine ⟨tokens, last, answers, congrArg Prod.fst eof, fun t member => (rescans t member).1.more, ?_⟩
  intro sound other
  have noFault (t : Token) (member : t ∈ tokens) : t.kind.fault? = none := by
    cases kind : t.kind with
    | error fault => exact absurd kind (sound t member fault)
    | _ => rfl
  obtain ⟨found, answers', contents⟩ := readAll_spacedOut { other with mode := c.mode }
    (fun t member => (rescans t member).1) (fun t member => (rescans t member).2)
    fun t member => noFault t (List.dropLast_subset _ member)
  obtain ⟨again, rest, rfl, same, contents⟩ := List.map_eq_append_iff.1 contents
  obtain ⟨ending, rest, rfl, ends, none_⟩ := List.map_eq_cons_iff.1 contents
  obtain rfl := List.map_eq_nil_iff.1 none_
  exact ⟨again, ending, answers', same, ends.trans eof.symm⟩

end

open Running

/-- A question mark before a fraction is an operator of its own, and is so before a space. -/
theorem readAll_spaced_question :
    let c : Config := {}
    ∃ tokens last, (ofConfig (.ofText "?.5") c).readAll.1 = (tokens ++ [last]).map .ok ∧
      tokens.map Token.lexeme = ["?", ".5"] ∧
      (∀ t ∈ tokens, ∀ fault, t.kind ≠ .error fault) ∧
      ∀ other : Config, ∃ again ending,
        (ofConfig (.ofText "? .5") { other with mode := c.mode }).readAll.1 =
          (again ++ [ending]).map .ok ∧
        again.map (fun t => (t.kind, t.lexeme)) = tokens.map (fun t => (t.kind, t.lexeme)) ∧
        (ending.kind, ending.lexeme) = (last.kind, last.lexeme) := by
  intro c
  obtain ⟨tokens, last, answers, _, _, spaced⟩ := readAll_spaced "?.5" c
  obtain ⟨read, answers', tiled⟩ := readAll_ofText c "?.5"
  obtain ⟨ending, ends, content⟩ := tiled_ending c.fileName c.mode
    ((Location.past ⟨c.startLine, 0⟩ ['?']).past ['.', '5']) (List.forall_mem_nil (· = ' '))
  let half : TokenKind := .number (.finite 4503599627370496 1021)
  have number : Tiled c.fileName c.mode _ ['.', '5'] _ :=
    ends.lead ['.', '5'] half (by simp) rfl (by decide +kernel) (by simp [half, TokenKind.IsPlain])
  have whole : Tiled c.fileName c.mode ⟨c.startLine, 0⟩ ['?', '.', '5'] _ :=
    number.lead ['?'] (.punctuator .question) (by simp) rfl (by decide +kernel)
      (by simp [TokenKind.IsPlain])
  have contents := Tile.Alike.contents (tiled.unique whole)
  have same : tokens ++ [last] = read.map (·.token) := by
    refine List.map_injective_iff.2 (fun _ _ => Except.ok.inj) (answers.symm.trans ?_)
    rw [answers', List.map_map]
    rfl
  have known : tokens.map Token.content ++ [last.content] =
      [(.punctuator .question, "?"), (half, ".5")] ++ [(.eof, "")] := by
    rw [← List.map_singleton, ← List.map_append, same, List.map_map, ← content]
    exact contents
  obtain ⟨front, -⟩ := List.append_inj' known rfl
  have lexemes : tokens.map Token.lexeme = ["?", ".5"] := by
    simpa [Function.comp_def, Token.content] using congrArg (List.map Prod.snd) front
  have sound : ∀ t ∈ tokens, ∀ fault, t.kind ≠ .error fault := by
    intro t member fault faulty
    have inside : t.content ∈ tokens.map Token.content := List.mem_map_of_mem member
    simp [front, half, Token.content, faulty] at inside
  have again := spaced sound
  rw [lexemes] at again
  exact ⟨tokens, last, answers, lexemes, sound, again⟩

end EcmaLex
