import EcmaLex.Proofs.Grammar.Punctuators
import EcmaLex.Proofs.Grammar.TokenScanners
import EcmaLex.Proofs.Grammar.Unique
import EcmaLex.Proofs.Reading.Stream

/-!
What a fault costs. Every fault ends where the next token can be told apart again: an open literal at the end of
its line, a number behind the word that it runs into, an unknown character right behind itself
(`readAll_recovery`). Only an open comment takes the rest of the text.
-/
namespace EcmaLex
open Text TokenStream

variable [Library]

/-- No scanner starts with the character, nor does it belong to a gap. -/
structure BeginsNothing (c : Char) : Prop where
  blank : isBlank c = false
  lineTerminator : c ≠ '\n'
  string : c ≠ '\x22' ∧ c ≠ '\x27'
  number (text : List Char) : ¬BeginsNumber c text
  word : c ≠ '\\' ∧ isIdentifierStart c = false
  punctuator (p : Punctuator) : p.spelling.toList.head? ≠ some c

variable {file : String} {mode : Mode} {loc : Location} {after slice text body : List Char} {first : Char}
  {length : Nat} {p : Placed} {t u : Tile}

/-- What a scanner has told where a token is such a fault. -/
def LexFault.Found (mode : Mode) (first : Char) (text : List Char) (length : Nat) : LexFault → Prop
  | unterminatedString => stringAt mode first text = (.unterminated, length)
  | malformedNumericLiteral => BeginsNumber first text ∧ numberAt mode first text = (.malformed, length)
  | unrecognizedCharacter => ¬(first = '\x22' ∨ first = '\x27') ∧ ¬BeginsNumber first text ∧
      ¬(first = '\\' ∨ isIdentifierStart first = true) ∧ punctuatorAt first text = (none, length)
  | malformedEscapeSequence | unterminatedComment | inputFailure => True

theorem TokenFrom.found {fault : LexFault} (scanned : TokenFrom mode first text (.error fault) length) :
    fault.Found mode first text length := by
  cases scanned with
  | @string outcome _ told same =>
    cases outcome <;> cases same
    · trivial
    · exact told
  | @number outcome _ begins told same =>
    cases outcome <;> cases same
    exact ⟨begins, told⟩
  | @word outcome _ _ same =>
    cases outcome <;> cases same
    trivial
  | @punctuator q quote number word told same =>
    cases q <;> cases same
    exact ⟨quote, number, word, told⟩

/-- A fault outside comments has been read by a scanner. -/
theorem ReadAs.found {fault : LexFault} (read : ReadAs mode loc after slice p) (kind : p.kind = .error fault)
    (comment : fault ≠ .unterminatedComment) :
    kept slice = slice ∧ ∃ first body, slice = first :: body ∧ ¬BeginsTrivia first (body ++ after) ∧
      fault.Found mode first (body ++ after) slice.length := by
  obtain ⟨kept_, first, body, sliced, significant, scanned⟩ :=
    read.scanner (by simp [kind]) (by simp [kind]) (by simpa [kind] using comment)
  rw [kind] at scanned
  exact ⟨kept_, first, body, sliced, significant, scanned.found⟩

/-- An open comment goes on to the end of the text. -/
theorem ReadAs.openComment_ended (read : ReadAs mode loc after slice p)
    (kind : p.kind = .error .unterminatedComment) : after = [] := by
  cases read with
  | ending _ => cases kind
  | lineBreak => cases kind
  | crossingComment _ _ => cases kind
  | openComment _ none_ => exact none_
  | brokenEscape _ _ _ _ => cases kind
  | plain _ _ _ plain => exact absurd kind plain.2.2.1

/-- The character that a whole token consists of when no punctuator begins with it. -/
theorem BeginsNothing.of_found (significant : ¬BeginsTrivia first (body ++ after))
    (found : LexFault.unrecognizedCharacter.Found mode first (body ++ after) (first :: body).length) :
    body = [] ∧ BeginsNothing first := by
  obtain ⟨quote, number, word, told⟩ := found
  obtain ⟨one, never⟩ := punctuatorAt_none told
  obtain ⟨blank, lineTerminator, -⟩ : isBlank first ≠ true ∧ first ≠ '\n' ∧ _ := by
    simpa only [BeginsTrivia, not_or] using significant
  have digits (text : List Char) : ¬BeginsNumber first text := by
    rintro (digit | ⟨point, -⟩)
    · exact number (.inl digit)
    · exact never .dot (by rw [point]; rfl)
  rw [not_or] at quote word
  exact ⟨List.length_eq_zero_iff.1 (Nat.succ.inj one),
    ⟨Bool.eq_false_iff.2 blank, lineTerminator, quote, digits, ⟨word.1, Bool.eq_false_iff.2 word.2⟩, never⟩⟩

/-- Behind every token but the end of input there is another one. -/
theorem Tiled.next {before after : List Tile} (tiled : Tiled file mode loc text (before ++ t :: after))
    (more : t.token.kind ≠ .eof) :
    ∃ u later, after = u :: later ∧
      u.Fits file mode (loc.past (covered before ++ t.source)) (covered later) ∧
      (u.token.kind = .eof ↔ later = []) := by
  obtain ⟨u, later, rfl⟩ := List.exists_cons_of_ne_nil (mt tiled.fits.2.2 more)
  rw [List.append_cons] at tiled
  have fits := tiled.fits
  rw [covered_append, covered_cons, covered_nil, List.append_nil] at fits
  exact ⟨u, later, rfl, fits⟩

/-- Where a line or the text ends, the next token begins right away and is a line break or the end of input. -/
theorem Tile.Fits.after_line (fits : u.Fits file mode loc after)
    (line : ∀ c, (u.source ++ after).head? = some c → c = '\n') :
    u.gap = [] ∧ (u.token.kind = .eol ∧ u.slice = ['\n'] ∨ u.token.kind = .eof) ∧
      u.token.position.location = loc := by
  have noGap : u.gap = [] := by
    cases gap : u.gap with
    | nil => rfl
    | cons d gap' =>
      have feed : d = '\n' := line d (by simp [Tile.source, gap])
      exact absurd (by simp [gap, feed]) fits.oneLine
  have read := fits.read
  rw [noGap, Location.past_nil] at read
  have kind : u.token.kind = .eol ∧ u.slice = ['\n'] ∨ u.token.kind = .eof := by
    cases text : u.slice ++ after with
    | nil => exact .inr (read.eof_iff.1 (List.append_eq_nil_iff.1 text).1)
    | cons c rest =>
      have feed : c = '\n' := line c (by simp [Tile.source, noGap, text])
      obtain ⟨slice, eol⟩ := read.of_lineBreak (by rw [text, feed])
      exact .inl ⟨eol, slice⟩
  refine ⟨noGap, kind, ?_⟩
  rcases read.place with ⟨place, -⟩ | ⟨malformed, -⟩
  · exact place
  · rcases kind with ⟨eol, -⟩ | eof
    · cases eol.symm.trans malformed
    · cases eof.symm.trans malformed

/-- A token after an unterminated literal begins right behind its slice, and is a line break or the end of input.
After an unterminated comment there is only the end of input. The character after a malformed number is no part
of a word, and the number is reported with its whole slice at its first character. An unknown character stands
alone. -/
theorem readAll_recovery (text : String) (c : Config) :
    ∃ tiles : List Tile, (ofConfig (.ofText text) c).readAll.1 = tiles.map (fun t => .ok t.token) ∧
      Tiling (normalize text.toList) tiles ∧
      ∀ before t after, tiles = before ++ t :: after →
        (t.token.kind = .error .unterminatedString → ∃ u later, after = u :: later ∧ u.gap = [] ∧
          (u.token.kind = .eol ∧ u.slice = ['\n'] ∨ u.token.kind = .eof) ∧
          u.token.position.location = .locate c.startLine (covered before ++ t.source)) ∧
        (t.token.kind = .error .unterminatedComment → ∃ u, after = [u] ∧ u.token.kind = .eof) ∧
        (t.token.kind = .error .malformedNumericLiteral →
          (∀ d, (covered after).head? = some d → isIdentifierPart d = false ∧ d ≠ '\\') ∧
          (∃ first body, t.slice = first :: body ∧ BeginsNumber first (body ++ covered after)) ∧
          t.token.lexeme = String.ofList t.slice ∧
          t.token.position.location = .locate c.startLine (covered before ++ t.gap)) ∧
        (t.token.kind = .error .unrecognizedCharacter → ∃ d, t.slice = [d] ∧ BeginsNothing d) := by
  obtain ⟨tiles, answers, tiled⟩ := readAll_ofText c text
  refine ⟨tiles, answers, tiled.tiling, ?_⟩
  rintro before t after rfl
  obtain ⟨fits, -⟩ := tiled.fits
  refine ⟨?_, ?_, ?_, ?_⟩
  · intro kind
    obtain ⟨u, later, rfl, next, -⟩ := tiled.next (by simp [kind])
    obtain ⟨-, first, body, sliced, -, told⟩ := fits.read.found kind (by simp)
    rw [sliced] at told
    obtain ⟨noGap, line, place⟩ := next.after_line (stringAt_unterminated told)
    exact ⟨u, later, rfl, noGap, line, place.trans (Location.past_start _ _)⟩
  · intro kind
    obtain ⟨u, later, rfl, next, eof_iff⟩ := tiled.next (by simp [kind])
    have nothing := fits.read.openComment_ended kind
    rw [covered_cons, Tile.source, List.append_eq_nil_iff, List.append_eq_nil_iff] at nothing
    have eof : u.token.kind = .eof := next.read.eof_iff.1 nothing.1.2
    exact ⟨u, by rw [eof_iff.1 eof], eof⟩
  · intro kind
    obtain ⟨kept_, first, body, sliced, -, begins, told⟩ := fits.read.found kind (by simp)
    rw [sliced] at told
    refine ⟨fun d head => ?_, ⟨first, body, sliced, begins⟩, by rw [fits.lexeme, kept_], ?_⟩
    · simpa [isWordTail] using numberAt_malformed told d head
    · rcases fits.read.place with ⟨place, -⟩ | ⟨malformed, -⟩
      · rw [← Location.past_start, Location.past_append]
        exact place
      · cases kind.symm.trans malformed
  · intro kind
    obtain ⟨-, first, body, sliced, significant, found⟩ := fits.read.found kind (by simp)
    rw [sliced] at found
    obtain ⟨rfl, nothing⟩ := BeginsNothing.of_found significant found
    exact ⟨first, sliced, nothing⟩

end EcmaLex
