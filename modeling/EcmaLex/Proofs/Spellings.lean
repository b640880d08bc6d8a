import EcmaLex.Proofs.Grammar.Modes
import EcmaLex.Proofs.Grammar.Punctuators
import EcmaLex.Proofs.Grammar.TokenScanners
import EcmaLex.Proofs.Reading.Stream

/-!
Kinds and lexemes. A kind that has a spelling is read from just that spelling, and whatever is spelled so is of
that kind. Words without an escape are what they are spelled (`readAll_spellings`).
-/
namespace EcmaLex
open Text TokenStream

/-- What a lexeme says of the kind of its token. -/
structure TokenKind.Agrees (mode : Mode) (lexeme : String) (kind : TokenKind) : Prop where
  spelled {s : String} : kind.spelling? = some s → lexeme = s
  known {kind' : TokenKind} {s : String} : kind'.spelling? = some s → lexeme = s → kind = kind'
  name {v : String} : kind = .name v → '\\' ∉ lexeme.toList → v = lexeme
  reserved : kind = .word .reserved → reservedWord? lexeme mode = some .reserved

/-- What a word is by its spelling. With a backslash in it, it is no known or reserved word. -/
inductive WordOf (mode : Mode) (slice : List Char) : IdentifierOutcome → Prop
  | name : '\\' ∉ slice → reservedWord? (String.ofList slice) mode = none → WordOf mode slice (.name slice)
  | word {w} : '\\' ∉ slice → reservedWord? (String.ofList slice) mode = some w → WordOf mode slice (.word w)
  | escaped {outcome} : '\\' ∈ slice → (∀ w, outcome ≠ .word w) → WordOf mode slice outcome

variable {mode : Mode} {first : Char} {slice text body after : List Char} {s lexeme : String}
  {kind : TokenKind} {outcome : IdentifierOutcome}

namespace IdentifierRecognizer

variable {state state' : State} {front : List Char} {c : Char} {loc place : Location}

theorem step_backslash [Library] (inv : state.Escaped ↔ '\\' ∈ front)
    (stepped : step mode state c loc = .more state') :
    state'.Escaped ↔ '\\' ∈ front ++ [c] := by
  by_cases escaped : state.Escaped
  · have still := step_escaped escaped stepped
    simp [still, inv.1 escaped]
  · cases state with
    | plain n =>
      rcases step_plain stepped with ⟨rfl, begun⟩ | ⟨other, rfl⟩
      · simp [begun]
      · have same : (State.plain (n.push c)).Escaped ↔ (State.plain n).Escaped := Iff.rfl
        rw [same, inv]
        simp [other.symm]
    | _ => exact absurd trivial escaped

theorem atEnd_escaped (ended : atEnd mode state = .malformedEscape place) : state.Escaped := by
  cases state with
  | plain n =>
    simp only [atEnd, Name.outcome] at ended
    split at ended <;> cases ended
  | _ => trivial

theorem outcome_wordOf {n : Name} (spells : (State.plain n).Spells slice)
    (backslash : (State.plain n).Escaped ↔ '\\' ∈ slice) : WordOf mode slice (n.outcome mode) := by
  by_cases escaped : n.escaped = true
  · exact .escaped (backslash.1 escaped) (by simp [Name.outcome, escaped])
  · have plain : '\\' ∉ slice := mt backslash.2 escaped
    have chars : n.chars.reverse = slice := spells (Bool.eq_false_iff.2 escaped)
    simp only [Name.outcome, if_neg escaped, chars]
    cases known : reservedWord? (String.ofList slice) mode with
    | none => exact .name plain known
    | some w => exact .word plain known

end IdentifierRecognizer

open IdentifierRecognizer

theorem wordAt_wordOf [Library] (told : wordAt mode first (body ++ after) = (outcome, (first :: body).length)) :
    WordOf mode (first :: body) outcome := by
  have begun : start.Spells [] ∧ (start.Escaped ↔ '\\' ∈ []) := ⟨fun _ => rfl, by simp [start, State.Escaped]⟩
  obtain ⟨state, front, rest, ⟨spells, backslash⟩, whole, cuts⟩ :=
    (identifierRecognizer mode).cut_last (fun state front => state.Spells front ∧ (state.Escaped ↔ '\\' ∈ front))
      (fun inv stepped => ⟨step_spells inv.1 stepped, step_backslash inv.2 stepped⟩) begun told
  have whole : (first :: body) ++ after = front ++ rest := whole
  generalize answer : (outcome, (first :: body).length) = told at cuts
  cases cuts with
  | @stop c rest back result stepped =>
    obtain ⟨rfl, length⟩ := Prod.mk.inj answer
    rcases step_stop stepped with ⟨n, rfl, plain⟩ | ⟨backs, place, rfl, same⟩
    · obtain ⟨rfl, rfl, -⟩ := stepPlain_stop plain
      obtain ⟨rfl, -⟩ := List.append_inj whole length
      exact outcome_wordOf spells backslash
    · have inside : front <+: first :: body := by
        refine List.prefix_of_prefix_length_le ⟨_, whole.symm⟩ ⟨_, rfl⟩ ?_
        rcases backs with rfl | rfl <;> simp at length ⊢ <;> omega
      exact .escaped (inside.subset (backslash.1 (atEnd_escaped (same mode).2))) (by simp)
  | atEnd =>
    obtain ⟨rfl, length⟩ := Prod.mk.inj answer
    obtain ⟨rfl, -⟩ := List.append_inj whole length
    cases state with
    | plain n => exact outcome_wordOf spells backslash
    | _ => exact .escaped (backslash.1 trivial) (by simp [identifierRecognizer, atEnd])

/-- No quote, number, line break or comment begins the text, and it has no escape. -/
structure PlainFrom (first : Char) (rest : List Char) : Prop where
  string : ¬(first = '\x22' ∨ first = '\x27')
  number : ¬BeginsNumber first rest
  lineTerminator : first ≠ '\n'
  comment : opensComment (first :: rest) = false
  escape : '\\' ∉ first :: rest

instance (first : Char) (rest : List Char) : Decidable (PlainFrom first rest) :=
  decidable_of_iff (¬(first = '\x22' ∨ first = '\x27') ∧ ¬BeginsNumber first rest ∧ first ≠ '\n' ∧
      opensComment (first :: rest) = false ∧ '\\' ∉ first :: rest)
    ⟨fun ⟨string, number, line, comment, escape⟩ => ⟨string, number, line, comment, escape⟩,
      fun plain => ⟨plain.string, plain.number, plain.lineTerminator, plain.comment, plain.escape⟩⟩

/-- What every spelling is. -/
def PlainSpelling : List Char → Prop
  | [] => False
  | first :: rest => PlainFrom first rest

instance : DecidablePred PlainSpelling
  | [] => inferInstanceAs (Decidable False)
  | first :: rest => inferInstanceAs (Decidable (PlainFrom first rest))

namespace Punctuator

theorem plainSpelling (p : Punctuator) : PlainSpelling p.spelling.toList := by
  have table : ∀ p ∈ all, PlainSpelling p.spelling.toList := by decide +kernel
  exact table p p.mem_all

theorem begins_no_word [Library] (p : Punctuator) (spelled : p.spelling.toList = first :: body) :
    ¬(first = '\\' ∨ isIdentifierStart first = true) := by
  have table : ∀ p ∈ all, (p.spelling.toList.head?.all fun c =>
      isAscii c && !(isAsciiLetter c || c == '$' || c == '_') && c != '\\') = true := by
    decide +kernel
  have outside := table p p.mem_all
  simp only [spelled, List.head?_cons, Option.all_some, Bool.and_eq_true] at outside
  obtain ⟨⟨ascii, other⟩, plain⟩ := outside
  rw [isIdentifierStart_ascii ascii]
  simpa using And.intro plain other

end Punctuator

namespace Keyword

def all : List Keyword :=
  [break_, case, catch_, continue_, debugger, default, delete, do_, else_, export_, false_,
    finally_, for_, function, if_, import_, in_, instanceof, new, null, return_, switch, this,
    throw, true_, try_, typeof, var, void, while_, with_, yield]

theorem mem_all (k : Keyword) : k ∈ all := by
  cases k <;> decide

theorem plainSpelling (k : Keyword) : PlainSpelling k.spelling.toList := by
  have table : ∀ k ∈ all, PlainSpelling k.spelling.toList := by decide +kernel
  exact table k k.mem_all

theorem begins_word [Library] (k : Keyword) (spelled : k.spelling.toList = first :: body) :
    isIdentifierStart first = true := by
  have table : ∀ k ∈ all, (k.spelling.toList.head?.all fun c => isAscii c && isAsciiLetter c) = true := by
    decide +kernel
  have inside := table k k.mem_all
  simp only [spelled, List.head?_cons, Option.all_some, Bool.and_eq_true] at inside
  rw [isIdentifierStart_ascii inside.1, inside.2, Bool.true_or, Bool.true_or]

/-- The keywords are told by their spellings. -/
theorem ofSpelling?_eq_some_iff {word : String} {k : Keyword} : ofSpelling? word = some k ↔ k.spelling = word := by
  constructor
  · intro found
    unfold ofSpelling? at found
    split at found <;> cases found <;> rfl
  · rintro rfl
    have table : ∀ k ∈ all, ofSpelling? k.spelling = some k := by decide +kernel
    exact table k k.mem_all

end Keyword

theorem reservedWord?_spelling (k : Keyword) (mode : Mode) :
    reservedWord? k.spelling mode = some (.keyword k) := by
  rw [reservedWord?, Keyword.ofSpelling?_eq_some_iff.2 rfl]

theorem spelling_of_reservedWord? {k : Keyword} (known : reservedWord? lexeme mode = some (.keyword k)) :
    k.spelling = lexeme := by
  unfold reservedWord? at known
  split at known
  · rename_i k' found
    cases known
    exact Keyword.ofSpelling?_eq_some_iff.1 found
  · split at known <;> cases known

namespace TokenKind

/-- Only punctuators and keywords have a spelling. -/
theorem spelling?_cases (spelled : kind.spelling? = some s) :
    (∃ p, kind = .punctuator p ∧ p.spelling = s) ∨ ∃ k, kind = .word (.keyword k) ∧ k.spelling = s := by
  unfold spelling? at spelled
  split at spelled
  · exact .inl ⟨_, rfl, Option.some.inj spelled⟩
  · exact .inr ⟨_, rfl, Option.some.inj spelled⟩
  · cases spelled

theorem spelling?_word [Library] (begins : first = '\\' ∨ isIdentifierStart first = true)
    (spelled : kind.spelling? = some (String.ofList (first :: body))) :
    ∃ k, kind = .word (.keyword k) ∧ k.spelling = String.ofList (first :: body) := by
  rcases spelling?_cases spelled with ⟨p, -, same⟩ | known
  · exact absurd begins (p.begins_no_word (by rw [same, String.toList_ofList]))
  · exact known

theorem spelling?_punctuator [Library] (begins : ¬(first = '\\' ∨ isIdentifierStart first = true))
    (spelled : kind.spelling? = some (String.ofList (first :: body))) :
    ∃ p, kind = .punctuator p ∧ p.spelling = String.ofList (first :: body) := by
  rcases spelling?_cases spelled with known | ⟨k, -, same⟩
  · exact known
  · exact absurd (.inr (k.begins_word (by rw [same, String.toList_ofList]))) begins

theorem spelling?_plain (spelled : kind.spelling? = some s) : PlainSpelling s.toList := by
  rcases spelling?_cases spelled with ⟨p, -, rfl⟩ | ⟨k, -, rfl⟩
  · exact p.plainSpelling
  · exact k.plainSpelling

theorem not_spelling (other : ¬PlainSpelling slice) (spelled : kind.spelling? = some s) :
    String.ofList slice ≠ s := by
  rintro rfl
  have plain := spelling?_plain spelled
  rw [String.toList_ofList] at plain
  exact other plain

/-- Neither a name nor a word nor a punctuator. -/
def Unnamed : TokenKind → Prop
  | name _ | word _ | punctuator _ => False
  | _ => True

theorem Agrees.of_unnamed (unnamed : kind.Unnamed) (other : ¬PlainSpelling slice) :
    kind.Agrees mode (String.ofList slice) := by
  refine ⟨?_, fun spelled same => absurd same (not_spelling other spelled), ?_, ?_⟩
  all_goals cases kind <;> first | exact unnamed.elim | simp [spelling?]

end TokenKind

open TokenKind

/-- The lexeme of a comment still begins like one. -/
theorem not_plainSpelling_comment (body : List Char) : ¬PlainSpelling (kept ('/' :: '*' :: body)) := by
  have opens : kept ('/' :: '*' :: body) = '/' :: '*' :: visible body := by
    rw [kept, if_pos (by rfl)]
    have solidus : isFormatControl '/' = false := by decide
    have star : isFormatControl '*' = false := by decide
    simp [visible, solidus, star]
  rw [opens]
  intro plain
  cases plain.comment

variable [Library]

/-- A number takes all that makes it one. -/
theorem BeginsNumber.inside {outcome : NumberOutcome} (begins : BeginsNumber first (body ++ after))
    (told : numberAt mode first (body ++ after) = (outcome, (first :: body).length)) : BeginsNumber first body := by
  rcases begins with digit | ⟨rfl, digit⟩
  · exact .inl digit
  · have longer : 1 < (numberAt mode '.' (body ++ after)).2 := numberAt_point digit
    rw [told] at longer
    cases body with
    | nil => exact absurd longer (by simp)
    | cons d body => exact .inr ⟨rfl, digit⟩

theorem WordOf.agrees (word : WordOf mode (first :: body) outcome)
    (begins : first = '\\' ∨ isIdentifierStart first = true) :
    (TokenKind.ofWord outcome).Agrees mode (String.ofList (first :: body)) := by
  cases word with
  | name _ unknown =>
    refine ⟨by rintro _ ⟨⟩, ?_, ?_, by rintro ⟨⟩⟩
    · rintro kind' s spelled rfl
      obtain ⟨k, rfl, same⟩ := spelling?_word begins spelled
      rw [← same, reservedWord?_spelling] at unknown
      cases unknown
    · rintro v ⟨rfl⟩ -
      rfl
  | @word w _ known =>
    refine ⟨?_, ?_, by rintro _ ⟨⟩, ?_⟩
    · intro s spelled
      cases w with
      | keyword k => exact (spelling_of_reservedWord? known).symm.trans (Option.some.inj spelled)
      | reserved => cases spelled
    · rintro kind' s spelled rfl
      obtain ⟨k, rfl, same⟩ := spelling?_word begins spelled
      rw [← same, reservedWord?_spelling] at known
      cases known
      rfl
    · rintro ⟨rfl⟩
      exact known
  | escaped backslash noWord =>
    have inside : '\\' ∈ (String.ofList (first :: body)).toList := by rwa [String.toList_ofList]
    have other : ¬PlainSpelling (first :: body) := fun plain => plain.escape backslash
    cases outcome with
    | name v =>
      exact ⟨by rintro _ ⟨⟩, fun spelled same => absurd same (not_spelling other spelled),
        fun _ plain => absurd inside plain, by rintro ⟨⟩⟩
    | word w => exact absurd rfl (noWord w)
    | malformedEscape _ => exact .of_unnamed trivial other

theorem punctuatorAt_agrees {p : Option Punctuator} (begins : ¬(first = '\\' ∨ isIdentifierStart first = true))
    (told : punctuatorAt first (body ++ after) = (p, (first :: body).length)) :
    (TokenKind.ofPunctuator p).Agrees mode (String.ofList (first :: body)) := by
  cases p with
  | some p =>
    obtain ⟨leads, length⟩ := punctuatorAt_some told
    have whole : p.spelling.toList = first :: body :=
      (List.prefix_of_prefix_length_le leads.spelled ⟨after, rfl⟩ length.ge).eq_of_length length.symm
    have spelling : p.spelling = String.ofList (first :: body) := by rw [← whole, String.ofList_toList]
    refine ⟨?_, ?_, by rintro _ ⟨⟩, by rintro ⟨⟩⟩
    · intro s spelled
      exact spelling.symm.trans (Option.some.inj spelled)
    · rintro kind' s spelled rfl
      obtain ⟨q, rfl, same⟩ := spelling?_punctuator begins spelled
      obtain rfl := Punctuator.spelling_injective (congrArg String.toList (spelling.trans same.symm))
      rfl
  | none =>
    obtain ⟨-, never⟩ := punctuatorAt_none told
    refine ⟨by rintro _ ⟨⟩, ?_, by rintro _ ⟨⟩, by rintro ⟨⟩⟩
    rintro kind' s spelled rfl
    obtain ⟨q, -, same⟩ := spelling?_punctuator begins spelled
    exact absurd (by rw [same, String.toList_ofList]; rfl) (never q)

theorem TokenFrom.agrees (scanned : TokenFrom mode first (body ++ after) kind (first :: body).length) :
    kind.Agrees mode (String.ofList (first :: body)) := by
  cases scanned with
  | @string outcome quote _ same =>
    subst same
    have other : ¬PlainSpelling (first :: body) := fun plain => plain.string quote
    cases outcome <;> exact .of_unnamed trivial other
  | @number outcome _ begins told same =>
    subst same
    have other : ¬PlainSpelling (first :: body) := fun plain => plain.number (begins.inside told)
    cases outcome <;> exact .of_unnamed trivial other
  | word begins told same =>
    subst same
    exact (wordAt_wordOf told).agrees begins
  | punctuator _ _ begins told same =>
    subst same
    exact punctuatorAt_agrees begins told

theorem ReadAs.agrees {loc : Location} {p : Placed} (read : ReadAs mode loc after slice p) :
    p.kind.Agrees mode (String.ofList (kept slice)) := by
  have scanned {kind : TokenKind} (some_ : slice ≠ []) (plain : opensComment slice = false)
      (told : leadingToken? mode (slice ++ after) = some (kind, slice.length)) :
      kind.Agrees mode (String.ofList (kept slice)) := by
    obtain ⟨first, body, rfl, -, scanned⟩ := leadingToken?_scanner some_ told
    rw [kept_of_plain plain]
    exact scanned.agrees
  cases read with
  | ending _ => exact .of_unnamed trivial id
  | lineBreak =>
    have other : ¬PlainSpelling ['\n'] := fun plain => plain.lineTerminator rfl
    exact .of_unnamed trivial other
  | crossingComment _ _ => exact .of_unnamed trivial (not_plainSpelling_comment _)
  | openComment _ _ => exact .of_unnamed trivial (not_plainSpelling_comment _)
  | brokenEscape some_ plain told _ => exact scanned some_ plain told
  | plain some_ plain told _ => exact scanned some_ plain told

/-- The lexeme of a kind with a spelling is that spelling, and no other token has it as its lexeme. A name without
a backslash in its lexeme is the lexeme, and the lexeme of a reserved word is reserved in that mode. -/
theorem readAll_spellings (text : String) (c : Config) :
    ∃ tokens : List Token, (ofConfig (.ofText text) c).readAll.1 = tokens.map .ok ∧
      ∀ t ∈ tokens,
        (∀ s, t.kind.spelling? = some s → t.lexeme = s) ∧
        (∀ kind s, kind.spelling? = some s → t.lexeme = s → t.kind = kind) ∧
        (∀ v, t.kind = .name v → '\\' ∉ t.lexeme.toList → v = t.lexeme) ∧
        (t.kind = .word .reserved → reservedWord? t.lexeme c.mode = some .reserved) := by
  obtain ⟨tiles, answers, tiled⟩ := readAll_ofText c text
  refine ⟨tiles.map (·.token), by rw [answers, List.map_map]; rfl, ?_⟩
  intro t member
  obtain ⟨tile, inside, rfl⟩ := List.mem_map.1 member
  obtain ⟨before, after, rfl⟩ := List.append_of_mem inside
  obtain ⟨fits, -⟩ := tiled.fits
  have agrees : tile.token.kind.Agrees c.mode tile.token.lexeme := fits.lexeme ▸ fits.read.agrees
  exact ⟨fun _ => agrees.spelled, fun _ _ => agrees.known, fun _ => agrees.name, agrees.reserved⟩

end EcmaLex
