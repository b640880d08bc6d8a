import EcmaLex.Proofs.Reading.Comments
import EcmaLex.Proofs.Source.HandedOut

/-!
How far a block comment reaches. It ends at the first star and solidus with nothing visible between them, for
format controls are passed over here as they are between tokens (`blockComment_extent`). Two characters next
to each other are too little to look for (`blockComment_extent_adjacent`).
-/
namespace EcmaLex
open CharSource Text

/-- A star and a solidus with nothing but format controls between them. -/
def ClosingPair (pair : List Char) : Prop :=
  ∃ formats, pair = '*' :: (formats ++ ['/']) ∧ ∀ c ∈ formats, isFormatControl c = true

/-- A closing pair, and none in the text up to it that ends sooner. -/
structure FirstPair (before pair : List Char) : Prop where
  closes : ClosingPair pair
  first {front pair'} : ClosingPair pair' → front ++ pair' <+: before ++ pair → front ++ pair' = before ++ pair

variable {text front before pair body rest : List Char}

theorem visible_formats (formats : ∀ c ∈ text, isFormatControl c = true) : visible text = [] := by
  simpa [visible] using formats

theorem ClosingPair.ends (closes : ClosingPair pair) (front : List Char) : EndsComment (front ++ pair) := by
  obtain ⟨formats, rfl, invisible⟩ := closes
  refine ⟨visible front, ?_⟩
  have star : isFormatControl '*' = false := by decide
  have solidus : isFormatControl '/' = false := by decide
  have between := visible_formats invisible
  unfold visible at between ⊢
  simp [star, solidus, between]

/-- Where a text ends a comment, a closing pair stands in front of some format controls. -/
theorem EndsComment.exists_pair (ends : EndsComment text) :
    ∃ before pair formats, text = before ++ pair ++ formats ∧ ClosingPair pair := by
  obtain ⟨_, seen⟩ := ends
  obtain ⟨before, behind, rfl, -, pair⟩ := List.filter_eq_append_iff.1 seen.symm
  obtain ⟨formats, behind, rfl, -, -, solidus⟩ := List.filter_eq_cons_iff.1 pair
  obtain ⟨between, formats', rfl, invisible, -, -⟩ := List.filter_eq_cons_iff.1 solidus
  refine ⟨before ++ formats, '*' :: (between ++ ['/']), formats', by simp, between, rfl, ?_⟩
  simpa using invisible

theorem ClosedComment.firstPair (closed : ClosedComment (before ++ pair)) (closes : ClosingPair pair) :
    FirstPair before pair where
  closes := closes
  first closes' inside := closed.2 _ inside (closes'.ends _)

theorem FirstPair.closed (first : FirstPair before pair) : ClosedComment (before ++ pair) := by
  refine ⟨first.closes.ends before, fun text inside ends => ?_⟩
  obtain ⟨front, pair', formats, rfl, closes'⟩ := ends.exists_pair
  have whole := first.first closes' ((List.prefix_append _ formats).trans inside)
  rw [whole] at inside ⊢
  exact inside.eq_of_length_le (by simp)

theorem ClosedComment.exists_firstPair (closed : ClosedComment body) :
    ∃ before pair, body = before ++ pair ∧ FirstPair before pair := by
  obtain ⟨before, pair, formats, rfl, closes⟩ := closed.1.exists_pair
  have sooner := closed.2 (before ++ pair) (List.prefix_append _ formats) (closes.ends before)
  rw [← sooner] at closed ⊢
  exact ⟨before, pair, rfl, closed.firstPair closes⟩

theorem OpenComment.no_pair (opened : OpenComment text) (closes : ClosingPair pair) : ¬pair <:+: text := by
  rintro ⟨before, after, rfl⟩
  exact opened _ (List.prefix_append _ after) (closes.ends before)

/-- A pair that begins with the first star of the text is the first one. -/
theorem ClosingPair.first (closes : ClosingPair pair) (noStar : '*' ∉ before) : FirstPair before pair where
  closes := closes
  first {front pair'} closes' inside := by
    obtain ⟨formats, rfl, invisible⟩ := closes
    obtain ⟨formats', rfl, -⟩ := closes'
    have noSolidus : '/' ∉ formats := fun member => absurd (invisible _ member) (by decide)
    have oneStar : '*' ∉ formats ++ ['/'] := by
      have own : '*' ∉ formats := fun member => absurd (invisible _ member) (by decide)
      simp [own]
    obtain ⟨rest, whole⟩ := inside
    rw [List.append_assoc, List.cons_append] at whole
    obtain ⟨rfl, -, behind⟩ := (List.append_cons_inj_of_notMem noStar oneStar).1 whole.symm
    rcases List.prefix_concat_iff.1 ⟨rest, behind.symm⟩ with same | sooner
    · rw [same]
    · exact absurd (sooner.subset (by simp)) noSolidus

/-- A soft hyphen may stand in a closing pair. -/
theorem closingPair_hyphen : ClosingPair ['*', '\u00ad', '/'] := by
  have hyphen : isFormatControl '\u00ad' = true := by decide +kernel
  exact ⟨['\u00ad'], rfl, by simp [hyphen]⟩

theorem FirstPair.lineFeed (first : FirstPair before pair) : '\n' ∈ before ++ pair ↔ '\n' ∈ before := by
  obtain ⟨formats, rfl, invisible⟩ := first.closes
  have visible_ : '\n' ∉ formats := fun member => absurd (invisible _ member) (by decide)
  simp [visible_]

variable {b : SourceBuffer} {t : Tape}

theorem blockComment_buffer (follows : b.Follows t) :
    ∃ result body b' t', blockComment.run {} b = (.ok result, b') ∧ b'.Follows t' ∧
      t.ahead = body ++ t'.ahead ∧ result.Ended (marked body) t'.ahead := by
  obtain ⟨result, body, t', ran, took, ended⟩ := blockComment_tape t
  obtain ⟨b', ran', follows'⟩ := (SourceBuffer.simulation.converse.run follows blockComment {}).answer ran
  exact ⟨result, body, b', t', ran', follows', took.ahead, ended⟩

/-- Of a text that closes a comment just this is read. -/
theorem blockComment_closed {body rest : List Mark} (follows : b.Follows t) (ahead : t.ahead = body ++ rest)
    (closed : ClosedComment (marked body)) :
    ∃ crossed b' t', blockComment.run {} b = (.ok (.closed crossed), b') ∧
      (crossed = true ↔ '\n' ∈ marked body) ∧ b'.Follows t' ∧ t'.ahead = rest := by
  obtain ⟨result, body', b', t', ran, follows', whole, ended⟩ := blockComment_buffer follows
  rw [whole] at ahead
  have text := congrArg marked ahead
  rw [marked_append, marked_append] at text
  cases result with
  | closed crossed =>
    obtain ⟨same, -⟩ := ended.1.unique closed text
    have length : body'.length = body.length := by simpa using congrArg List.length same
    obtain ⟨rfl, rfl⟩ := List.append_inj ahead length
    exact ⟨crossed, b', t', ran, ended.2, follows', rfl⟩
  | unterminated =>
    obtain ⟨opened, nothing⟩ := ended
    rw [nothing, marked_nil, List.append_nil] at text
    exact absurd closed.1 (opened _ ⟨_, text.symm⟩)

/-- Where the text has a closing pair, it has a first one. The comment is closed behind that, and has crossed a
line if a line terminator stands before it. Without a pair all is taken, and the comment is unterminated. -/
theorem blockComment_extent (follows : b.Follows t) :
    ((∃ pair, ClosingPair pair ∧ pair <:+: marked t.ahead) →
      ∃ before pair rest, t.ahead = before ++ (pair ++ rest) ∧ FirstPair (marked before) (marked pair)) ∧
    (∀ before pair rest, t.ahead = before ++ (pair ++ rest) → FirstPair (marked before) (marked pair) →
      ∃ crossed b' t', blockComment.run {} b = (.ok (.closed crossed), b') ∧
        (crossed = true ↔ '\n' ∈ marked before) ∧ b'.Follows t' ∧ t'.ahead = rest) ∧
    ((∀ pair, ClosingPair pair → ¬pair <:+: marked t.ahead) →
      ∃ b' t', blockComment.run {} b = (.ok .unterminated, b') ∧ b'.Follows t' ∧ t'.ahead = []) := by
  obtain ⟨result, body, b', t', ran, follows', whole, ended⟩ := blockComment_buffer follows
  refine ⟨?_, ?_, ?_⟩
  · rintro ⟨pair, closes, inside⟩
    cases result with
    | closed crossed =>
      obtain ⟨_, _, text, first⟩ := ended.1.exists_firstPair
      obtain ⟨before, pair, rfl, rfl, rfl⟩ := marked_eq_append text
      exact ⟨before, pair, t'.ahead, by rw [whole, List.append_assoc], first⟩
    | unterminated =>
      rw [whole, ended.2, List.append_nil] at inside
      exact absurd inside (ended.1.no_pair closes)
  · intro before pair rest ahead first
    have closed := first.closed
    rw [← marked_append] at closed
    rw [← List.append_assoc] at ahead
    obtain ⟨crossed, b', t', ran, line, follows', left⟩ := blockComment_closed follows ahead closed
    rw [marked_append, first.lineFeed] at line
    exact ⟨crossed, b', t', ran, line, follows', left⟩
  · intro never
    cases result with
    | closed crossed =>
      obtain ⟨before, pair, text, first⟩ := ended.1.exists_firstPair
      refine absurd ⟨before, marked t'.ahead, ?_⟩ (never pair first.closes)
      rw [whole, marked_append, text]
    | unterminated => exact ⟨b', t', ran, follows', ended.2⟩

/-- A soft hyphen between star and solidus, and a line terminator before them. -/
theorem blockComment_extent_hyphen :
    let b := SourceBuffer.ofReader (.ofText "/\r*\u00ad/y*/") 512 1
    b.toCome = ['/', '\n'] ++ (['*', '\u00ad', '/'] ++ ['y', '*', '/']) ∧
      FirstPair ['/', '\n'] ['*', '\u00ad', '/'] ∧
      ∃ b', blockComment.run {} b = (.ok (.closed true), b') ∧ b'.toCome = ['y', '*', '/'] := by
  intro b
  have same : normalize "/\r*\u00ad/y*/".toList = ['/', '\n'] ++ (['*', '\u00ad', '/'] ++ ['y', '*', '/']) := rfl
  have follows : b.Follows _ := SourceBuffer.follows_ofText same 512 1
  have toCome : b.toCome = _ := SourceBuffer.toCome_ofText same 512 1
  have first : FirstPair ['/', '\n'] ['*', '\u00ad', '/'] := closingPair_hyphen.first (by decide)
  obtain ⟨before, _, ahead, text, text'⟩ := marked_eq_append (follows.toCome.symm.trans toCome)
  obtain ⟨pair, rest, rfl, pairText, left⟩ := marked_eq_append text'
  obtain ⟨crossed, b', t', ran, line, follows', ahead'⟩ :=
    (blockComment_extent follows).2.1 before pair rest ahead (by rwa [text, pairText])
  obtain rfl := line.2 (by simp [text])
  exact ⟨toCome, first, b', ran, by rw [follows'.toCome, ahead', left]⟩

/-- The only star here with a solidus right behind it comes too late: the comment has been closed before. -/
theorem blockComment_extent_adjacent :
    let b := SourceBuffer.ofReader (.ofText "*\u00ad/a*/") 512 1
    b.toCome = ['*', '\u00ad', '/', 'a'] ++ ['*', '/'] ∧ ¬['*', '/'] <:+: ['*', '\u00ad', '/', 'a', '*'] ∧
      ∃ b', blockComment.run {} b = (.ok (.closed false), b') ∧ b'.toCome = ['a', '*', '/'] := by
  intro b
  have same : normalize "*\u00ad/a*/".toList = ['*', '\u00ad', '/'] ++ ['a', '*', '/'] := rfl
  have follows : b.Follows _ := SourceBuffer.follows_ofText same 512 1
  have toCome : b.toCome = _ := SourceBuffer.toCome_ofText same 512 1
  have first : FirstPair [] ['*', '\u00ad', '/'] := closingPair_hyphen.first (by decide)
  obtain ⟨body, rest, ahead, text, left⟩ := marked_eq_append (follows.toCome.symm.trans toCome)
  obtain ⟨crossed, b', t', ran, line, follows', ahead'⟩ :=
    blockComment_closed follows ahead (text ▸ first.closed)
  have oneLine : crossed = false := by
    rw [← Bool.not_eq_true, line, text]
    decide
  subst oneLine
  exact ⟨toCome, by decide, b', ran, by rw [follows'.toCome, ahead', left]⟩

end EcmaLex
