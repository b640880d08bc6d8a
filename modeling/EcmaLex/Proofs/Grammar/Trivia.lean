import EcmaLex.Proofs.Grammar.Escapes
import Mathlib.Data.List.Infix

/-!
The text between tokens: blanks, line breaks and comments. A block comment ends at the first solidus
that stands after a star when format controls are left out. There is only one way to see a text as a
run of trivia (`Spaced.unique`).
-/
namespace EcmaLex
open Text

/-- NUL, whitespace or a format control. -/
def isBlank (c : Char) : Bool := c = '\x00' || isWhitespace c || isFormatControl c

def visible (text : List Char) : List Char := text.filter fun c => !isFormatControl c

/-- The text ends in `*/`, seen without its format controls. -/
def EndsComment (text : List Char) : Prop := ['*', '/'] <:+ visible text

/-- What stands after `/*` ends the comment, and no sooner than at its end. -/
def ClosedComment (body : List Char) : Prop :=
  EndsComment body ∧ ∀ text, text <+: body → EndsComment text → text = body

/-- What stands after `/*` does not end the comment. -/
def OpenComment (body : List Char) : Prop := ∀ text, text <+: body → ¬EndsComment text

inductive Trivia where
  | blank (c : Char)
  | lineBreak
  /-- What stands after `//`. -/
  | lineComment (body : List Char)
  /-- What stands after `/*`. -/
  | blockComment (body : List Char)
  deriving DecidableEq, Repr

/-- A block comment that goes over a line break. -/
def Trivia.crossesLine : Trivia → Bool
  | .blockComment body => '\n' ∈ body
  | _ => false

/-- The line breaks outside comments, and the comments that go over one. -/
def lineBreaks (items : List Trivia) : Nat := items.count .lineBreak + items.countP Trivia.crossesLine

/-- The text is a run of trivia when `after` stands after it. A line comment goes on to the end of
its line. -/
inductive Spaced (after : List Char) : List Char → List Trivia → Prop
  | nil : Spaced after [] []
  | blank {c text items} : isBlank c = true → Spaced after text items →
      Spaced after (c :: text) (.blank c :: items)
  | lineBreak {text items} : Spaced after text items →
      Spaced after ('\n' :: text) (.lineBreak :: items)
  | lineComment {body text items} : '\n' ∉ body → (∀ c, (text ++ after).head? = some c → c = '\n') →
      Spaced after text items →
      Spaced after ('/' :: '/' :: (body ++ text)) (.lineComment body :: items)
  | blockComment {body text items} : ClosedComment body → Spaced after text items →
      Spaced after ('/' :: '*' :: (body ++ text)) (.blockComment body :: items)

/-- The text of an item. -/
def Trivia.source : Trivia → List Char
  | .blank c => [c]
  | .lineBreak => ['\n']
  | .lineComment body => '/' :: '/' :: body
  | .blockComment body => '/' :: '*' :: body

/-- The item may stand before `after`. -/
def Trivia.Stands (after : List Char) : Trivia → Prop
  | .blank c => isBlank c = true
  | .lineBreak => True
  | .lineComment body => '\n' ∉ body ∧ ∀ c, after.head? = some c → c = '\n'
  | .blockComment body => ClosedComment body

/-- No item that stays on its line begins the text. -/
def StandsOut (text : List Char) : Prop :=
  ∀ (item : Trivia) (rest : List Char), item.Stands rest → text = item.source ++ rest → '\n' ∈ item.source

theorem OpenComment.nil : OpenComment [] := by
  intro text inside ends
  rw [List.prefix_nil.1 inside] at ends
  exact absurd ends.length_le (by decide)

variable {body : List Char} {c : Char}

theorem OpenComment.push (opened : OpenComment body) (goes : ¬EndsComment (body ++ [c])) :
    OpenComment (body ++ [c]) := by
  intro text inside ends
  rcases List.prefix_concat_iff.1 inside with rfl | before
  · exact goes ends
  · exact opened text before ends

theorem OpenComment.close (opened : OpenComment body) (ends : EndsComment (body ++ [c])) :
    ClosedComment (body ++ [c]) := by
  refine ⟨ends, ?_⟩
  intro text inside ends'
  rcases List.prefix_concat_iff.1 inside with rfl | before
  · rfl
  · exact absurd ends' (opened text before)

theorem endsComment_format (format : isFormatControl c = true) :
    EndsComment (body ++ [c]) ↔ EndsComment body := by
  simp [EndsComment, visible, format]

theorem endsComment_visible (plain : isFormatControl c = false) :
    EndsComment (body ++ [c]) ↔ c = '/' ∧ (visible body).getLast? = some '*' := by
  have split : visible (body ++ [c]) = visible body ++ [c] := by simp [visible, plain]
  have two : ['*', '/'] = ['*'] ++ ['/'] := rfl
  unfold EndsComment
  rw [split, two]
  constructor
  · rintro ⟨before, whole⟩
    rw [← List.append_assoc] at whole
    obtain ⟨front, last⟩ := List.append_inj' whole rfl
    rw [← front]
    exact ⟨by simpa using last.symm, by simp⟩
  · rintro ⟨rfl, star⟩
    obtain ⟨before, whole⟩ := List.getLast?_eq_some_iff.1 star
    exact ⟨before, by rw [whole, List.append_assoc]⟩

theorem ClosedComment.unique {body' text text' : List Char} (closed : ClosedComment body)
    (closed' : ClosedComment body') (same : body ++ text = body' ++ text') :
    body = body' ∧ text = text' := by
  have equal : body = body' := by
    rcases List.prefix_or_prefix_of_prefix (List.prefix_append body text)
      (same ▸ List.prefix_append body' text') with shorter | shorter
    · exact closed'.2 body shorter closed.1
    · exact (closed.2 body' shorter closed'.1).symm
  subst equal
  exact ⟨rfl, List.append_cancel_left same⟩

variable {after text : List Char} {items : List Trivia}

theorem Spaced.append {first second : List Char} {before : List Trivia}
    (front : Spaced (second ++ after) first before) (back : Spaced after second items) :
    Spaced after (first ++ second) (before ++ items) := by
  induction front with
  | nil => exact back
  | blank blank_ _ ih => exact .blank blank_ ih
  | lineBreak _ ih => exact .lineBreak ih
  | lineComment plain ends _ ih =>
    rw [List.cons_append, List.cons_append, List.append_assoc]
    exact .lineComment plain (by rwa [List.append_assoc]) ih
  | blockComment closed _ ih =>
    rw [List.cons_append, List.cons_append, List.append_assoc]
    exact .blockComment closed ih

theorem spaced_blanks {gap : List Char} (blank : ∀ c ∈ gap, isBlank c = true) :
    Spaced after gap (gap.map .blank) := by
  induction gap with
  | nil => exact .nil
  | cons c gap ih => exact .blank (blank c (by simp)) (ih fun d member => blank d (by simp [member]))

theorem spaced_lineComment (plain : '\n' ∉ body) (ends : ∀ c, after.head? = some c → c = '\n') :
    Spaced after ('/' :: '/' :: body) [.lineComment body] := by
  have spaced : Spaced after ('/' :: '/' :: (body ++ [])) [.lineComment body] :=
    .lineComment plain ends .nil
  rwa [List.append_nil] at spaced

theorem spaced_blockComment (closed : ClosedComment body) :
    Spaced after ('/' :: '*' :: body) [.blockComment body] := by
  have spaced : Spaced after ('/' :: '*' :: (body ++ [])) [.blockComment body] :=
    .blockComment closed .nil
  rwa [List.append_nil] at spaced

theorem lineBreaks_append (first second : List Trivia) :
    lineBreaks (first ++ second) = lineBreaks first + lineBreaks second := by
  simp only [lineBreaks, List.count_append, List.countP_append]
  omega

/-- There are line breaks exactly where a line feed stands in the text. -/
theorem Spaced.lineBreaks_eq_zero (spaced : Spaced after text items) :
    lineBreaks items = 0 ↔ '\n' ∉ text := by
  unfold lineBreaks
  induction spaced with
  | nil => simp
  | @blank c text items blank_ _ ih =>
    have other : '\n' ≠ c := by
      rintro rfl
      exact absurd blank_ (by decide)
    simpa [Trivia.crossesLine, other] using ih
  | lineBreak _ _ => simp
  | lineComment plain _ _ ih => simpa [Trivia.crossesLine, plain] using ih
  | @blockComment body text items _ _ ih =>
    by_cases crossed : '\n' ∈ body
    · simp [Trivia.crossesLine, crossed]
    · simpa [Trivia.crossesLine, crossed] using ih

theorem lineComment_unique {body' text' : List Char} (plain : '\n' ∉ body) (plain' : '\n' ∉ body')
    (ends : ∀ c, text.head? = some c → c = '\n') (ends' : ∀ c, text'.head? = some c → c = '\n')
    (same : body ++ text = body' ++ text') : body = body' ∧ text = text' := by
  have line {body text : List Char} (plain : '\n' ∉ body)
      (ends : ∀ c, text.head? = some c → c = '\n') : (body ++ text).takeWhile (· ≠ '\n') = body := by
    apply takeWhile_exact
    · intro c member
      exact decide_eq_true fun feed => plain (feed ▸ member)
    · intro c head
      simp [ends c head]
  have equal : body = body' := by rw [← line plain ends, same, line plain' ends']
  subst equal
  exact ⟨rfl, List.append_cancel_left same⟩

theorem Trivia.source_ne_nil (item : Trivia) : item.source ≠ [] := by
  cases item <;> exact List.cons_ne_nil _ _

/-- What a text begins with is one item at most. -/
theorem Trivia.Stands.unique {item item' : Trivia} {rest rest' : List Char} (stands : item.Stands rest)
    (stands' : item'.Stands rest') (same : item.source ++ rest = item'.source ++ rest') :
    item = item' ∧ rest = rest' := by
  cases item <;> cases item' <;>
    simp only [Trivia.source, Trivia.Stands, List.cons_append, List.nil_append, List.cons.injEq]
      at same stands stands'
  case blank.blank => exact ⟨congrArg _ same.1, same.2⟩
  case lineBreak.lineBreak => exact ⟨rfl, same.2⟩
  case lineComment.lineComment =>
    obtain ⟨rfl, rests⟩ := lineComment_unique stands.1 stands'.1 stands.2 stands'.2 same.2.2
    exact ⟨rfl, rests⟩
  case blockComment.blockComment =>
    obtain ⟨rfl, rests⟩ := stands.unique stands' same.2.2
    exact ⟨rfl, rests⟩
  case blank.lineBreak | blank.lineComment | blank.blockComment =>
    rw [same.1] at stands
    exact absurd stands (by decide)
  case lineBreak.blank | lineComment.blank | blockComment.blank =>
    rw [← same.1] at stands'
    exact absurd stands' (by decide)
  all_goals simp at same

theorem Spaced.of_nil (spaced : Spaced after text []) : text = [] := by
  cases spaced
  rfl

theorem Spaced.uncons {item : Trivia} (spaced : Spaced after text (item :: items)) :
    ∃ rest, text = item.source ++ rest ∧ item.Stands (rest ++ after) ∧ Spaced after rest items := by
  cases spaced with
  | blank blank_ spaced => exact ⟨_, rfl, blank_, spaced⟩
  | lineBreak spaced => exact ⟨_, rfl, trivial, spaced⟩
  | lineComment plain ends spaced => exact ⟨_, rfl, ⟨plain, ends⟩, spaced⟩
  | blockComment closed spaced => exact ⟨_, rfl, closed, spaced⟩

/-- The trivia of a text are determined by it. -/
theorem Spaced.unique {items' : List Trivia} (first : Spaced after text items)
    (second : Spaced after text items') : items = items' := by
  induction items generalizing text items' with
  | nil =>
    cases items' with
    | nil => rfl
    | cons item' items' =>
      obtain ⟨rest, rfl, _, _⟩ := second.uncons
      exact absurd (List.append_eq_nil_iff.1 first.of_nil).1 item'.source_ne_nil
  | cons item items ih =>
    obtain ⟨rest, rfl, stands, first'⟩ := first.uncons
    cases items' with
    | nil => exact absurd (List.append_eq_nil_iff.1 second.of_nil).1 item.source_ne_nil
    | cons item' items' =>
      obtain ⟨rest', same, stands', second'⟩ := second.uncons
      have whole : item.source ++ (rest ++ after) = item'.source ++ (rest' ++ after) := by
        rw [← List.append_assoc, ← List.append_assoc, same]
      obtain ⟨rfl, rests⟩ := stands.unique stands' whole
      rw [← List.append_cancel_right rests] at second'
      rw [ih first' second']

/-- A gap of one line goes as far as the trivia go. -/
theorem Spaced.gap_unique {gap gap' after' : List Char} {items' : List Trivia}
    (first : Spaced after gap items) (second : Spaced after' gap' items') (oneLine : '\n' ∉ gap)
    (oneLine' : '\n' ∉ gap') (out : StandsOut after) (out' : StandsOut after')
    (same : gap ++ after = gap' ++ after') : gap = gap' ∧ after = after' := by
  induction items generalizing gap gap' items' with
  | nil =>
    obtain rfl := first.of_nil
    cases items' with
    | nil =>
      obtain rfl := second.of_nil
      exact ⟨rfl, same⟩
    | cons item' items' =>
      obtain ⟨rest', rfl, stands', _⟩ := second.uncons
      refine absurd (List.mem_append_left _ ?_) oneLine'
      exact out item' _ stands' (same.trans (List.append_assoc _ _ _))
  | cons item items ih =>
    obtain ⟨rest, rfl, stands, first'⟩ := first.uncons
    cases items' with
    | nil =>
      obtain rfl := second.of_nil
      refine absurd (List.mem_append_left _ ?_) oneLine
      exact out' item _ stands (same.symm.trans (List.append_assoc _ _ _))
    | cons item' items' =>
      obtain ⟨rest', rfl, stands', second'⟩ := second.uncons
      rw [List.append_assoc, List.append_assoc] at same
      obtain ⟨rfl, rests⟩ := stands.unique stands' same
      rw [List.mem_append, not_or] at oneLine oneLine'
      obtain ⟨rfl, afters⟩ := ih first' second' oneLine.2 oneLine'.2 rests
      exact ⟨rfl, afters⟩

end EcmaLex
