import EcmaLex.Proofs.Grammar.Followers
import Mathlib.Data.List.Infix

/-!
The punctuator that a text begins with is the longest one, except that a question mark before a fraction stays
alone (`punctuatorAt_some`). Extending a punctuator as long as possible finds it, for what a punctuator begins
with is a punctuator too, two points excepted.
-/
namespace EcmaLex
open Text

/-- A question mark, a point and a digit. -/
def BeforeFraction (text : List Char) : Prop :=
  ∃ d rest, text = '?' :: '.' :: d :: rest ∧ isDecimalDigit d = true

namespace Punctuator

/-- What a text begins with. -/
structure Leads (text : List Char) (p : Punctuator) : Prop where
  spelled : p.spelling.toList <+: text
  fraction : BeforeFraction text → p = question
  longest : ¬BeforeFraction text → ∀ q : Punctuator, q.spelling.toList <+: text → q ≠ p →
    q.spelling.toList.length < p.spelling.toList.length

variable {p q : Punctuator} {c first : Char} {front rest text : List Char} {n : Nat}

def all : List Punctuator :=
  [leftParen, rightParen, leftBrace, rightBrace, leftBracket, rightBracket, semicolon, comma, colon,
    dot, ellipsis, question, optionalChain, arrow, bitOr, bitXor, bitAnd, bitNot, or, and, nullish,
    not, shiftLeft, shiftRight, shiftRightUnsigned, add, sub, mul, div, mod, exp, increment,
    decrement, eq, ne, strictEq, strictNe, less, lessEq, greater, greaterEq, assign, assignBitOr,
    assignBitXor, assignBitAnd, assignShiftLeft, assignShiftRight, assignShiftRightUnsigned,
    assignAdd, assignSub, assignMul, assignDiv, assignMod, assignExp, assignAnd, assignOr,
    assignNullish]

theorem mem_all (p : Punctuator) : p ∈ all := by
  cases p <;> decide

theorem spelling_injective (same : p.spelling.toList = q.spelling.toList) : p = q := by
  have table : ∀ p ∈ all, ∀ q ∈ all, p.spelling.toList = q.spelling.toList → p = q := by decide +kernel
  exact table p p.mem_all q q.mem_all same

/-- The punctuators of one character are those whose spelling is that character. -/
theorem single?_eq_some_iff : single? c = some p ↔ p.spelling.toList = [c] := by
  refine ⟨spelling_single?, fun spelled => ?_⟩
  have table : ∀ p ∈ all, p.spelling.toList.length = 1 →
      single? (p.spelling.toList.headD ' ') = some p := by decide +kernel
  simpa [spelled] using table p p.mem_all

/-- One more character makes the punctuator that is spelled with it. -/
theorem extend?_eq_some_iff : p.extend? c = some q ↔ q.spelling.toList = p.spelling.toList ++ [c] := by
  refine ⟨spelling_extend?, fun spelled => ?_⟩
  have table : ∀ p ∈ all, ∀ q ∈ all, q.spelling.toList.dropLast = p.spelling.toList →
      p.extend? (q.spelling.toList.getLastD ' ') = some q := by decide +kernel
  simpa [spelled] using table p p.mem_all q q.mem_all

theorem spelled_inside (inside : front <+: p.spelling.toList) (some_ : front ≠ []) :
    (∃ q : Punctuator, q.spelling.toList = front) ∨ front = ['.', '.'] := by
  have table : ∀ p ∈ all, ∀ front ∈ p.spelling.toList.inits,
      front = [] ∨ (∃ q ∈ all, q.spelling.toList = front) ∨ front = ['.', '.'] := by decide +kernel
  have known := (table p p.mem_all front ((List.mem_inits _ _).2 inside)).resolve_left some_
  exact known.imp_left fun ⟨q, _, spelled⟩ => ⟨q, spelled⟩

theorem eq_ellipsis (points : ['.', '.'] <+: p.spelling.toList) : p = ellipsis := by
  have table : ∀ p ∈ all, ['.', '.'] <+: p.spelling.toList → p = ellipsis := by decide +kernel
  exact table p p.mem_all points

/-- Only a question mark and its extension by a point come before a fraction. -/
theorem beforeFraction_cases (fraction : BeforeFraction (p.spelling.toList ++ rest)) :
    p = question ∧ rest.head? = some '.' ∨ p = optionalChain ∧ rest.head?.any isDecimalDigit = true := by
  obtain ⟨d, rest', same, digit⟩ := fraction
  cases p <;> simp [spelling] at same
  case question => exact .inl ⟨rfl, by simp [same]⟩
  case optionalChain => exact .inr ⟨rfl, by simp [same, digit]⟩

/-- The longest one is the only one that no other is as long as. -/
theorem lt_of_le (spelled : p.spelling.toList <+: text) (spelled' : q.spelling.toList <+: text)
    (most : q.spelling.toList.length ≤ p.spelling.toList.length) (other : q ≠ p) :
    q.spelling.toList.length < p.spelling.toList.length := by
  refine Nat.lt_of_le_of_ne most fun same => other ?_
  exact spelling_injective ((List.prefix_of_prefix_length_le spelled' spelled most).eq_of_length same)

/-- What a punctuator cannot be extended by keeps it from being part of a longer one. -/
theorem le_of_stays (stays : p.extend? c = none) (points : ¬(p = dot ∧ c = '.'))
    (spelled : q.spelling.toList <+: p.spelling.toList ++ c :: rest) :
    q.spelling.toList.length ≤ p.spelling.toList.length := by
  by_contra longer
  have whole : p.spelling.toList ++ [c] <+: p.spelling.toList ++ c :: rest := by simp
  have inside : p.spelling.toList ++ [c] <+: q.spelling.toList :=
    List.prefix_of_prefix_length_le whole spelled (by simp; omega)
  rcases spelled_inside inside (by simp) with ⟨longer, spelled⟩ | dots
  · cases (extend?_eq_some_iff.2 spelled).symm.trans stays
  · obtain ⟨point, last⟩ := List.append_inj' (dots.trans (rfl : _ = ['.'] ++ ['.'])) rfl
    exact points ⟨spelling_injective (q := dot) point, by simpa using last⟩

/-- Nothing longer is spelled in the text of a punctuator alone. -/
theorem leads_self (p : Punctuator) : p.Leads p.spelling.toList := by
  refine ⟨List.prefix_rfl, fun fraction => ?_, fun _ q spelled other => ?_⟩
  · rw [← List.append_nil p.spelling.toList] at fraction
    rcases beforeFraction_cases fraction with ⟨-, point⟩ | ⟨-, digit⟩
    · cases point
    · cases digit
  · exact lt_of_le List.prefix_rfl spelled spelled.length_le other

/-- A punctuator that is neither extended nor before a second point or a fraction. -/
theorem leads_of_stays (stays : p.extend? c = none) (points : ¬(p = dot ∧ c = '.'))
    (whole : ¬(p = optionalChain ∧ isDecimalDigit c = true)) :
    p.Leads (p.spelling.toList ++ c :: rest) := by
  have spelled : p.spelling.toList <+: p.spelling.toList ++ c :: rest := List.prefix_append ..
  refine ⟨spelled, fun fraction => ?_, fun _ q spelled' other => ?_⟩
  · rcases beforeFraction_cases fraction with ⟨same, -⟩ | ⟨same, digit⟩
    · exact same
    · exact absurd ⟨same, digit⟩ whole
  · exact lt_of_le spelled spelled' (le_of_stays stays points spelled') other

theorem leads_question (digit : isDecimalDigit c = true) : question.Leads ('?' :: '.' :: c :: rest) :=
  ⟨⟨_, rfl⟩, fun _ => rfl, fun alone => absurd ⟨c, rest, rfl, digit⟩ alone⟩

/-- A text that begins with two points spells one point, or the three. -/
theorem short_of_points (spelled : p.spelling.toList <+: '.' :: '.' :: rest) (other : p ≠ ellipsis) :
    p.spelling.toList.length ≤ 1 := by
  by_contra longer
  have points : ['.', '.'] <+: '.' :: '.' :: rest := by simp
  exact other (eq_ellipsis (List.prefix_of_prefix_length_le points spelled (Nat.lt_of_not_le longer)))

theorem leads_points (rest : List Char) :
    (if rest.head? = some '.' then ellipsis else dot).Leads ('.' :: '.' :: rest) := by
  have noFraction : ¬BeforeFraction ('.' :: '.' :: rest) := by simp [BeforeFraction]
  split_ifs with third
  · obtain ⟨rest, rfl⟩ : ∃ rest', rest = '.' :: rest' := List.head?_eq_some_iff.1 third
    refine ⟨⟨rest, rfl⟩, (absurd · noFraction), fun _ q spelled other => ?_⟩
    exact Nat.lt_of_le_of_lt (short_of_points spelled other) (by decide)
  · have spelled : dot.spelling.toList <+: '.' :: '.' :: rest := ⟨'.' :: rest, rfl⟩
    refine ⟨spelled, (absurd · noFraction), fun _ q spelled' other => ?_⟩
    refine lt_of_le spelled spelled' (short_of_points spelled' ?_) other
    rintro rfl
    obtain ⟨after, same⟩ := spelled'
    have : '.' :: after = rest := by simpa [spelling] using same
    exact third (by rw [← this]; rfl)

/-- Extending a punctuator as long as possible finds the longest one. -/
theorem leads_cut {told : Punctuator × Nat}
    (cut : punctuatorRecognizer.cut (.whole p) p.spelling.toList.length text = told) :
    told.1.Leads (p.spelling.toList ++ text) ∧ told.2 = told.1.spelling.toList.length := by
  induction text generalizing p with
  | nil =>
    subst cut
    rw [List.append_nil]
    exact ⟨p.leads_self, rfl⟩
  | cons c text ih =>
    cases extended : p.extend? c with
    | some longer =>
      have spelled : longer.spelling.toList = p.spelling.toList ++ [c] := spelling_extend? extended
      have length : p.spelling.toList.length + 1 = longer.spelling.toList.length := by simp [spelled]
      rw [cut_extend extended, length] at cut
      have found := ih cut
      rwa [spelled, List.append_assoc, List.singleton_append] at found
    | none =>
      rw [cut_stays extended] at cut
      split_ifs at cut with points fraction
      · obtain ⟨rfl, rfl⟩ := points
        rw [cut_twoDots] at cut
        have longest := leads_points text
        split_ifs at cut longest <;> subst cut <;> exact ⟨longest, rfl⟩
      · obtain ⟨rfl, digit⟩ := fraction
        subst cut
        exact ⟨leads_question digit, rfl⟩
      · subst cut
        exact ⟨leads_of_stays extended points fraction, rfl⟩

/-- A punctuator begins with a punctuator of one character. -/
theorem single?_of_head (begins : p.spelling.toList.head? = some first) : ∃ q, single? first = some q := by
  obtain ⟨after, spelled⟩ := List.head?_eq_some_iff.1 begins
  have inside : [first] <+: p.spelling.toList := ⟨after, spelled.symm⟩
  obtain ⟨q, spelled⟩ := (spelled_inside inside (by simp)).resolve_right (by simp)
  exact ⟨q, single?_eq_some_iff.2 spelled⟩

end Punctuator

open Punctuator

variable {first : Char} {text : List Char} {n : Nat} {p : Punctuator}

/-- What is told of a text is the longest punctuator that it begins with. -/
theorem punctuatorAt_some (told : punctuatorAt first text = (some p, n)) :
    p.Leads (first :: text) ∧ n = p.spelling.toList.length := by
  unfold punctuatorAt at told
  cases single : single? first with
  | none => simp [single] at told
  | some q =>
    have spelled : q.spelling.toList = [first] := spelling_single? single
    rw [single] at told
    have cut : punctuatorRecognizer.cut (.whole q) q.spelling.toList.length text = (p, n) := by
      simpa [spelled, Prod.ext_iff] using told
    simpa [spelled] using leads_cut cut

theorem punctuatorAt_none (told : punctuatorAt first text = (none, n)) :
    n = 1 ∧ ∀ q : Punctuator, q.spelling.toList.head? ≠ some first := by
  unfold punctuatorAt at told
  cases single : single? first with
  | none =>
    refine ⟨by simpa [single] using told.symm, fun q begins => ?_⟩
    obtain ⟨short, found⟩ := single?_of_head begins
    cases found.symm.trans single
  | some q => simp [single, Prod.ext_iff] at told

end EcmaLex
