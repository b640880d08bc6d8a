import EcmaLex.Proofs.Grammar.Escapes

/-!
What a scanner knows of escapes while it reads: everything so far is whole (`Unbroken`), or the first
broken escape is known (`BrokenAt`), or it is in the middle of an escape (`Escaping`).
-/
namespace EcmaLex

section

variable (whole : Bool → List Char → Bool)

/-- Before this text, what has been read holds no broken escape. -/
def Unbroken (read : List Mark) (text : List Char) : Prop :=
  firstBroken? whole true (marked read ++ text) =
    (firstBroken? whole read.isEmpty text).map (· + read.length)

/-- Before this text, the first broken escape is the one at `loc`. -/
def BrokenAt (read : List Mark) (loc : Location) (text : List Char) : Prop :=
  ∃ k, firstBroken? whole true (marked read ++ text) = some k ∧ (read[k]?).map Prod.snd = some loc

/-- What has been read ends in a backslash at `loc` and some characters of its escape. -/
def Escaping (first : Bool) (read : List Mark) (loc : Location) (escape : List Char) : Prop :=
  ∃ pre marks, read = pre ++ ('\\', loc) :: marks ∧ marked marks = escape ∧ pre.isEmpty = first ∧
    ∀ text, Unbroken whole pre ('\\' :: text)

end

variable {whole : Bool → List Char → Bool} {first : Bool} {read : List Mark} {loc : Location}
  {escape text : List Char} {m : Mark}

theorem Unbroken.plain (unbroken : Unbroken whole read (m.1 :: text)) (plain : m.1 ≠ '\\') :
    Unbroken whole (read ++ [m]) text := by
  have chars : marked (read ++ [m]) ++ text = marked read ++ m.1 :: text := by simp
  have some_ : (read ++ [m]).isEmpty = false := by simp
  unfold Unbroken at unbroken ⊢
  rw [chars, unbroken, firstBroken?_plain plain, some_, Option.map_map, List.length_append]
  congr 1
  funext k
  exact Nat.add_right_comm k 1 read.length

theorem BrokenAt.push (broken : BrokenAt whole read loc (m.1 :: text)) :
    BrokenAt whole (read ++ [m]) loc text := by
  obtain ⟨k, found, place⟩ := broken
  have chars : marked (read ++ [m]) ++ text = marked read ++ m.1 :: text := by simp
  have inside : k < read.length := by
    by_contra past
    rw [List.getElem?_eq_none (Nat.le_of_not_lt past)] at place
    cases place
  exact ⟨k, chars ▸ found, by rw [List.getElem?_append_left inside, place]⟩

namespace Escaping

theorem start (unbroken : ∀ text, Unbroken whole read ('\\' :: text)) (loc : Location) :
    Escaping whole read.isEmpty (read ++ [('\\', loc)]) loc [] :=
  ⟨read, [], rfl, rfl, rfl, unbroken⟩

theorem push (escaping : Escaping whole first read loc escape) (m : Mark) :
    Escaping whole first (read ++ [m]) loc (escape ++ [m.1]) := by
  obtain ⟨pre, marks, rfl, rfl, first_, unbroken⟩ := escaping
  exact ⟨pre, marks ++ [m], by simp, by simp, first_, unbroken⟩

theorem unbroken {c : Char} {tail : List Char} (escaping : Escaping whole first read loc (c :: tail))
    (whole_ : whole first (c :: tail ++ text)) (plain : '\\' ∉ tail) : Unbroken whole read text := by
  obtain ⟨pre, marks, rfl, chars, rfl, unbroken⟩ := escaping
  have count : marks.length = tail.length + 1 := by rw [← length_marked, chars, List.length_cons]
  have all : marked (pre ++ ('\\', loc) :: marks) ++ text =
      marked pre ++ '\\' :: (c :: tail ++ text) := by simp [chars]
  have some_ : (pre ++ ('\\', loc) :: marks).isEmpty = false := by simp
  unfold Unbroken
  rw [all, unbroken, firstBroken?_whole whole_ plain, some_, Option.map_map]
  simp only [List.length_append, List.length_cons, count]
  congr 1
  funext k
  simp only [Function.comp_apply]
  omega

theorem broken (escaping : Escaping whole first read loc escape)
    (broken : whole first (escape ++ text) = false) : BrokenAt whole read loc text := by
  obtain ⟨pre, marks, rfl, rfl, rfl, unbroken⟩ := escaping
  have all : marked (pre ++ ('\\', loc) :: marks) ++ text =
      marked pre ++ '\\' :: (marked marks ++ text) := by simp
  refine ⟨pre.length, ?_, by simp⟩
  rw [all, unbroken, firstBroken?_broken broken]
  simp

end Escaping
end EcmaLex
