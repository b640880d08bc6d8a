import EcmaLex.LineTracker
import Mathlib.Data.List.Induction

/-!
Text with one kind of line terminator, and where its characters stand. The tracker hands out exactly
the characters of the normalized text, each at its own place (`marks_start`).
-/
namespace EcmaLex
open Text

/-- Every line terminator becomes a line feed; a carriage return takes the line feed after it along. -/
def normalize : List Char → List Char
  | [] => []
  | '\r' :: '\n' :: text => '\n' :: normalize text
  | c :: text => (if isLineTerminator c then '\n' else c) :: normalize text

/-- What is left of a text after a carriage return. -/
def dropLineFeed : List Char → List Char
  | '\n' :: text => text
  | text => text

theorem normalize_return (text : List Char) :
    normalize ('\r' :: text) = '\n' :: normalize (dropLineFeed text) := by
  unfold dropLineFeed
  split
  · rw [normalize]
  · rename_i other
    rw [normalize]
    · rfl
    · intro rest _ same
      exact other rest same

theorem normalize_cons {c : Char} (other : c ≠ '\r') (text : List Char) :
    normalize (c :: text) = (if isLineTerminator c then '\n' else c) :: normalize text := by
  rw [normalize]
  intro rest same _
  exact other same

example : normalize ['a', '\r', '\n', 'b', '\r', 'c', '\u2028'] = ['a', '\n', 'b', '\n', 'c', '\n'] := by
  decide

/-- Line feeds are the only line terminators of the text. -/
def LineFeedOnly (text : List Char) : Prop := ∀ c ∈ text, isLineTerminator c = true → c = '\n'

theorem lineFeedOnly_normalize (text : List Char) : LineFeedOnly (normalize text) := by
  intro c member ends
  fun_induction normalize text with
  | case1 => cases member
  | case2 text ih => exact (List.mem_cons.1 member).elim id ih
  | case3 d text _ ih =>
    rcases List.mem_cons.1 member with same | later
    · split at same
      · exact same
      · rename_i plain
        exact absurd (same ▸ ends) plain
    · exact ih later

theorem LineFeedOnly.normalize_eq {text : List Char} (plain : LineFeedOnly text) :
    normalize text = text := by
  induction text with
  | nil => rfl
  | cons c text ih =>
    have own := plain c List.mem_cons_self
    have other : c ≠ '\r' := by
      rintro rfl
      exact absurd (own rfl) (by decide)
    rw [normalize_cons other, ih fun d member => plain d (List.mem_cons_of_mem c member)]
    split
    · rename_i ends
      rw [own ends]
    · rfl

theorem LineFeedOnly.mono {text part : List Char} (plain : LineFeedOnly text) (sub : part ⊆ text) :
    LineFeedOnly part :=
  fun c member => plain c (sub member)

/-- A character and its place. -/
abbrev Mark := Char × Location

def marked (marks : List Mark) : List Char := marks.map Prod.fst

@[simp] theorem marked_nil : marked [] = [] := rfl

@[simp] theorem marked_cons (m : Mark) (marks : List Mark) :
    marked (m :: marks) = m.1 :: marked marks := rfl

@[simp] theorem marked_append (first second : List Mark) :
    marked (first ++ second) = marked first ++ marked second := List.map_append

@[simp] theorem length_marked (marks : List Mark) : (marked marks).length = marks.length :=
  List.length_map _

theorem marked_eq_cons {marks : List Mark} {c : Char} {rest : List Char} (same : marked marks = c :: rest) :
    ∃ loc marks', marks = (c, loc) :: marks' ∧ marked marks' = rest := by
  obtain ⟨⟨_, loc⟩, marks', rfl, rfl, rest_⟩ := List.map_eq_cons_iff.1 same
  exact ⟨loc, marks', rfl, rest_⟩

theorem marked_eq_singleton {marks : List Mark} {c : Char} (same : marked marks = [c]) :
    ∃ loc, marks = [(c, loc)] := by
  obtain ⟨⟨_, loc⟩, rfl, rfl⟩ := List.map_eq_singleton_iff.1 same
  exact ⟨loc, rfl⟩

theorem marked_eq_append {marks : List Mark} {front back : List Char}
    (same : marked marks = front ++ back) :
    ∃ front' back', marks = front' ++ back' ∧ marked front' = front ∧ marked back' = back :=
  List.map_eq_append_iff.1 same

namespace Location

def after (loc : Location) (c : Char) : Location :=
  if c = '\n' then ⟨loc.line + 1, 0⟩ else ⟨loc.line, loc.column + 1⟩

def past (loc : Location) (text : List Char) : Location := text.foldl after loc

@[simp] theorem past_nil (loc : Location) : loc.past [] = loc := rfl

@[simp] theorem past_cons (loc : Location) (c : Char) (text : List Char) :
    loc.past (c :: text) = (loc.after c).past text := rfl

theorem past_append (loc : Location) (first second : List Char) :
    loc.past (first ++ second) = (loc.past first).past second := List.foldl_append

/-- Reading order. -/
def Before (a b : Location) : Prop := a.line < b.line ∨ a.line = b.line ∧ a.column < b.column

/-- The place after a text that starts a line: so many lines on, at the length of its last line. -/
def locate (line : UInt32) (text : List Char) : Location :=
  ⟨line + UInt32.ofNat (text.count '\n'), UInt32.ofNat (text.reverse.takeWhile (· ≠ '\n')).length⟩

@[simp] theorem locate_nil (line : UInt32) : locate line [] = ⟨line, 0⟩ := by
  simp [locate]

theorem past_start (line : UInt32) (text : List Char) : past ⟨line, 0⟩ text = locate line text := by
  -- From the end of the text, as the column is read there.
  induction text using List.reverseRecOn with
  | nil => simp
  | append_singleton text c ih =>
    rw [past_append, ih, past_cons, past_nil]
    by_cases break_ : c = '\n'
    · simp [after, locate, break_, UInt32.ofNat_add, UInt32.add_assoc]
    · simp [after, locate, break_, List.count_append, UInt32.ofNat_add]

theorem locate_past (line : UInt32) (first second : List Char) :
    (locate line first).past second = locate line (first ++ second) := by
  rw [← past_start, ← past_append, past_start]

/-- The lines of a text from a number on, and the columns of each, are few enough to be counted in a word. -/
def Numbered (line : UInt32) (text : List Char) : Prop :=
  ∀ part, part <+: text → line.toNat + part.count '\n' < UInt32.size ∧
    (part.reverse.takeWhile (· ≠ '\n')).length < UInt32.size

section
variable {line : UInt32} {text part first second : List Char}

/-- The number of a line so many lines on, if it is not too large. -/
theorem toNat_lineOn {k : Nat} (fits : line.toNat + k < UInt32.size) :
    (line + UInt32.ofNat k).toNat = line.toNat + k := by
  have small : k < UInt32.size := Nat.lt_of_le_of_lt (Nat.le_add_left _ _) fits
  rw [UInt32.toNat_add, UInt32.toNat_ofNat_of_lt' small, Nat.mod_eq_of_lt fits]

theorem Numbered.toNat_locate (numbered : Numbered line text) (inside : part <+: text) :
    (locate line part).line.toNat = line.toNat + part.count '\n' ∧
      (locate line part).column.toNat = (part.reverse.takeWhile (· ≠ '\n')).length := by
  obtain ⟨lines, columns⟩ := numbered part inside
  exact ⟨toNat_lineOn lines, UInt32.toNat_ofNat_of_lt' columns⟩

/-- While the numbers suffice, what stands further on in the text has a later place. -/
theorem Numbered.before (numbered : Numbered line text) (inside : first ++ second <+: text)
    (some_ : second ≠ []) : (locate line first).Before (locate line (first ++ second)) := by
  have own := numbered.toNat_locate ((List.prefix_append first second).trans inside)
  have further := numbered.toNat_locate inside
  rw [List.count_append] at further
  rw [Before, UInt32.lt_iff_toNat_lt, UInt32.lt_iff_toNat_lt, ← UInt32.toNat_inj, own.1, own.2,
    further.1, further.2]
  by_cases feed : '\n' ∈ second
  · have more := List.count_pos_iff.2 feed
    omega
  · have same := List.count_eq_zero_of_not_mem feed
    have wide : (first ++ second).reverse.takeWhile (· ≠ '\n') =
        second.reverse ++ first.reverse.takeWhile (· ≠ '\n') := by
      rw [List.reverse_append, List.takeWhile_append_of_pos]
      intro c member
      have other : c ≠ '\n' := by
        rintro rfl
        exact feed (List.mem_reverse.1 member)
      simpa using other
    have longer := List.length_pos_iff.2 some_
    rw [wide, List.length_append, List.length_reverse]
    omega

end

end Location

/-- A text with the places of its characters. -/
def located (loc : Location) : List Char → List Mark
  | [] => []
  | c :: text => (c, loc) :: located (loc.after c) text

@[simp] theorem located_nil (loc : Location) : located loc [] = [] := rfl

@[simp] theorem located_cons (loc : Location) (c : Char) (text : List Char) :
    located loc (c :: text) = (c, loc) :: located (loc.after c) text := rfl

@[simp] theorem marked_located (loc : Location) (text : List Char) :
    marked (located loc text) = text := by
  induction text generalizing loc with
  | nil => rfl
  | cons c text ih => rw [located_cons, marked_cons, ih]

theorem located_append (loc : Location) (first second : List Char) :
    located loc (first ++ second) = located loc first ++ located (loc.past first) second := by
  induction first generalizing loc with
  | nil => rfl
  | cons c first ih =>
    rw [List.cons_append, located_cons, ih, located_cons, List.cons_append, Location.past_cons]

/-- A part of a located text is located where the text before it ends. -/
theorem located_eq_append {loc : Location} {text : List Char} {first second : List Mark}
    (split : located loc text = first ++ second) :
    text = marked first ++ marked second ∧ first = located loc (marked first) ∧
      second = located (loc.past (marked first)) (marked second) := by
  have chars : text = marked first ++ marked second := by
    rw [← marked_append, ← split, marked_located]
  refine ⟨chars, ?_⟩
  rw [chars, located_append] at split
  refine List.append_inj split ?_ |>.imp Eq.symm Eq.symm
  rw [← length_marked, marked_located, length_marked]

theorem located_drop (loc : Location) (text : List Char) (k : Nat) :
    (located loc text).drop k = located (loc.past (text.take k)) (text.drop k) := by
  induction text generalizing loc k with
  | nil => simp
  | cons c text ih =>
    cases k with
    | zero => rfl
    | succ k => exact ih (loc.after c) k

/-- A located text and the place of its end tell where it begins. -/
theorem located_inj {loc loc' : Location} {text text' : List Char}
    (same : located loc text = located loc' text') (ends : loc.past text = loc'.past text') : loc = loc' := by
  cases text with
  | nil =>
    cases text' with
    | nil => exact ends
    | cons _ _ => cases same
  | cons c text =>
    cases text' with
    | nil => cases same
    | cons _ _ => exact congrArg Prod.snd (List.cons.inj same).1

theorem located_getElem? (loc : Location) (text : List Char) (k : Nat) :
    (located loc text)[k]? = text[k]?.map fun c => (c, loc.past (text.take k)) := by
  induction text generalizing loc k with
  | nil => rfl
  | cons c text ih =>
    cases k with
    | zero => rfl
    | succ k => simp [ih]

namespace LineTracker

/-- What the tracker makes of the raw characters of a text. -/
def marks : LineTracker → List Char → List Mark
  | _, [] => []
  | t, raw :: text =>
    match t.advance raw with
    | (.absorbed, t) => t.marks text
    | (.char c loc _, t) => (c, loc) :: t.marks text

/-- Where the tracker sees the end of input after a text. -/
def ending : LineTracker → List Char → Location
  | t, [] => t.finish.location
  | t, raw :: text => (t.advance raw).2.ending text

theorem ending_finish (t : LineTracker) : t.finish.ending [] = t.finish.location := by
  cases pending : t.pending with
  | none => simp [ending, finish, pending]
  | some c => simp [ending, finish, pending, openLine]

/-- The text that the tracker still has to place: a line feed that belongs to a carriage return is
not placed. -/
def awaited (t : LineTracker) (text : List Char) : List Char :=
  if t.pending = some '\r' then dropLineFeed text else text

theorem place_eq (t : LineTracker) (raw : Char) (opensLine : Bool) (text : List Char)
    (inside : t.pending = none) :
    ∃ c t', t.place raw opensLine = (.char c t.location opensLine, t') ∧
      normalize (raw :: text) = c :: normalize (t'.awaited text) ∧
      t'.finish.location = t.location.after c := by
  unfold place
  by_cases ends : isLineTerminator raw
  · refine ⟨'\n', { t with column := t.column + 1, pending := some raw }, by simp [ends], ?_, ?_⟩
    · by_cases return_ : raw = '\r'
      · rw [return_, normalize_return]
        rfl
      · rw [normalize_cons return_]
        simp [awaited, ends, return_]
    · rfl
  · have plain : raw ≠ '\r' ∧ raw ≠ '\n' := by
      constructor <;> intro same <;> exact ends (by rw [same]; decide)
    refine ⟨raw, { t with column := t.column + 1 }, by simp [ends], ?_, ?_⟩
    · rw [normalize_cons plain.1]
      simp [awaited, ends, inside]
    · simp [finish, location, inside, Location.after, plain.2]

/-- The tracker places the normalized text from where the next character stands. -/
theorem marks_eq (t : LineTracker) (text : List Char) :
    t.marks text = located t.finish.location (normalize (t.awaited text)) ∧
      t.ending text = t.finish.location.past (normalize (t.awaited text)) := by
  induction text generalizing t with
  | nil =>
    have none_ : t.awaited [] = [] := by unfold awaited dropLineFeed; split <;> rfl
    rw [none_]
    exact ⟨rfl, rfl⟩
  | cons raw text ih =>
    cases pending : t.pending with
    | none =>
      have waits : t.awaited (raw :: text) = raw :: text := by simp [awaited, pending]
      have closed : t.finish = t := by simp [finish, pending]
      obtain ⟨c, t', placed, chars, next⟩ := t.place_eq raw false text pending
      simp [marks, ending, advance, pending, placed, waits, closed, chars, (ih t').1, (ih t').2, next]
    | some opened =>
      have closed : t.finish = t.openLine := by simp [finish, pending]
      by_cases pair : opened = '\r' ∧ raw = '\n'
      · have after := ih { t with pending := some '\n' }
        obtain ⟨rfl, rfl⟩ := pair
        simpa [marks, ending, advance, pending, awaited, dropLineFeed, finish, openLine] using after
      · have waits : t.awaited (raw :: text) = raw :: text := by
          by_cases return_ : opened = '\r'
          · have other : raw ≠ '\n' := fun feed => pair ⟨return_, feed⟩
            simp [awaited, pending, return_, dropLineFeed, other]
          · simp [awaited, pending, return_]
        obtain ⟨c, t', placed, chars, next⟩ := t.openLine.place_eq raw true text rfl
        simp [marks, ending, advance, pending, pair, placed, waits, closed, chars, (ih t').1,
          (ih t').2, next]

/-- From the start of a text the tracker places the normalized text. -/
theorem marks_start (line : UInt32) (text : List Char) :
    (start line).marks text = located ⟨line, 0⟩ (normalize text) ∧
      (start line).ending text = Location.past ⟨line, 0⟩ (normalize text) :=
  (start line).marks_eq text

end LineTracker
end EcmaLex
