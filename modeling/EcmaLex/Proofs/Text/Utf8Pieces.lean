import EcmaLex.Text.Utf8

/-!
Decoding does not depend on where the bytes are cut: what a piece leaves over is decoded with the
next piece (`decode_append`). Encoded text decodes to itself (`lossy_encode`).
-/
namespace EcmaLex.Text.Utf8

def Head.width : Head → Nat
  | .scalar _ width => width
  | .illFormed width => width
  | .incomplete => 0

theorem headOfTwo_append {lead : UInt8} {rest : List UInt8} (more : List UInt8)
    (complete : headOfTwo lead rest ≠ .incomplete) :
    headOfTwo lead (rest ++ more) = headOfTwo lead rest := by
  cases rest with
  | nil => exact absurd rfl complete
  | cons b rest => rfl

theorem headOfThree_append {lead : UInt8} {rest : List UInt8} (more : List UInt8)
    (complete : headOfThree lead rest ≠ .incomplete) :
    headOfThree lead (rest ++ more) = headOfThree lead rest := by
  rcases rest with _ | ⟨b, _ | ⟨c, rest⟩⟩
  · exact absurd rfl complete
  · by_cases second : admitsSecond lead b
    · exact absurd (by simp [headOfThree, second]) complete
    · simp [headOfThree, second]
  · rfl

theorem headOfFour_append {lead : UInt8} {rest : List UInt8} (more : List UInt8)
    (complete : headOfFour lead rest ≠ .incomplete) :
    headOfFour lead (rest ++ more) = headOfFour lead rest := by
  rcases rest with _ | ⟨b, _ | ⟨c, _ | ⟨d, rest⟩⟩⟩
  · exact absurd rfl complete
  · by_cases second : admitsSecond lead b
    · exact absurd (by simp [headOfFour, second]) complete
    · simp [headOfFour, second]
  · by_cases second : admitsSecond lead b
    · by_cases third : isContinuation c
      · exact absurd (by simp [headOfFour, second, third]) complete
      · simp [headOfFour, second, third]
    · simp [headOfFour, second]
  · rfl

theorem head_append {lead : UInt8} {rest : List UInt8} (more : List UInt8)
    (complete : head lead rest ≠ .incomplete) : head lead (rest ++ more) = head lead rest := by
  unfold head at complete ⊢
  simp only at complete ⊢
  split at complete
  · simp only [*, if_true]
  · rename_i h₁
    simp only [h₁, if_false]
    split at complete
    · rename_i h₂
      simp only [h₂, and_self, if_true]
      exact headOfTwo_append more complete
    · rename_i h₂
      simp only [h₂, if_false]
      split at complete
      · rename_i h₃
        simp only [h₃, and_self, if_true]
        exact headOfThree_append more complete
      · rename_i h₃
        simp only [h₃, if_false]
        split at complete
        · rename_i h₄
          simp only [h₄, and_self, if_true]
          exact headOfFour_append more complete
        · rename_i h₄
          simp only [h₄, if_false]

theorem head_width_le (lead : UInt8) (rest : List UInt8) :
    (head lead rest).width ≤ rest.length + 1 := by
  unfold head headOfTwo headOfThree headOfFour
  simp only
  repeat' split
  all_goals simp only [Head.width, List.length_cons]; omega

theorem decode_scalar {lead : UInt8} {rest : List UInt8} {c : Char} {width : Nat}
    (found : head lead rest = .scalar c width) :
    decode (lead :: rest) = (.char c :: (decode (rest.drop (width - 1))).1,
      (decode (rest.drop (width - 1))).2) := by
  rw [decode, found]

theorem decode_illFormed {lead : UInt8} {rest : List UInt8} {width : Nat}
    (found : head lead rest = .illFormed width) :
    decode (lead :: rest) = (.illFormed width :: (decode (rest.drop (width - 1))).1,
      (decode (rest.drop (width - 1))).2) := by
  rw [decode, found]

theorem decode_incomplete {lead : UInt8} {rest : List UInt8}
    (found : head lead rest = .incomplete) : decode (lead :: rest) = ([], lead :: rest) := by
  rw [decode, found]

@[simp] theorem decode_nil : decode [] = ([], []) := by rw [decode]

/-- The first part is decoded as if it stood alone, and what it leaves over goes before the second. -/
theorem decode_append (bytes more : List UInt8) :
    decode (bytes ++ more) =
      ((decode bytes).1 ++ (decode ((decode bytes).2 ++ more)).1,
        (decode ((decode bytes).2 ++ more)).2) := by
  -- The recursion of `decode` on the first part.
  induction bytes using decode.induct with
  | case1 => simp
  | case2 lead rest c width found items held same ih =>
    have whole := head_append more (by rw [found]; simp)
    have fits := head_width_le lead rest
    rw [found] at whole fits
    have cut : (rest ++ more).drop (width - 1) = rest.drop (width - 1) ++ more :=
      List.drop_append_of_le_length (by simp only [Head.width] at fits; omega)
    rw [List.cons_append, decode_scalar whole, decode_scalar found, cut, ih]
    rfl
  | case3 lead rest width found items held same ih =>
    have whole := head_append more (by rw [found]; simp)
    have fits := head_width_le lead rest
    rw [found] at whole fits
    have cut : (rest ++ more).drop (width - 1) = rest.drop (width - 1) ++ more :=
      List.drop_append_of_le_length (by simp only [Head.width] at fits; omega)
    rw [List.cons_append, decode_illFormed whole, decode_illFormed found, cut, ih]
    rfl
  | case4 lead rest found => rw [decode_incomplete found]; rfl

/-- What is kept back is no more than the beginning of a sequence. -/
theorem decode_held (bytes : List UInt8) : decode (decode bytes).2 = ([], (decode bytes).2) := by
  induction bytes using decode.induct with
  | case1 => simp
  | case2 lead rest c width found items held same ih => rw [decode_scalar found]; exact ih
  | case3 lead rest width found items held same ih => rw [decode_illFormed found]; exact ih
  | case4 lead rest found => rw [decode_incomplete found]; exact decode_incomplete found

@[simp] theorem lossy_nil : lossy [] = [] := by simp [lossy]

/-- The characters that bytes hold, whatever bytes come after them. -/
def completed (bytes : List UInt8) : List Char := (decode bytes).1.map Item.toChar

theorem completed_append (bytes more : List UInt8) :
    completed (bytes ++ more) = completed bytes ++ completed ((decode bytes).2 ++ more) := by
  simp only [completed, decode_append bytes more, List.map_append]

theorem lossy_append (bytes more : List UInt8) :
    lossy (bytes ++ more) = completed bytes ++ lossy ((decode bytes).2 ++ more) := by
  simp only [lossy, completed, decode_append bytes more, List.map_append, List.append_assoc]

/-- A sequence that breaks off counts as one character. -/
theorem lossy_held {bytes : List UInt8} (kept : decode bytes = ([], bytes)) (some_ : bytes ≠ []) :
    lossy bytes = [replacement] := by
  simp [lossy, kept, some_]

theorem toNat_ofNat_byte {n : Nat} (small : n < 256) : (UInt8.ofNat n).toNat = n :=
  (UInt8.toNat_ofNat').trans (Nat.mod_eq_of_lt small)

theorem isContinuation_ofNat (n : Nat) : isContinuation (UInt8.ofNat (0x80 + n % 64)) = true := by
  have small : 0x80 + n % 64 < 256 := by omega
  simp only [isContinuation, toNat_ofNat_byte small, Bool.and_eq_true, decide_eq_true_eq]
  omega

/-- Outside the four narrow leads any continuation byte may come second. -/
theorem admitsSecond_of_bounds (lead : UInt8) {second : UInt8} (tail : isContinuation second = true)
    (e0 : lead.toNat = 0xE0 → 0xA0 ≤ second.toNat) (ed : lead.toNat = 0xED → second.toNat ≤ 0x9F)
    (f0 : lead.toNat = 0xF0 → 0x90 ≤ second.toNat) (f4 : lead.toNat = 0xF4 → second.toNat ≤ 0x8F) :
    admitsSecond lead second = true := by
  have bounds := tail
  simp only [isContinuation, Bool.and_eq_true, decide_eq_true_eq] at bounds
  unfold admitsSecond
  split <;> simp_all

theorem char_toNat_valid (c : Char) :
    c.toNat < 0xD800 ∨ 0xDFFF < c.toNat ∧ c.toNat < 0x110000 := c.valid

/-- The encoding of a character is a complete beginning, whatever follows it. -/
theorem head_encodeChar (c : Char) :
    ∃ lead tail, encodeChar c = lead :: tail ∧
      ∀ rest, head lead (tail ++ rest) = .scalar c (tail.length + 1) := by
  have valid := char_toNat_valid c
  have whole : Char.ofNat c.toNat = c := Char.ofNat_toNat c
  by_cases one : c.toNat < 0x80
  · refine ⟨UInt8.ofNat c.toNat, [], by simp [encodeChar, one], ?_⟩
    intro rest
    simp [head, toNat_ofNat_byte (show c.toNat < 256 by omega), one, whole]
  by_cases two : c.toNat < 0x800
  · refine ⟨UInt8.ofNat (0xC0 + c.toNat / 64), [UInt8.ofNat (0x80 + c.toNat / 1 % 64)],
      by simp [encodeChar, one, two], ?_⟩
    intro rest
    have lead := toNat_ofNat_byte (show 0xC0 + c.toNat / 64 < 256 by omega)
    have low := toNat_ofNat_byte (show 0x80 + c.toNat / 1 % 64 < 256 by omega)
    have value : (0xC0 + c.toNat / 64 - 0xC0) * 64 + (0x80 + c.toNat / 1 % 64 - 0x80) = c.toNat := by
      omega
    simp only [head, lead, List.cons_append, List.nil_append]
    rw [if_neg (by omega), if_pos (by omega)]
    simp only [headOfTwo, isContinuation_ofNat, if_true, lead, low, value, whole]
    rfl
  by_cases three : c.toNat < 0x10000
  · refine ⟨UInt8.ofNat (0xE0 + c.toNat / 4096), [UInt8.ofNat (0x80 + c.toNat / 64 % 64),
      UInt8.ofNat (0x80 + c.toNat / 1 % 64)], by simp [encodeChar, one, two, three], ?_⟩
    intro rest
    have lead := toNat_ofNat_byte (show 0xE0 + c.toNat / 4096 < 256 by omega)
    have mid := toNat_ofNat_byte (show 0x80 + c.toNat / 64 % 64 < 256 by omega)
    have low := toNat_ofNat_byte (show 0x80 + c.toNat / 1 % 64 < 256 by omega)
    have value : (0xE0 + c.toNat / 4096 - 0xE0) * 4096 + (0x80 + c.toNat / 64 % 64 - 0x80) * 64 +
        (0x80 + c.toNat / 1 % 64 - 0x80) = c.toNat := by omega
    have second := admitsSecond_of_bounds (UInt8.ofNat (0xE0 + c.toNat / 4096))
      (isContinuation_ofNat (c.toNat / 64)) (by omega) (by omega) (by omega) (by omega)
    simp only [head, lead, List.cons_append, List.nil_append]
    rw [if_neg (by omega), if_neg (by omega), if_pos (by omega)]
    simp only [headOfThree, second, isContinuation_ofNat, if_true, lead, mid, low, value, whole]
    rfl
  · refine ⟨UInt8.ofNat (0xF0 + c.toNat / 262144), [UInt8.ofNat (0x80 + c.toNat / 4096 % 64),
      UInt8.ofNat (0x80 + c.toNat / 64 % 64), UInt8.ofNat (0x80 + c.toNat / 1 % 64)],
      by simp [encodeChar, one, two, three], ?_⟩
    intro rest
    have lead := toNat_ofNat_byte (show 0xF0 + c.toNat / 262144 < 256 by omega)
    have high := toNat_ofNat_byte (show 0x80 + c.toNat / 4096 % 64 < 256 by omega)
    have mid := toNat_ofNat_byte (show 0x80 + c.toNat / 64 % 64 < 256 by omega)
    have low := toNat_ofNat_byte (show 0x80 + c.toNat / 1 % 64 < 256 by omega)
    have value : (0xF0 + c.toNat / 262144 - 0xF0) * 262144 +
        (0x80 + c.toNat / 4096 % 64 - 0x80) * 4096 + (0x80 + c.toNat / 64 % 64 - 0x80) * 64 +
        (0x80 + c.toNat / 1 % 64 - 0x80) = c.toNat := by omega
    have second := admitsSecond_of_bounds (UInt8.ofNat (0xF0 + c.toNat / 262144))
      (isContinuation_ofNat (c.toNat / 4096)) (by omega) (by omega) (by omega) (by omega)
    simp only [head, lead, List.cons_append, List.nil_append]
    rw [if_neg (by omega), if_neg (by omega), if_neg (by omega), if_pos (by omega)]
    simp only [headOfFour, second, isContinuation_ofNat, if_true, lead, high, mid, low, value, whole]
    rfl

theorem decode_encodeChar_append (c : Char) (rest : List UInt8) :
    decode (encodeChar c ++ rest) = (.char c :: (decode rest).1, (decode rest).2) := by
  obtain ⟨lead, tail, spelled, found⟩ := head_encodeChar c
  have cut : (tail ++ rest).drop (tail.length + 1 - 1) = rest := by simp
  rw [spelled, List.cons_append, decode_scalar (found rest), cut]

theorem decode_encode (text : List Char) : decode (encode text) = (text.map .char, []) := by
  induction text with
  | nil => simp [encode]
  | cons c text ih =>
    have split : encode (c :: text) = encodeChar c ++ encode text := rfl
    rw [split, decode_encodeChar_append, ih]
    rfl

/-- Encoded text reads back. -/
theorem lossy_encode (text : List Char) : lossy (encode text) = text := by
  simp [lossy, decode_encode, Item.toChar, Function.comp_def]

end EcmaLex.Text.Utf8
