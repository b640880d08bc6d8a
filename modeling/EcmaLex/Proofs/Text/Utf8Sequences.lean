import EcmaLex.Proofs.Text.Utf8Pieces

/-!
What decoding means, said by the encodings of the characters alone. `decode` cuts bytes into whole
encodings, longest beginnings that the next byte does not continue, bytes that begin nothing, and a
last beginning whose end has not arrived (`decodes_iff`).
-/
namespace EcmaLex.Text.Utf8

/-- These bytes begin the encoding of a character, or are one. -/
def Begins (bytes : List UInt8) : Prop := ∃ c : Char, bytes <+: String.utf8EncodeChar c

/-- These bytes begin the encoding of a character and are not all of it. -/
def Unfinished (bytes : List UInt8) : Prop :=
  ∃ c : Char, bytes <+: String.utf8EncodeChar c ∧ bytes ≠ String.utf8EncodeChar c

/-- The items that bytes are cut into from left to right, and the bytes held back at the end. -/
inductive Decodes : List UInt8 → List Item → List UInt8 → Prop
  | held {bytes} : Unfinished bytes → Decodes bytes [] bytes
  | char (c : Char) {rest items held} :
      Decodes rest items held → Decodes (String.utf8EncodeChar c ++ rest) (.char c :: items) held
  /-- The longest part of a sequence that a well-formed one begins with. -/
  | broken {part b rest items held} : part ≠ [] → Unfinished part → ¬Begins (part ++ [b]) →
      Decodes (b :: rest) items held →
      Decodes (part ++ b :: rest) (.illFormed part.length :: items) held
  | stray {b rest items held} : ¬Begins [b] → Decodes rest items held →
      Decodes (b :: rest) (.illFormed 1 :: items) held

theorem encodeChar_eq (c : Char) : encodeChar c = String.utf8EncodeChar c := by
  have valid := char_toNat_valid c
  have value : c.val.toNat = c.toNat := rfl
  simp only [encodeChar, String.utf8EncodeChar, value, Nat.le_iff_lt_add_one, Nat.reduceAdd]
  split
  · rfl
  · split
    · have lead : c.toNat / 64 % 32 = c.toNat / 64 := Nat.mod_eq_of_lt (by omega)
      simp only [lead, Nat.div_one, Nat.add_comm]
    · split
      · have lead : c.toNat / 4096 % 16 = c.toNat / 4096 := Nat.mod_eq_of_lt (by omega)
        simp only [lead, Nat.div_one, Nat.add_comm]
      · have lead : c.toNat / 262144 % 8 = c.toNat / 262144 := Nat.mod_eq_of_lt (by omega)
        simp only [lead, Nat.div_one, Nat.add_comm]

/-! ### The head of a sequence, by its first byte -/

variable {lead : UInt8} {rest part : List UInt8}

theorem head_of_two (low : 0xC2 ≤ lead.toNat) (high : lead.toNat ≤ 0xDF) (rest : List UInt8) :
    head lead rest = headOfTwo lead rest := by
  unfold head
  rw [if_neg (by omega), if_pos ⟨low, high⟩]

theorem head_of_three (low : 0xE0 ≤ lead.toNat) (high : lead.toNat ≤ 0xEF) (rest : List UInt8) :
    head lead rest = headOfThree lead rest := by
  unfold head
  rw [if_neg (by omega), if_neg (by omega), if_pos ⟨low, high⟩]

theorem head_of_four (low : 0xF0 ≤ lead.toNat) (high : lead.toNat ≤ 0xF4) (rest : List UInt8) :
    head lead rest = headOfFour lead rest := by
  unfold head
  rw [if_neg (by omega), if_neg (by omega), if_neg (by omega), if_pos ⟨low, high⟩]

/-- Whether the bytes after the first matter at all. -/
theorem head_cases (lead : UInt8) :
    (lead.toNat < 0x80 ∧ ∀ rest, head lead rest = .scalar (Char.ofNat lead.toNat) 1) ∨
    (0xC2 ≤ lead.toNat ∧ lead.toNat ≤ 0xDF) ∨ (0xE0 ≤ lead.toNat ∧ lead.toNat ≤ 0xEF) ∨
    (0xF0 ≤ lead.toNat ∧ lead.toNat ≤ 0xF4) ∨ (∀ rest, head lead rest = .illFormed 1) := by
  by_cases one : lead.toNat < 0x80
  · exact .inl ⟨one, fun rest => if_pos one⟩
  by_cases two : 0xC2 ≤ lead.toNat ∧ lead.toNat ≤ 0xDF
  · exact .inr (.inl two)
  by_cases three : 0xE0 ≤ lead.toNat ∧ lead.toNat ≤ 0xEF
  · exact .inr (.inr (.inl three))
  by_cases four : 0xF0 ≤ lead.toNat ∧ lead.toNat ≤ 0xF4
  · exact .inr (.inr (.inr (.inl four)))
  · refine .inr (.inr (.inr (.inr fun rest => ?_)))
    unfold head
    rw [if_neg one, if_neg two, if_neg three, if_neg four]

/-- The bytes that may follow a first byte while more are needed. -/
inductive BrokenOff (lead : UInt8) : List UInt8 → Prop
  | ofTwo : 0xC2 ≤ lead.toNat → lead.toNat ≤ 0xDF → BrokenOff lead []
  | ofThree : 0xE0 ≤ lead.toNat → lead.toNat ≤ 0xEF → BrokenOff lead []
  | ofThree₂ {b} : 0xE0 ≤ lead.toNat → lead.toNat ≤ 0xEF → admitsSecond lead b = true →
      BrokenOff lead [b]
  | ofFour : 0xF0 ≤ lead.toNat → lead.toNat ≤ 0xF4 → BrokenOff lead []
  | ofFour₂ {b} : 0xF0 ≤ lead.toNat → lead.toNat ≤ 0xF4 → admitsSecond lead b = true →
      BrokenOff lead [b]
  | ofFour₃ {b c} : 0xF0 ≤ lead.toNat → lead.toNat ≤ 0xF4 → admitsSecond lead b = true →
      isContinuation c = true → BrokenOff lead [b, c]

theorem brokenOff_of_head (incomplete : head lead rest = .incomplete) : BrokenOff lead rest := by
  rcases head_cases lead with ⟨_, one⟩ | ⟨low, high⟩ | ⟨low, high⟩ | ⟨low, high⟩ | stray
  · simp [one] at incomplete
  · rw [head_of_two low high] at incomplete
    cases rest with
    | nil => exact .ofTwo low high
    | cons b rest =>
      simp only [headOfTwo] at incomplete
      split at incomplete <;> cases incomplete
  · rw [head_of_three low high] at incomplete
    rcases rest with _ | ⟨b, _ | ⟨c, rest⟩⟩
    · exact .ofThree low high
    · by_cases second : admitsSecond lead b
      · exact .ofThree₂ low high second
      · simp [headOfThree, second] at incomplete
    · simp only [headOfThree] at incomplete
      split at incomplete
      · split at incomplete <;> cases incomplete
      · cases incomplete
  · rw [head_of_four low high] at incomplete
    rcases rest with _ | ⟨b, _ | ⟨c, _ | ⟨d, rest⟩⟩⟩
    · exact .ofFour low high
    · by_cases second : admitsSecond lead b
      · exact .ofFour₂ low high second
      · simp [headOfFour, second] at incomplete
    · by_cases second : admitsSecond lead b
      · by_cases third : isContinuation c
        · exact .ofFour₃ low high second third
        · simp [headOfFour, second, third] at incomplete
      · simp [headOfFour, second] at incomplete
    · simp only [headOfFour] at incomplete
      split at incomplete
      · split at incomplete
        · split at incomplete <;> cases incomplete
        · cases incomplete
      · cases incomplete
  · simp [stray] at incomplete

theorem BrokenOff.length_le (off : BrokenOff lead rest) : rest.length ≤ 2 := by
  cases off <;> simp

/-- A byte that a beginning does not admit makes all before it ill formed. -/
theorem BrokenOff.push (off : BrokenOff lead part) {b : UInt8} {width : Nat}
    (found : head lead (part ++ [b]) = .illFormed width) : width = part.length + 1 := by
  cases off with
  | ofTwo low high =>
    rw [head_of_two low high] at found
    simp only [List.nil_append, headOfTwo] at found
    split at found <;> cases found
    rfl
  | ofThree low high =>
    rw [head_of_three low high] at found
    simp only [List.nil_append, headOfThree] at found
    split at found <;> cases found
    rfl
  | ofThree₂ low high second =>
    rw [head_of_three low high] at found
    simp only [List.cons_append, List.nil_append, headOfThree, second, if_true] at found
    split at found <;> cases found
    rfl
  | ofFour low high =>
    rw [head_of_four low high] at found
    simp only [List.nil_append, headOfFour] at found
    split at found <;> cases found
    rfl
  | ofFour₂ low high second =>
    rw [head_of_four low high] at found
    simp only [List.cons_append, List.nil_append, headOfFour, second, if_true] at found
    split at found <;> cases found
    rfl
  | ofFour₃ low high second third =>
    rw [head_of_four low high] at found
    simp only [List.cons_append, List.nil_append, headOfFour, second, third, if_true] at found
    split at found <;> cases found
    rfl

/-! ### Complete sequences -/

theorem toNat_ofNat_char {n : Nat} (valid : n.isValidChar) : (Char.ofNat n).toNat = n := by
  rw [Char.ofNat, dif_pos valid]
  rfl

theorem isContinuation_bounds {b : UInt8} (tail : isContinuation b = true) :
    0x80 ≤ b.toNat ∧ b.toNat ≤ 0xBF := by
  simpa [isContinuation] using tail

theorem admitsSecond_bounds {second : UInt8} (admitted : admitsSecond lead second = true) :
    0x80 ≤ second.toNat ∧ second.toNat ≤ 0xBF ∧ (lead.toNat = 0xE0 → 0xA0 ≤ second.toNat) ∧
      (lead.toNat = 0xED → second.toNat ≤ 0x9F) ∧ (lead.toNat = 0xF0 → 0x90 ≤ second.toNat) ∧
      (lead.toNat = 0xF4 → second.toNat ≤ 0x8F) := by
  simp only [admitsSecond] at admitted
  split at admitted <;> simp_all [isContinuation] <;> omega

theorem byte_eq {n : Nat} {b : UInt8} (same : n = b.toNat) : UInt8.ofNat n = b := by
  rw [same, UInt8.ofNat_toNat]

theorem headOfTwo_scalar {c : Char} {width : Nat} (found : headOfTwo lead rest = .scalar c width) :
    ∃ b more, rest = b :: more ∧ isContinuation b = true ∧
      c = Char.ofNat ((lead.toNat - 0xC0) * 64 + (b.toNat - 0x80)) ∧ width = 2 := by
  rcases rest with _ | ⟨b, more⟩
  · cases found
  simp only [headOfTwo] at found
  split at found
  · rename_i second
    obtain ⟨rfl, rfl⟩ := Head.scalar.inj found
    exact ⟨b, more, rfl, second, rfl, rfl⟩
  · cases found

theorem headOfThree_scalar {c : Char} {width : Nat} (found : headOfThree lead rest = .scalar c width) :
    ∃ b d more, rest = b :: d :: more ∧ admitsSecond lead b = true ∧ isContinuation d = true ∧
      c = Char.ofNat ((lead.toNat - 0xE0) * 4096 + (b.toNat - 0x80) * 64 + (d.toNat - 0x80)) ∧
        width = 3 := by
  unfold headOfThree at found
  split at found
  · cases found
  · rename_i b rest
    split at found
    · rename_i second
      split at found
      · cases found
      · rename_i d more
        split at found
        · rename_i third
          obtain ⟨rfl, rfl⟩ := Head.scalar.inj found
          exact ⟨b, d, more, rfl, second, third, rfl, rfl⟩
        · cases found
    · cases found

theorem headOfFour_scalar {c : Char} {width : Nat} (found : headOfFour lead rest = .scalar c width) :
    ∃ b d e more, rest = b :: d :: e :: more ∧ admitsSecond lead b = true ∧
      isContinuation d = true ∧ isContinuation e = true ∧
      c = Char.ofNat ((lead.toNat - 0xF0) * 262144 + (b.toNat - 0x80) * 4096 + (d.toNat - 0x80) * 64 +
        (e.toNat - 0x80)) ∧ width = 4 := by
  unfold headOfFour at found
  split at found
  · cases found
  · rename_i b rest
    split at found
    · rename_i second
      split at found
      · cases found
      · rename_i d rest
        split at found
        · rename_i third
          split at found
          · cases found
          · rename_i e more
            split at found
            · rename_i fourth
              obtain ⟨rfl, rfl⟩ := Head.scalar.inj found
              exact ⟨b, d, e, more, rfl, second, third, fourth, rfl, rfl⟩
            · cases found
        · cases found
    · cases found

/-- The bytes of a scalar value that `head` finds are its encoding. -/
theorem head_scalar {c : Char} {width : Nat} (found : head lead rest = .scalar c width) :
    ∃ tail more, rest = tail ++ more ∧ width = tail.length + 1 ∧ encodeChar c = lead :: tail := by
  rcases head_cases lead with ⟨small, one⟩ | ⟨low, high⟩ | ⟨low, high⟩ | ⟨low, high⟩ | stray
  · rw [one, Head.scalar.injEq] at found
    obtain ⟨rfl, rfl⟩ := found
    refine ⟨[], rest, rfl, rfl, ?_⟩
    have whole := toNat_ofNat_char (n := lead.toNat) (by simp only [Nat.isValidChar]; omega)
    simp [encodeChar, whole, small]
  · rw [head_of_two low high] at found
    obtain ⟨b, more, rfl, second, value, rfl⟩ := headOfTwo_scalar found
    have bound := isContinuation_bounds second
    have whole := toNat_ofNat_char (n := (lead.toNat - 0xC0) * 64 + (b.toNat - 0x80))
      (by simp only [Nat.isValidChar]; omega)
    refine ⟨[b], more, rfl, rfl, ?_⟩
    simp only [encodeChar, value, whole]
    rw [if_neg (by omega), if_pos (by omega), byte_eq (b := lead) (by omega), byte_eq (b := b) (by omega)]
  · rw [head_of_three low high] at found
    obtain ⟨b, d, more, rfl, second, third, value, rfl⟩ := headOfThree_scalar found
    have bound := admitsSecond_bounds second
    have bound' := isContinuation_bounds third
    have whole := toNat_ofNat_char
      (n := (lead.toNat - 0xE0) * 4096 + (b.toNat - 0x80) * 64 + (d.toNat - 0x80))
      (by simp only [Nat.isValidChar]; omega)
    refine ⟨[b, d], more, rfl, rfl, ?_⟩
    simp only [encodeChar, value, whole]
    rw [if_neg (by omega), if_neg (by omega), if_pos (by omega), byte_eq (b := lead) (by omega),
      byte_eq (b := b) (by omega), byte_eq (b := d) (by omega)]
  · rw [head_of_four low high] at found
    obtain ⟨b, d, e, more, rfl, second, third, fourth, value, rfl⟩ := headOfFour_scalar found
    have bound := admitsSecond_bounds second
    have bound' := isContinuation_bounds third
    have bound'' := isContinuation_bounds fourth
    have whole := toNat_ofNat_char (n := (lead.toNat - 0xF0) * 262144 + (b.toNat - 0x80) * 4096 +
      (d.toNat - 0x80) * 64 + (e.toNat - 0x80)) (by simp only [Nat.isValidChar]; omega)
    refine ⟨[b, d, e], more, rfl, rfl, ?_⟩
    simp only [encodeChar, value, whole]
    rw [if_neg (by omega), if_neg (by omega), if_neg (by omega), byte_eq (b := lead) (by omega),
      byte_eq (b := b) (by omega), byte_eq (b := d) (by omega), byte_eq (b := e) (by omega)]
  · simp [stray] at found

theorem head_scalar_whole {c : Char} (found : head lead rest = .scalar c (rest.length + 1)) :
    encodeChar c = lead :: rest := by
  obtain ⟨tail, more, rfl, width, spelled⟩ := head_scalar found
  rw [List.length_append] at width
  obtain rfl : more = [] := List.length_eq_zero_iff.1 (by omega)
  rw [spelled, List.append_nil]

/-! ### Sequences that break off -/

theorem exists_second (lead : UInt8) : ∃ b, admitsSecond lead b = true := by
  by_cases low : lead.toNat = 0xED ∨ lead.toNat = 0xF4
  · exact ⟨0x80, admitsSecond_of_bounds lead (by decide) (by omega) (by simp) (by omega) (by simp)⟩
  · exact ⟨0xA0, admitsSecond_of_bounds lead (by decide) (by simp) (by omega) (by simp) (by omega)⟩

/-- What has broken off can go on, by a byte that completes it or leaves less to come. -/
theorem BrokenOff.continues (off : BrokenOff lead part) :
    ∃ b, BrokenOff lead (part ++ [b]) ∨
      ∃ c, head lead (part ++ [b]) = .scalar c (part.length + 2) := by
  have tail : isContinuation 0x80 = true := by decide
  obtain ⟨b, second⟩ := exists_second lead
  cases off with
  | ofTwo low high =>
    refine ⟨0x80, .inr ⟨Char.ofNat ((lead.toNat - 0xC0) * 64 + 0), ?_⟩⟩
    rw [head_of_two low high, List.nil_append, headOfTwo, if_pos tail]
    rfl
  | ofThree low high => exact ⟨b, .inl (.ofThree₂ low high second)⟩
  | @ofThree₂ b low high second =>
    refine ⟨0x80, .inr ⟨Char.ofNat ((lead.toNat - 0xE0) * 4096 + (b.toNat - 0x80) * 64 + 0), ?_⟩⟩
    rw [head_of_three low high]
    simp only [List.cons_append, List.nil_append, headOfThree, second, tail, if_true]
    rfl
  | ofFour low high => exact ⟨b, .inl (.ofFour₂ low high second)⟩
  | ofFour₂ low high second => exact ⟨0x80, .inl (.ofFour₃ low high second tail)⟩
  | @ofFour₃ b c low high second third =>
    refine ⟨0x80, .inr ⟨Char.ofNat ((lead.toNat - 0xF0) * 262144 + (b.toNat - 0x80) * 4096 +
      (c.toNat - 0x80) * 64 + 0), ?_⟩⟩
    rw [head_of_four low high]
    simp only [List.cons_append, List.nil_append, headOfFour, second, third, tail, if_true]
    rfl

theorem BrokenOff.completes (off : BrokenOff lead part) :
    ∃ c more, more ≠ [] ∧ encodeChar c = lead :: (part ++ more) := by
  -- Induction on the bytes that may still be missing.
  induction missing : 3 - part.length generalizing part with
  | zero =>
    have bound := off.length_le
    omega
  | succ n ih =>
    obtain ⟨b, longer | ⟨c, found⟩⟩ := off.continues
    · have less : 3 - (part ++ [b]).length = n := by
        rw [List.length_append, List.length_singleton]
        omega
      obtain ⟨c, more, _, spelled⟩ := ih longer less
      exact ⟨c, b :: more, List.cons_ne_nil b more, by rw [spelled, List.append_assoc]; rfl⟩
    · exact ⟨c, [b], List.cons_ne_nil b [], head_scalar_whole (by rw [found, List.length_append]; rfl)⟩

theorem unfinished_of_head (incomplete : head lead rest = .incomplete) : Unfinished (lead :: rest) := by
  obtain ⟨c, more, some_, spelled⟩ := (brokenOff_of_head incomplete).completes
  rw [encodeChar_eq] at spelled
  refine ⟨c, ⟨more, by rw [spelled]; rfl⟩, ?_⟩
  rw [spelled]
  simp [some_]

theorem Unfinished.begins {bytes : List UInt8} (unfinished : Unfinished bytes) : Begins bytes := by
  obtain ⟨c, front, _⟩ := unfinished
  exact ⟨c, front⟩

theorem Unfinished.nil : Unfinished [] := ⟨'a', List.nil_prefix, by decide⟩

/-- The first bytes of an encoding are incomplete until all of it is there. -/
theorem Unfinished.head (unfinished : Unfinished (lead :: rest)) : head lead rest = .incomplete := by
  obtain ⟨c, ⟨more, spelled⟩, short⟩ := unfinished
  obtain ⟨first, tail, same, found⟩ := head_encodeChar c
  rw [encodeChar_eq, ← spelled, List.cons_append, List.cons.injEq] at same
  obtain ⟨rfl, rfl⟩ := same
  have whole := found []
  rw [List.append_nil] at whole
  apply Classical.byContradiction
  intro complete
  have fits := head_width_le lead rest
  rw [← head_append more complete, whole, Head.width, List.length_append] at fits
  have none_ : more = [] := List.length_eq_zero_iff.1 (by omega)
  rw [none_, List.append_nil] at spelled
  exact short spelled

theorem Unfinished.length_le {bytes : List UInt8} (unfinished : Unfinished bytes) : bytes.length ≤ 3 := by
  cases bytes with
  | nil => simp
  | cons lead rest =>
    have bound := (brokenOff_of_head unfinished.head).length_le
    rw [List.length_cons]
    omega

theorem decode_unfinished {bytes : List UInt8} (unfinished : Unfinished bytes) :
    decode bytes = ([], bytes) := by
  cases bytes with
  | nil => exact decode_nil
  | cons lead rest => exact decode_incomplete unfinished.head

/-! ### Bytes that begin nothing -/

theorem not_begins_of_head {width : Nat} (found : head lead rest = .illFormed width) :
    ¬Begins (lead :: rest) := by
  rintro ⟨c, more, spelled⟩
  obtain ⟨first, tail, same, whole⟩ := head_encodeChar c
  rw [encodeChar_eq, ← spelled, List.cons_append, List.cons.injEq] at same
  obtain ⟨rfl, rfl⟩ := same
  have complete : head lead rest ≠ .incomplete := by simp [found]
  have longer := whole []
  rw [List.append_nil, head_append more complete, found] at longer
  cases longer

theorem head_nil_illFormed {width : Nat} (found : head lead [] = .illFormed width) : width = 1 := by
  rcases head_cases lead with ⟨_, one⟩ | ⟨low, high⟩ | ⟨low, high⟩ | ⟨low, high⟩ | stray
  · simp [one] at found
  · simp [head_of_two low high, headOfTwo] at found
  · simp [head_of_three low high, headOfThree] at found
  · simp [head_of_four low high, headOfFour] at found
  · rw [stray, Head.illFormed.injEq] at found
    exact found.symm

theorem head_stray (new : ¬Begins [lead]) : head lead [] = .illFormed 1 := by
  cases found : head lead [] with
  | scalar c width =>
    obtain ⟨tail, more, split, _, spelled⟩ := head_scalar found
    obtain ⟨rfl, _⟩ := List.append_eq_nil_iff.1 split.symm
    rw [encodeChar_eq] at spelled
    exact absurd ⟨c, spelled ▸ List.prefix_rfl⟩ new
  | illFormed width => rw [head_nil_illFormed found]
  | incomplete => exact absurd (unfinished_of_head found).begins new

/-- The byte that a beginning does not admit. -/
theorem head_broken {b : UInt8} (incomplete : head lead part = .incomplete)
    (new : ¬Begins (lead :: (part ++ [b]))) :
    head lead (part ++ [b]) = .illFormed (part.length + 1) := by
  cases found : head lead (part ++ [b]) with
  | scalar c width =>
    obtain ⟨tail, more, split, _, spelled⟩ := head_scalar found
    obtain ⟨_, _, same, whole⟩ := head_encodeChar c
    rw [spelled, List.cons.injEq] at same
    obtain ⟨rfl, rfl⟩ := same
    rcases List.eq_nil_or_concat more with rfl | ⟨front, last, rfl⟩
    · rw [List.append_nil] at split
      rw [encodeChar_eq, ← split] at spelled
      exact absurd ⟨c, spelled ▸ List.prefix_rfl⟩ new
    · rw [List.concat_eq_append, ← List.append_assoc] at split
      have earlier := whole front
      rw [← (List.append_inj' split rfl).1, incomplete] at earlier
      cases earlier
  | illFormed width => rw [(brokenOff_of_head incomplete).push found]
  | incomplete => exact absurd (unfinished_of_head found).begins new

/-- The byte that makes a beginning complete or ill formed. -/
theorem head_decided {front : List UInt8} (incomplete : head lead front = .incomplete)
    (complete : head lead (front ++ rest) ≠ .incomplete) :
    ∃ part b more, front ++ rest = part ++ b :: more ∧ head lead part = .incomplete ∧
      head lead (part ++ [b]) ≠ .incomplete := by
  induction rest generalizing front with
  | nil => exact absurd (by rwa [List.append_nil]) complete
  | cons b rest ih =>
    by_cases longer : head lead (front ++ [b]) = .incomplete
    · obtain ⟨part, b', more, split, decided⟩ := ih longer (by simpa using complete)
      exact ⟨part, b', more, by simpa using split, decided⟩
    · exact ⟨front, b, rest, rfl, incomplete, longer⟩

theorem head_illFormed_cases {width : Nat} (found : head lead rest = .illFormed width) :
    head lead [] = .illFormed 1 ∧ width = 1 ∨
      ∃ part b more, rest = part ++ b :: more ∧ width = part.length + 1 ∧
        head lead part = .incomplete ∧ head lead (part ++ [b]) = .illFormed width := by
  by_cases first : head lead [] = .incomplete
  · have decided : head lead ([] ++ rest) ≠ .incomplete := by simp [found]
    obtain ⟨part, b, more, split, incomplete, complete⟩ := head_decided first decided
    have same := head_append more complete
    rw [List.nil_append] at split
    rw [List.append_assoc, List.singleton_append, ← split, found] at same
    exact .inr ⟨part, b, more, split, (brokenOff_of_head incomplete).push same.symm, incomplete, same.symm⟩
  · have same := head_append rest first
    rw [List.nil_append, found] at same
    have one := head_nil_illFormed same.symm
    exact .inl ⟨by rw [← same, one], one⟩

/-! ### The cut of a whole text -/

theorem decodes_decode (bytes : List UInt8) : Decodes bytes (decode bytes).1 (decode bytes).2 := by
  -- The recursion of `decode`.
  induction bytes using decode.induct with
  | case1 =>
    rw [decode_nil]
    exact .held .nil
  | case2 lead rest c width found items held same ih =>
    obtain ⟨tail, more, rfl, rfl, spelled⟩ := head_scalar found
    rw [decode_scalar found]
    rw [Nat.add_sub_cancel, List.drop_left] at ih ⊢
    rw [encodeChar_eq] at spelled
    rw [← List.cons_append, ← spelled]
    exact .char c ih
  | case3 lead rest width found items held same ih =>
    rw [decode_illFormed found]
    rcases head_illFormed_cases found with ⟨alone, rfl⟩ | ⟨part, b, more, rfl, rfl, incomplete, broken⟩
    · exact .stray (not_begins_of_head alone) ih
    · rw [Nat.add_sub_cancel, List.drop_left] at ih ⊢
      exact .broken (List.cons_ne_nil lead part) (unfinished_of_head incomplete)
        (not_begins_of_head broken) ih
  | case4 lead rest found =>
    rw [decode_incomplete found]
    exact .held (unfinished_of_head found)

theorem Decodes.decode {bytes held : List UInt8} {items : List Item} (decodes : Decodes bytes items held) :
    decode bytes = (items, held) := by
  induction decodes with
  | held unfinished => exact decode_unfinished unfinished
  | char c _ ih => rw [← encodeChar_eq, decode_encodeChar_append, ih]
  | @broken part b rest items held some_ unfinished new _ ih =>
    obtain ⟨lead, part, rfl⟩ := List.exists_cons_of_ne_nil some_
    have broken := head_broken unfinished.head new
    have complete : head lead (part ++ [b]) ≠ .incomplete := by simp [broken]
    have whole := head_append rest complete
    rw [broken, List.append_assoc, List.singleton_append] at whole
    rw [List.cons_append, decode_illFormed whole, Nat.add_sub_cancel, List.drop_left, ih]
    rfl
  | @stray b rest items held new _ ih =>
    have alone := head_stray new
    have complete : head b [] ≠ .incomplete := by simp [alone]
    have whole := head_append rest complete
    rw [alone, List.nil_append] at whole
    rw [decode_illFormed whole, Nat.sub_self, List.drop_zero, ih]

/-- There is one way to cut bytes, and `decode` finds it. -/
theorem decodes_iff {bytes held : List UInt8} {items : List Item} :
    Decodes bytes items held ↔ decode bytes = (items, held) := by
  constructor
  · exact Decodes.decode
  · intro same
    have decodes := decodes_decode bytes
    rwa [same] at decodes

theorem unfinished_of_decode {bytes : List UInt8} (kept : decode bytes = ([], bytes)) :
    Unfinished bytes := by
  cases bytes with
  | nil => exact .nil
  | cons lead rest =>
    cases found : head lead rest with
    | scalar c width => simp [decode_scalar found] at kept
    | illFormed width => simp [decode_illFormed found] at kept
    | incomplete => exact unfinished_of_head found

/-! ### How many characters come of how many bytes -/

/-- What is complete goes on past what is not. -/
theorem length_lt_of_incomplete {front part bytes : List UInt8} (incomplete : head lead front = .incomplete)
    (complete : head lead part ≠ .incomplete) (first : front <+: bytes) (second : part <+: bytes) :
    front.length < part.length := by
  refine Nat.lt_of_not_le fun short => ?_
  obtain ⟨more, rfl⟩ := List.prefix_of_prefix_length_le second first short
  exact complete ((head_append more complete).symm.trans incomplete)

/-- The first item of some bytes reaches past every beginning of them that is incomplete. -/
theorem length_lt_width {front : List UInt8} (incomplete : head lead front = .incomplete)
    (complete : head lead (front ++ rest) ≠ .incomplete) : front.length < (head lead (front ++ rest)).width := by
  have first : front <+: front ++ rest := List.prefix_append _ _
  cases found : head lead (front ++ rest) with
  | incomplete => exact absurd found complete
  | scalar c width =>
    obtain ⟨tail, more, split, rfl, spelled⟩ := head_scalar found
    obtain ⟨_, _, same, whole⟩ := head_encodeChar c
    rw [spelled, List.cons.injEq] at same
    obtain ⟨rfl, rfl⟩ := same
    have reached := whole []
    rw [List.append_nil] at reached
    have second : tail <+: front ++ rest := ⟨more, split.symm⟩
    have longer := length_lt_of_incomplete incomplete (by simp [reached]) first second
    exact Nat.lt_succ_of_lt longer
  | illFormed width =>
    rcases head_illFormed_cases found with ⟨alone, _⟩ | ⟨part, b, more, split, rfl, _, broken⟩
    · have longer := length_lt_of_incomplete incomplete (by simp [alone]) first List.nil_prefix
      cases longer
    · have second : part ++ [b] <+: front ++ rest := ⟨more, by rw [split]; simp⟩
      have longer := length_lt_of_incomplete incomplete (by simp [broken]) first second
      simpa [Head.width] using longer

/-- Bytes behind what was kept back become as many characters at most, and one. -/
theorem length_decode_held {held : List UInt8} (kept : decode held = ([], held)) (bytes : List UInt8) :
    (decode (held ++ bytes)).1.length ≤ bytes.length + 1 := by
  cases held with
  | nil => 
    have whole := length_decode bytes
    rw [List.nil_append]
    omega
  | cons lead part =>
    have incomplete := (unfinished_of_decode kept).head
    have rest := length_decode ((part ++ bytes).drop ((head lead (part ++ bytes)).width - 1))
    rw [List.length_drop, List.length_append] at rest
    rw [List.cons_append]
    cases found : head lead (part ++ bytes) with
    | incomplete => simp [decode_incomplete found]
    | scalar c width =>
      have reaches := length_lt_width incomplete (by rw [found]; simp)
      rw [found] at reaches rest
      simp only [Head.width] at reaches rest
      rw [decode_scalar found, List.length_cons]
      omega
    | illFormed width =>
      have reaches := length_lt_width incomplete (by rw [found]; simp)
      rw [found] at reaches rest
      simp only [Head.width] at reaches rest
      rw [decode_illFormed found, List.length_cons]
      omega

end EcmaLex.Text.Utf8
