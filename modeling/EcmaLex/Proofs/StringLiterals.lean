import EcmaLex.Proofs.Reading.StringBodies

/-!
What a closed string literal answers: the text of its code units if all its escapes are whole
(`stringLiteral_value`), and otherwise the place of the first broken one (`stringLiteral_malformed`).
-/
namespace EcmaLex
open Text

variable {mode : Mode} {quote : Char} {pieces : List StringPiece} {marks : List Mark} {loc : Location}

theorem bodyValue_raw (front back : List StringPiece) (c : Char) :
    bodyValue (front ++ .raw c :: back) = bodyValue front ++ c :: bodyValue back := by
  unfold bodyValue
  rw [List.flatMap_append, List.flatMap_cons]
  exact utf16Lossy_raw _ _ c

theorem bodyValue_pair (front back : List StringPiece) {between : List StringPiece} {text text' : List Char}
    {high low : Nat} (silent : ∀ p ∈ between, p = .escape ['\n'] [])
    (isHigh : Utf16Text.isHighSurrogate high = true) (isLow : Utf16Text.isLowSurrogate low = true) :
    bodyValue (front ++ .escape text [high] :: (between ++ .escape text' [low] :: back)) =
      bodyValue front ++ Utf16Text.pair high low :: bodyValue back := by
  have none_ : between.flatMap StringPiece.units = [] := by
    rw [List.flatMap_eq_nil_iff]
    intro p member
    rw [silent p member]
    rfl
  unfold bodyValue
  rw [List.flatMap_append, List.flatMap_cons, List.flatMap_append, List.flatMap_cons, none_]
  exact utf16Lossy_pair _ _ isHigh isLow

theorem firstFault_whole (whole : ∀ p ∈ pieces, p.isBroken = false) : firstFault pieces marks = none := by
  induction pieces generalizing marks with
  | nil => rfl
  | cons piece pieces ih =>
    rw [firstFault, whole piece (by simp)]
    exact ih fun p member => whole p (by simp [member])

theorem whole_or_broken (pieces : List StringPiece) :
    (∀ p ∈ pieces, p.isBroken = false) ∨
      ∃ front text back, pieces = front ++ .broken text :: back ∧ ∀ p ∈ front, p.isBroken = false := by
  induction pieces with
  | nil => exact .inl (by simp)
  | cons piece pieces ih =>
    cases piece with
    | broken text => exact .inr ⟨[], text, pieces, rfl, by simp⟩
    | raw | escape =>
      rcases ih with whole | ⟨front, text, back, rfl, whole⟩
      · exact .inl (List.forall_mem_cons.2 ⟨rfl, whole⟩)
      · exact .inr ⟨_ :: front, text, back, rfl, List.forall_mem_cons.2 ⟨rfl, whole⟩⟩

theorem firstFault_broken {front back : List StringPiece} {text : List Char}
    (whole : ∀ p ∈ front, p.isBroken = false)
    (spelled : marked marks = bodySource (front ++ .broken text :: back)) :
    ∃ loc, marks[(bodySource front).length]? = some ('\\', loc) ∧
      firstFault (front ++ .broken text :: back) marks = some loc := by
  induction front generalizing marks with
  | nil =>
    obtain ⟨loc, rest, rfl, _⟩ := marked_eq_cons spelled
    exact ⟨loc, rfl, rfl⟩
  | cons piece front ih =>
    rw [List.cons_append, bodySource, List.flatMap_cons] at spelled
    obtain ⟨first, rest, rfl, here, spelled⟩ := marked_eq_append spelled
    obtain ⟨loc, mark, fault⟩ := ih (fun p member => whole p (by simp [member])) spelled
    have count : piece.source.length = first.length := by rw [← here, length_marked]
    refine ⟨loc, ?_, ?_⟩
    · rw [bodySource, List.flatMap_cons, List.length_append, count, List.getElem?_append_right (by omega),
        Nat.add_sub_cancel_left]
      exact mark
    · rw [List.cons_append, firstFault, whole piece (by simp), count, List.drop_left]
      exact fault

/-- The fault is the backslash of the first broken piece. -/
theorem firstFault_iff (spelled : marked marks = bodySource pieces) :
    firstFault pieces marks = some loc ↔
      ∃ front text back, pieces = front ++ .broken text :: back ∧ (∀ p ∈ front, p.isBroken = false) ∧
        marks[(bodySource front).length]? = some ('\\', loc) := by
  constructor
  · intro fault
    rcases whole_or_broken pieces with whole | ⟨front, text, back, rfl, whole⟩
    · rw [firstFault_whole whole] at fault
      cases fault
    · obtain ⟨loc', mark, fault'⟩ := firstFault_broken whole spelled
      obtain rfl := Option.some.inj (fault'.symm.trans fault)
      exact ⟨front, text, back, rfl, whole, mark⟩
  · rintro ⟨front, text, back, rfl, whole, mark⟩
    obtain ⟨loc', mark', fault⟩ := firstFault_broken whole spelled
    rw [mark] at mark'
    cases mark'
    exact fault

theorem exists_firstFault (spelled : marked marks = bodySource pieces) :
    (∃ loc, firstFault pieces marks = some loc) ↔ ∃ p ∈ pieces, p.isBroken = true := by
  constructor
  · rintro ⟨loc, fault⟩
    obtain ⟨front, text, back, rfl, _⟩ := (firstFault_iff spelled).1 fault
    exact ⟨.broken text, by simp, rfl⟩
  · rintro ⟨p, member, broken⟩
    rcases whole_or_broken pieces with whole | ⟨front, text, back, rfl, whole⟩
    · rw [whole p member] at broken
      cases broken
    · obtain ⟨loc, _, fault⟩ := firstFault_broken whole spelled
      exact ⟨loc, fault⟩

theorem closedOutcome_malformed :
    closedOutcome pieces marks = .malformedEscape loc ↔ firstFault pieces marks = some loc := by
  unfold closedOutcome
  cases firstFault pieces marks <;> simp

theorem exists_closedLiteral_ofText {text : String} {after : List Char}
    (body : Body mode quote (quote :: after) pieces)
    (same : normalize text.toList = bodySource pieces ++ quote :: after) (capacity : Nat) (line : UInt32) :
    ∃ b', ClosedLiteral mode quote (SourceBuffer.ofReader (.ofText text) capacity line) pieces
      (located ⟨line, 0⟩ (bodySource pieces)) b' ∧ b'.toCome = after := by
  have follows := SourceBuffer.follows_ofText same capacity line
  have ahead : (Tape.ofText line (bodySource pieces ++ quote :: after)).ahead =
      (located ⟨line, 0⟩ (bodySource pieces) ++ [(quote, Location.past ⟨line, 0⟩ (bodySource pieces))]) ++
        located ((Location.past ⟨line, 0⟩ (bodySource pieces)).after quote) after := by
    rw [Tape.ofText, located_append, List.append_assoc]
    rfl
  obtain ⟨b', t', handed, follows', ahead'⟩ := follows.handsOut ahead
  refine ⟨b', ⟨body.congr rfl, marked_located _ _, _, handed⟩, ?_⟩
  rw [follows'.toCome, ahead', marked_located]

/-- A closed literal whose escapes are all whole answers the text of its code units. A raw character never
pairs with an escape beside it, and two surrogates pair across line continuations. -/
theorem stringLiteral_value (quotes : quote = '\x22' ∨ quote = '\x27') {b b' : SourceBuffer}
    (closed : ClosedLiteral mode quote b pieces marks b') (whole : ∀ p ∈ pieces, p.isBroken = false) :
    stringRecognizer.run (.start quote mode) b = (.ok (.literal (bodyValue pieces)), b') ∧
      (∀ front c back, pieces = front ++ .raw c :: back →
        bodyValue pieces = bodyValue front ++ c :: bodyValue back) ∧
      ∀ front text high between text' low back,
        pieces = front ++ .escape text [high] :: (between ++ .escape text' [low] :: back) →
        (∀ p ∈ between, p = .escape ['\n'] []) → Utf16Text.isHighSurrogate high = true →
        Utf16Text.isLowSurrogate low = true →
        bodyValue pieces = bodyValue front ++ Utf16Text.pair high low :: bodyValue back := by
  refine ⟨?_, ?_, ?_⟩
  · rw [closed.run quotes, closedOutcome, firstFault_whole whole]
  · rintro front c back rfl
    exact bodyValue_raw front back c
  · rintro front text high between text' low back rfl silent isHigh isLow
    exact bodyValue_pair front back silent isHigh isLow

/-- A high surrogate, a line continuation, a low surrogate in braces and an octal escape. -/
theorem stringLiteral_value_continued :
    let b := SourceBuffer.ofReader (.ofText "\\uD83D\\\n\\u\x7bDE00\x7d\\101\x22;") 512 1
    let pieces : List StringPiece := [.escape ['u', 'D', '8', '3', 'D'] [0xD83D], .escape ['\n'] [],
      .escape ['u', '{', 'D', 'E', '0', '0', '}'] [0xDE00], .escape ['1', '0', '1'] [65]]
    ∃ marks b', ClosedLiteral .sloppy '\x22' b pieces marks b' ∧
      (∀ p ∈ pieces, p.isBroken = false) ∧ b'.toCome = [';'] ∧
      stringRecognizer.run (.start '\x22' .sloppy) b = (.ok (.literal ['😀', 'A']), b') := by
  intro b pieces
  have high : WholeEscape .sloppy ['u', 'D', '8', '3', 'D'] [0xD83D]
      (bodySource pieces.tail ++ ['\x22', ';']) :=
    .unicode (.four (by decide) rfl) (by decide)
  have braced : WrittenNumber ('{' :: (['D', 'E', '0', '0'] ++ ['}'])) 0xDE00 :=
    .braced (by decide) (by decide)
  have low : WholeEscape .sloppy ['u', '{', 'D', 'E', '0', '0', '}'] [0xDE00]
      (bodySource (pieces.drop 3) ++ ['\x22', ';']) :=
    .unicode braced (by decide)
  have octal : WholeEscape .sloppy ['1', '0', '1'] [65] ['\x22', ';'] :=
    .octal (by decide) (List.all_eq_true.1 rfl) (by decide) (by decide) fun _ _ _ => .inl rfl
  have body : Body .sloppy '\x22' ['\x22', ';'] pieces :=
    .escape high (.escape .continuation (.escape low (.escape octal .nil)))
  have same : normalize "\\uD83D\\\n\\u\x7bDE00\x7d\\101\x22;".toList =
      bodySource pieces ++ ['\x22', ';'] := rfl
  obtain ⟨b', closed, rest⟩ := exists_closedLiteral_ofText body same 512 1
  have whole : ∀ p ∈ pieces, p.isBroken = false := by decide
  have value : bodyValue pieces = ['😀', 'A'] := by decide
  have answered := (stringLiteral_value (.inl rfl) closed whole).1
  rw [value] at answered
  exact ⟨_, b', closed, whole, rest, answered⟩

/-- Only a closed literal answers anything but that it is unterminated. It answers a broken escape if one
of its pieces is broken, and the place is that of the first one's backslash. -/
theorem stringLiteral_malformed (quotes : quote = '\x22' ∨ quote = '\x27') (mode : Mode)
    (b : SourceBuffer) :
    (∀ result b', stringRecognizer.run (.start quote mode) b = (.ok result, b') →
      result ≠ .unterminated → ∃ pieces marks, ClosedLiteral mode quote b pieces marks b') ∧
    ∀ pieces marks b', ClosedLiteral mode quote b pieces marks b' →
      ∃ result, stringRecognizer.run (.start quote mode) b = (.ok result, b') ∧
        result ≠ .unterminated ∧
        ((∃ loc, result = .malformedEscape loc) ↔ ∃ p ∈ pieces, p.isBroken = true) ∧
        ∀ loc, result = .malformedEscape loc ↔
          ∃ front text back, pieces = front ++ .broken text :: back ∧
            (∀ p ∈ front, p.isBroken = false) ∧
            marks[(bodySource front).length]? = some ('\\', loc) := by
  constructor
  · intro result b' answered terminated
    exact exists_closedLiteral quotes answered terminated
  · intro pieces marks b' closed
    refine ⟨closedOutcome pieces marks, closed.run quotes, ?_, ?_, ?_⟩
    · unfold closedOutcome
      cases firstFault pieces marks <;> simp
    · simp only [closedOutcome_malformed]
      exact exists_firstFault closed.spelled
    · intro loc
      rw [closedOutcome_malformed]
      exact firstFault_iff closed.spelled

/-- Two broken escapes and a digit that strict code refuses; the first of the three is reported. -/
theorem stringLiteral_malformed_first :
    let b := SourceBuffer.ofReader (.ofText "a\\x4g\\u\x7b110000\x7d\\7\x27") 512 1
    let pieces : List StringPiece := [.raw 'a', .broken ['x', '4'], .raw 'g',
      .broken ['u', '{', '1', '1', '0', '0', '0', '0', '}'], .broken ['7']]
    ∃ marks b', ClosedLiteral .strict '\x27' b pieces marks b' ∧
      stringRecognizer.run (.start '\x27' .strict) b = (.ok (.malformedEscape ⟨1, 1⟩), b') := by
  intro b pieces
  have short : BrokenEscape .strict ['x', '4'] (bodySource (pieces.drop 2) ++ ['\x27']) :=
    .hex (by decide) (by decide) (by rintro c ⟨rfl⟩; decide)
  have large : BrokenEscape .strict ('u' :: '{' :: (['1', '1', '0', '0', '0', '0'] ++ ['}']))
      (bodySource (pieces.drop 4) ++ ['\x27']) :=
    .number (by decide) (by decide)
  have body : Body .strict '\x27' ['\x27'] pieces :=
    .raw (by decide) (by decide) (by decide) (.broken short (.raw (by decide) (by decide) (by decide)
      (.broken large (.broken (.digit (by decide) (by decide)) .nil))))
  have same : normalize "a\\x4g\\u\x7b110000\x7d\\7\x27".toList = bodySource pieces ++ ['\x27'] := rfl
  obtain ⟨b', closed, _⟩ := exists_closedLiteral_ofText body same 512 1
  obtain ⟨result, answered, _, _, reported⟩ :=
    (stringLiteral_malformed (.inr rfl) .strict b).2 pieces _ b' closed
  obtain rfl := (reported ⟨1, 1⟩).2 ⟨[.raw 'a'], ['x', '4'], pieces.drop 2, rfl, by decide, rfl⟩
  exact ⟨_, b', closed, answered⟩

end EcmaLex
