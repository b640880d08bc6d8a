import EcmaLex.Library.Running
import EcmaLex.Proofs.Reading.Stream
import EcmaLex.Proofs.Source.BrokenInput
import EcmaLex.Proofs.Source.EndOfInput

/-!
Input that fails takes no token back. The tokens before the failure depend on the bytes before it alone,
and they begin the tokens of every text that goes on from these bytes.
-/
namespace EcmaLex
open Text SourceWindow

namespace TokenStream

variable {s s' r : TokenStream} {token : Token}

/-- A stream whose input breaks off answers with tokens and then with the failure. It does not come to
an end of input. -/
theorem Over.readAll_breaks [Library] (above : s.Over BreakAlike s) (going : s.failed = false) :
    ∃ (tokens : List Token) (line : UInt32) (cause : ReadFailure),
      s.readAll.1 = tokens.map .ok ++ [.error (.input s.fileName line cause)] ∧
        ∀ t ∈ tokens, t.kind ≠ .eof := by
  induction s using readAll.induct with
  | case1 s e s' read =>
    rcases s.next_cases with ⟨failed, _⟩ | ⟨_, _, _, _, _, other⟩ | ⟨_, line, cause, _, _, _, answer⟩
    · rw [going] at failed
      cases failed
    · cases read.symm.trans other
    · cases read.symm.trans answer
      exact ⟨[], line, cause, by rw [readAll_error read]; rfl, by simp⟩
  | case2 s token s' read eof =>
    obtain ⟨_, read', above'⟩ := above.next breakAlike_simulation read
    cases read.symm.trans read'
    obtain ⟨_, ⟨_, breaks, _⟩, _⟩ := above'.buffer
    have exhausted := (ended_of_next read eof).1.window.exhausted
    rw [breaks.running] at exhausted
    cases exhausted
  | case3 s token s' read more ih =>
    obtain ⟨_, read', above'⟩ := above.next breakAlike_simulation read
    cases read.symm.trans read'
    obtain ⟨_, _, _, _, _, _, rfl⟩ := next_token read
    obtain ⟨tokens, line, cause, answers, others⟩ := ih above' going
    refine ⟨token :: tokens, line, cause, ?_, ?_⟩
    · rw [readAll_more read (eq_false_of_ne_true more), answers]
      rfl
    · rw [List.forall_mem_cons]
      exact ⟨by simpa [Token.isEof] using more, others⟩

theorem prefix_of_answers {tokens tokens' : List Token}
    (front : tokens.map Except.ok <+: (tokens'.map .ok : List (Except StreamError Token))) :
    tokens <+: tokens' :=
  (List.prefix_map_iff_of_injective fun _ _ => Except.ok.inj).1 front

theorem prefix_before_error {tokens tokens' : List Token} {e : StreamError}
    (front : tokens.map .ok <+: tokens'.map Except.ok ++ [Except.error e]) : tokens <+: tokens' := by
  rcases List.prefix_concat_iff.1 front with same | front
  · have failed : Except.error e ∈ tokens.map Except.ok := by simp [same]
    simp at failed
  · exact prefix_of_answers front

/-- Streams whose inputs break off after the same text answer with the same tokens. -/
theorem Over.readAll_alike [Library] (above : s.Over BreakAlike r) {e e' : StreamError}
    {tokens tokens' : List Token} (answers : s.readAll.1 = tokens.map .ok ++ [.error e])
    (answers' : r.readAll.1 = tokens'.map .ok ++ [.error e']) : tokens = tokens' := by
  have back : r.Over BreakAlike s := by
    obtain ⟨⟨v, ⟨text, first, second⟩, same⟩, fileName, mode, failed⟩ := above
    refine ⟨⟨s.buffer.window, ?_, ?_⟩, fileName.symm, mode.symm, failed.symm⟩
    · rw [same]
      exact ⟨text, second, first⟩
    · rw [same]
  have front := above.readAll breakAlike_simulation answers
  have front' := back.readAll breakAlike_simulation answers'
  rw [answers'] at front
  rw [answers] at front'
  exact (prefix_before_error front).eq_of_length_le (prefix_before_error front').length_le

variable {reader other : ByteReader} {bytes more : List UInt8}

theorem ofConfig_breakAlike (breaks : BreaksOff reader.script bytes) (breaks' : BreaksOff other.script bytes)
    (c : Config) : (ofConfig reader c).Over BreakAlike (ofConfig other c) :=
  ⟨⟨_, ⟨Utf8.completed bytes, .ofReader breaks _ _, .ofReader breaks' _ _⟩, rfl⟩, rfl, rfl, rfl⟩

theorem ofConfig_breaksInside (breaks : BreaksOff reader.script bytes)
    (delivers : Delivers other.script (bytes ++ more)) (c : Config) :
    (ofConfig reader c).Over BreaksInside (ofConfig other c) := by
  have holds := Holds.ofReader delivers (max c.bufferCapacity 1) (by omega)
  rw [Utf8.lossy_append] at holds
  exact ⟨⟨_, ⟨Utf8.completed bytes, _, .ofReader breaks _ _, holds⟩, rfl⟩, rfl, rfl, rfl⟩

end TokenStream

open TokenStream

/-- The tokens that come before the input fails are told by the bytes delivered until then, however these
are cut and interrupted. The end of input is not among them, and whatever bytes might have come instead
of the failure, the tokens of the whole begin with them. -/
theorem readAll_breaksOff [Library] (bytes : List UInt8) (c : Config) :
    ∃ tokens : List Token, (∀ t ∈ tokens, t.kind ≠ .eof) ∧
      (∀ reader : ByteReader, BreaksOff reader.script bytes → ∃ line cause,
        (ofConfig reader c).readAll.1 = tokens.map .ok ++ [.error (.input c.fileName line cause)]) ∧
      ∀ (more : List UInt8) (reader : ByteReader), Delivers reader.script (bytes ++ more) →
        ∃ later : List Token, (ofConfig reader c).readAll.1 = (tokens ++ later).map .ok := by
  -- One reader that fails after the bytes, to compare all others with.
  let broken : ByteReader := { script := [.piece bytes, .failure ⟨"", ""⟩] }
  have breaks : BreaksOff broken.script bytes := by
    have piece : BreaksOff broken.script (bytes ++ []) := .piece _ (.failure _ _)
    rwa [List.append_nil] at piece
  obtain ⟨tokens, line, cause, answers, others⟩ :=
    (ofConfig_breakAlike breaks breaks c).readAll_breaks rfl
  refine ⟨tokens, others, ?_, ?_⟩
  · intro reader breaks'
    obtain ⟨tokens', line', cause', answers', _⟩ :=
      (ofConfig_breakAlike breaks' breaks' c).readAll_breaks rfl
    obtain rfl := (ofConfig_breakAlike breaks breaks' c).readAll_alike answers answers'
    exact ⟨line', cause', answers'⟩
  · intro more reader delivers
    have front := (ofConfig_breaksInside breaks delivers c).readAll breaksInside_simulation answers
    obtain ⟨tiles, whole, _⟩ := (On.ofConfig delivers c).readAll_tiled (ofText_at _ _)
    have tokens_ : (ofConfig reader c).readAll.1 = (tiles.map (·.token)).map .ok := by
      rw [whole, List.map_map]
      rfl
    rw [tokens_] at front ⊢
    obtain ⟨later, same⟩ := prefix_of_answers front
    exact ⟨later, by rw [same]⟩

open Running

/-- The input fails between the two halves of a line terminator, or in the middle of a euro sign. -/
theorem readAll_breaksOff_midTerminator :
    let bytes : List UInt8 := [0x61, 0x3D, 0x31, 0x0D]
    let script : List Delivery := [.piece [0x61, 0x3D], .interrupted, .piece [0x31], .piece [0x0D],
      .failure ⟨"ConnectionReset", "gone"⟩, .piece [0x62]]
    let whole : List Delivery := [.piece [0x61, 0x3D, 0x31, 0x0D, 0x0A], .eof]
    let c : Config := { mode := .strict, bufferCapacity := 2 }
    BreaksOff script bytes ∧ Delivers whole (bytes ++ [0x0A]) ∧
      ∃ tokens later : List Token, (∀ t ∈ tokens, t.kind ≠ .eof) ∧
        (∃ line cause, (ofConfig { script } c).readAll.1 =
          tokens.map .ok ++ [.error (.input c.fileName line cause)]) ∧
        (ofConfig { script := whole } c).readAll.1 = (tokens ++ later).map .ok := by
  intro bytes script whole c
  have breaks : BreaksOff script bytes :=
    .piece [0x61, 0x3D] (.interrupted (.piece [0x31] (.piece [0x0D] (.failure _ _))))
  have delivers : Delivers whole (bytes ++ [0x0A]) := .piece [0x61, 0x3D, 0x31, 0x0D, 0x0A] (.eof [])
  obtain ⟨tokens, others, broken, continued⟩ := readAll_breaksOff bytes c
  obtain ⟨later, answers⟩ := continued [0x0A] { script := whole } delivers
  exact ⟨breaks, delivers, tokens, later, others, broken { script } breaks, answers⟩

end EcmaLex
