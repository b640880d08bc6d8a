import EcmaLex.Library.Running
import EcmaLex.Proofs.Reading.Stream

/-!
Refills are not to be seen. However a reader cuts and interrupts its bytes and however large the window
is, a stream gives the tokens of the decoded text.
-/
namespace EcmaLex
open Text TokenStream

/-- A stream answers with tokens up to the end of input, and they are those of a stream that reads the
decoded text from memory with the default capacity. -/
theorem readAll_refill [Library] (reader : ByteReader) {bytes : List UInt8}
    (delivers : Delivers reader.script bytes) (c : Config) :
    ∃ tokens last, last.kind = .eof ∧ (∀ t ∈ tokens, t.kind ≠ .eof) ∧
      (ofConfig reader c).readAll.1 = (tokens ++ [last]).map .ok ∧
      (ofConfig (.ofText (String.ofList (Utf8.lossy bytes)))
        { c with bufferCapacity := ({} : Config).bufferCapacity }).readAll.1 =
          (tokens ++ [last]).map .ok := by
  let decoded := String.ofList (Utf8.lossy bytes)
  let plain : Config := { c with bufferCapacity := ({} : Config).bufferCapacity }
  have on := On.ofConfig delivers c
  have memory := On.ofConfig (delivers_ofText decoded) plain
  rw [Utf8.lossy_encode, String.toList_ofList] at memory
  have spot := ofText_at c.startLine (normalize (Utf8.lossy bytes))
  obtain ⟨tiles, answers, tiled⟩ := on.readAll_tiled spot
  obtain ⟨front, last, rfl, eof, others⟩ := tiled.eof_last
  have same : (ofConfig reader c).readAll.1 = ((front ++ [last]).map (·.token)).map .ok := by
    rw [answers, List.map_map]
    rfl
  rw [List.map_append] at same
  refine ⟨front.map (·.token), last.token, eof, ?_, same, ?_⟩
  · intro t member
    obtain ⟨tile, inside, rfl⟩ := List.mem_map.1 member
    exact others tile inside
  · exact (on.readAll_eq memory spot).symm.trans same

open Running

/-- The euro sign cut into three pieces, a line terminator cut in two, an ill-formed byte, and bytes
after the end of input, read one character at a time. -/
theorem readAll_refill_cut :
    let script : List Delivery := [.interrupted, .piece [0x61, 0xE2], .piece [0x82], .interrupted,
      .piece [0xAC, 0x0D], .piece [0x0A, 0xFF], .eof, .piece [0x62]]
    let bytes : List UInt8 := [0x61, 0xE2, 0x82, 0xAC, 0x0D, 0x0A, 0xFF]
    let c : Config := { mode := .strict, bufferCapacity := 1 }
    Delivers script bytes ∧
      ∃ tokens last, last.kind = .eof ∧ (∀ t ∈ tokens, t.kind ≠ .eof) ∧
        (ofConfig { script } c).readAll.1 = (tokens ++ [last]).map .ok ∧
        (ofConfig (.ofText (String.ofList (Utf8.lossy bytes)))
          { c with bufferCapacity := ({} : Config).bufferCapacity }).readAll.1 =
            (tokens ++ [last]).map .ok := by
  intro script bytes c
  have delivers : Delivers script bytes :=
    .interrupted (.piece [0x61, 0xE2] (.piece [0x82] (.interrupted
      (.piece [0xAC, 0x0D] (.piece [0x0A, 0xFF] (.eof [.piece [0x62]]))))))
  exact ⟨delivers, readAll_refill { script } delivers c⟩

end EcmaLex
