import EcmaLex.Proofs.Source.Simulation

/-!
What every operation of a source keeps is kept by every scanner, whether it finds a token or its source
fails (`ScanInvariant.scan`).
-/
namespace EcmaLex
open CharSource

variable {σ ρ β : Type} [CharSource σ]

/-- What the operations of a source keep, whatever they answer. -/
structure ScanInvariant (P : σ → Prop) : Prop where
  next {s} : P s → ∀ skipFormat, P (next skipFormat s).2
  putBack {s} : P s → ∀ c, P (putBack c s)
  beginLexeme {s} : P s → P (beginLexeme s)

namespace ScanInvariant

variable {P : σ → Prop} {s s' : σ}

theorem after_next (inv : ScanInvariant P) (before : P s) {skipFormat : Bool}
    {answer : Except ReadFailure (Option Char)} (taken : CharSource.next skipFormat s = (answer, s')) : P s' := by
  have stepped := inv.next before skipFormat
  rwa [taken] at stepped

theorem putBackAll (inv : ScanInvariant P) (before : P s) (cs : List Char) : P (putBackAll cs s) := by
  induction cs generalizing s with
  | nil => exact before
  | cons c cs ih => exact ih (inv.putBack before c)

theorem peek (inv : ScanInvariant P) (before : P s) : P (peek s).2 := by
  unfold CharSource.peek
  split
  · rename_i c s' taken
    exact inv.putBack (inv.after_next before taken) c
  · exact inv.next before false

theorem nextSignificant (inv : ScanInvariant P) (before : P s) : P (nextSignificant s).2 := by
  fun_induction CharSource.nextSignificant s with
  | case1 s c s' taken blank ih => exact ih (inv.after_next (inv.beginLexeme before) taken)
  | case2 s c s' taken significant => exact inv.after_next (inv.beginLexeme before) taken
  | case3 s none_ => exact inv.next (inv.beginLexeme before) true

theorem run (inv : ScanInvariant P) (before : P s) (m : Recognizer ρ β) (state : ρ) :
    P (m.run state s).2 := by
  fun_induction Recognizer.run m state s with
  | case1 state s cause s' taken => exact inv.after_next before taken
  | case2 state s s' taken => exact inv.putBackAll (inv.after_next before taken) _
  | case3 state s c s' taken state' stepped ih => exact ih (inv.after_next before taken)
  | case4 state s c s' taken back result stepped =>
    exact inv.putBackAll (inv.after_next before taken) back

theorem resume (inv : ScanInvariant P) (before : P s) (m : Recognizer ρ β) (state : ρ) (c : Char) :
    P (m.resume state c s).2 := by
  unfold Recognizer.resume
  split
  · exact inv.run before m _
  · exact inv.putBackAll before _

theorem scanPunctuator (inv : ScanInvariant P) (before : P s) (first : Char) :
    P (scanPunctuator first s).2 := by
  unfold EcmaLex.scanPunctuator
  split
  · exact before
  · exact inv.run before punctuatorRecognizer _

theorem afterSolidus (inv : ScanInvariant P) (before : P s) : P (afterSolidus s).2 := by
  unfold EcmaLex.afterSolidus
  split
  · rename_i taken
    exact inv.after_next before taken
  · rename_i taken
    exact inv.after_next before taken
  · rename_i c s' taken
    have stepped := inv.after_next before taken
    split
    · exact stepped
    · split
      · exact stepped
      · exact inv.putBack stepped c

theorem scanSolidus (inv : ScanInvariant P) (before : P s) (start : Location) : P (scanSolidus start s).2 := by
  have decided := inv.afterSolidus before
  unfold EcmaLex.scanSolidus
  split <;> rename_i found <;> rw [found] at decided
  · exact decided
  · exact inv.scanPunctuator decided '/'
  · exact inv.run decided lineComment ()
  · exact inv.run decided blockComment {}

variable [Library]

theorem scanNumber (inv : ScanInvariant P) (before : P s) (mode : Mode) (first : Char) (start : Location) :
    P (scanNumber mode first start s).2 :=
  inv.run before numberRecognizer _

theorem scanFrom (inv : ScanInvariant P) (before : P s) (mode : Mode) (first : Char) (start : Location) :
    P (scanFrom mode first start s).2 := by
  unfold EcmaLex.scanFrom
  split
  · exact inv.run before stringRecognizer _
  · split
    · exact inv.scanNumber before mode first start
    · split
      · have peeked := inv.peek before
        split <;> rename_i found <;> rw [found] at peeked
        · exact peeked
        · split
          · exact inv.scanNumber peeked mode first start
          · exact inv.scanPunctuator peeked first
      · split
        · exact inv.resume before (identifierRecognizer mode) _ first
        · exact inv.scanPunctuator before first

theorem scanOnce (inv : ScanInvariant P) (before : P s) (mode : Mode) : P (scanOnce mode s).2 := by
  have found := inv.nextSignificant before
  unfold EcmaLex.scanOnce
  split <;> rename_i taken <;> rw [taken] at found
  · exact found
  · exact found
  · simp only
    split
    · exact found
    · split
      · exact inv.scanSolidus found _
      · exact inv.scanFrom found mode _ _

theorem scan (inv : ScanInvariant P) (before : P s) (mode : Mode) : P (scan mode s).2 := by
  fun_induction EcmaLex.scan mode s with
  | case1 s cause s' once =>
    have scanned := inv.scanOnce before mode
    rwa [once] at scanned
  | case2 s p s' once =>
    have scanned := inv.scanOnce before mode
    rwa [once] at scanned
  | case3 s s' once ih =>
    have scanned := inv.scanOnce before mode
    rw [once] at scanned
    exact ih scanned

end ScanInvariant
end EcmaLex
