import EcmaLex.Proofs.Source.EndOfInput
import EcmaLex.Proofs.Source.WindowRuns

/-!
Reads that fail. A failed read delivers nothing and may be made again, so input that fails now and then is
worth what it is worth without the failures. What fails over the one can be asked again and then answers as
it does over the other (`Over.attempt_next`).
-/
namespace EcmaLex
open Text CharSource

def Delivery.isFailure : Delivery → Bool
  | .failure _ => true
  | _ => false

def ReadResult.isFailure : ReadResult → Bool
  | .failed _ => true
  | _ => false

namespace ByteReader

/-- A script without its failures. -/
def mended (script : List Delivery) : List Delivery := script.filter fun d => !d.isFailure

/-- The bytes of a script up to its first read of nothing, however it is interrupted and however often
it fails. -/
def contents : List Delivery → List UInt8
  | .piece bytes :: script => bytes ++ contents script
  | .interrupted :: script => contents script
  | .failure _ :: script => contents script
  | .eof :: _ => []
  | [] => []

theorem delivers_mended (script : List Delivery) : Delivers (mended script) (contents script) := by
  fun_induction contents script with
  | case1 bytes script ih => exact .piece bytes ih
  | case2 script ih => exact .interrupted ih
  | case3 cause script ih => exact ih
  | case4 script => exact .eof _
  | case5 => exact .exhausted

variable {room : Nat} {script rest : List Delivery} {result : ReadResult} {cause : ReadFailure}

/-- A read that fails over a script leaves one behind that delivers the same without its failures. Any
other read answers the same without them. -/
theorem deliver_mended (answered : deliver room script = (result, rest)) :
    (∃ cause, result = .failed cause ∧ deliver room (mended script) = deliver room (mended rest)) ∨
      result.isFailure = false ∧ deliver room (mended script) = (result, mended rest) := by
  fun_induction deliver room script with
  | case1 => cases answered; exact .inr ⟨rfl, rfl⟩
  | case2 rest' ih => exact ih answered
  | case3 b tail rest' left =>
    cases answered
    refine .inr ⟨rfl, ?_⟩
    rw [show mended (.piece (b :: tail) :: rest') = .piece (b :: tail) :: mended rest' from rfl, deliver]
    split <;> rfl
  | case4 rest' => cases answered; exact .inr ⟨rfl, rfl⟩
  | case5 rest' => cases answered; exact .inr ⟨rfl, rfl⟩
  | case6 cause rest' => cases answered; exact .inl ⟨cause, rfl, rfl⟩

/-- A read leaves no failures behind that its script does not have. -/
theorem failures_of_deliver (delivered : deliver room script = (result, rest)) (among : .failure cause ∈ rest) :
    .failure cause ∈ script := by
  fun_induction deliver room script with
  | case1 => cases delivered; exact among
  | case2 rest' ih => exact .tail _ (ih delivered)
  | case3 b tail rest' left =>
    cases delivered
    split at among
    · exact .tail _ among
    · cases among with
      | tail _ among => exact .tail _ among
  | case4 rest' => cases delivered; exact .tail _ among
  | case5 rest' => cases delivered; exact .tail _ among
  | case6 cause' rest' => cases delivered; exact .tail _ among

/-- A read fails with a failure of its script. -/
theorem failure_of_deliver (failed : deliver room script = (.failed cause, rest)) : .failure cause ∈ script := by
  fun_induction deliver room script with
  | case1 => cases failed
  | case2 rest' ih => exact .tail _ (ih failed)
  | case3 b tail rest' left => cases failed
  | case4 rest' => cases failed
  | case5 rest' => cases failed
  | case6 cause' rest' => cases failed; exact .head _

theorem delivers_of_failed {bytes : List UInt8} (failed : deliver room script = (.failed cause, rest))
    (delivers : Delivers (mended script) bytes) : Delivers (mended rest) bytes := by
  fun_induction deliver room script with
  | case1 => cases failed
  | case2 rest' ih =>
    cases delivers with
    | piece _ later => exact ih failed later
  | case3 b tail rest' left => cases failed
  | case4 rest' => cases failed
  | case5 rest' => cases failed
  | case6 cause rest' => cases failed; exact delivers

theorem read_of_deliver {r : ByteReader} (delivered : deliver room r.script = (result, rest)) :
    r.read room = (result, ⟨rest, r.reads + 1, room⟩) := by
  rw [read, delivered]

theorem deliver_of_read {r r' : ByteReader} (read : r.read room = (result, r')) :
    deliver room r.script = (result, r'.script) := by
  rw [ByteReader.read, Prod.mk.injEq] at read
  obtain ⟨answer, rfl⟩ := read
  exact Prod.ext answer rfl

end ByteReader

/-- An attempt at an operation either answers what the operation answers on a related source, or it fails
and can be made again: it has come to where the operation still has that answer. -/
inductive Attempt {σ τ α : Type} (R : σ → τ → Prop) (op : τ → Except ReadFailure α × τ) (t : τ) :
    Except ReadFailure α × σ → Prop
  | answered {s : σ} {t' : τ} {result : α} : op t = (.ok result, t') → R s t' →
      Attempt R op t (.ok result, s)
  | failed {s : σ} {t' : τ} {cause : ReadFailure} : op t' = op t → R s t' →
      Attempt R op t (.error cause, s)

theorem Attempt.congr {σ τ α : Type} {R : σ → τ → Prop} {op : τ → Except ReadFailure α × τ} {t t' : τ}
    {a : Except ReadFailure α × σ} (attempt : Attempt R op t' a) (same : op t' = op t) :
    Attempt R op t a := by
  cases attempt with
  | answered answer related => exact .answered (same ▸ answer) related
  | failed again related => exact .failed (again.trans same) related

theorem Attempt.map {σ τ α β : Type} {R : σ → τ → Prop} {op : τ → Except ReadFailure α × τ} {t : τ}
    {a : Except ReadFailure α × σ} (attempt : Attempt R op t a) (f : α → β) :
    Attempt R (fun t => mapAnswer f (op t)) t (mapAnswer f a) := by
  cases attempt with
  | answered answer related => exact .answered (congrArg (mapAnswer f) answer) related
  | failed again related => exact .failed (congrArg (mapAnswer f) again) related

theorem Attempt.confirms {σ τ α : Type} {R : σ → τ → Prop} {op : τ → Except ReadFailure α × τ} {t : τ}
    {a : Except ReadFailure α × σ} (attempt : Attempt R op t a) : Confirms R a (op t) := by
  cases attempt with
  | answered answer related => rw [answer]; exact .ok related _
  | failed again related => exact .error _ _

theorem Attempt.again {σ τ α : Type} {R : σ → τ → Prop} {op : τ → Except ReadFailure α × τ} {t : τ}
    {a : Except ReadFailure α × σ} (attempt : Attempt R op t a) {cause : ReadFailure} {s : σ}
    (known : a = (.error cause, s)) : ∃ t', op t' = op t ∧ R s t' := by
  subst known
  cases attempt with
  | failed again related => exact ⟨_, again, related⟩

namespace SourceWindow

variable {w w' v : SourceWindow} {cause : ReadFailure} {text : List Char}

def withReader (w : SourceWindow) (reader : ByteReader) : SourceWindow := { w with reader }

theorem grow_withReader (w : SourceWindow) (reader : ByteReader) :
    (w.withReader reader).grow = w.grow.withReader reader := by
  fun_induction grow w with
  | case1 w room => exact (grow.eq_1 _).trans (if_pos room)
  | case2 w full ih => exact (grow.eq_1 _).trans ((if_neg full).trans ih)

theorem makeRoom_withReader (w : SourceWindow) (reader : ByteReader) :
    (w.withReader reader).makeRoom = w.makeRoom.withReader reader := by
  unfold makeRoom withReader
  split
  · rfl
  · split
    · exact grow_withReader w reader
    · exact grow_withReader w.reclaim reader

theorem makeRoom_makeRoom (w : SourceWindow) : w.makeRoom.makeRoom = w.makeRoom :=
  if_pos (makeRoom_room w)

theorem foldl_appendItem_withReader (items : List Utf8.Item) (w : SourceWindow) (reader : ByteReader) :
    items.foldl appendItem (w.withReader reader) = (items.foldl appendItem w).withReader reader := by
  induction items generalizing w with
  | nil => rfl
  | cons item items ih => exact ih (w.appendItem item)

theorem accept_withReader (w : SourceWindow) (reader : ByteReader) (result : ReadResult) :
    (w.withReader reader).accept result = ((w.accept result).1, (w.accept result).2.withReader reader) := by
  match result with
  | .interrupted => rfl
  | .failed _ => rfl
  | .bytes (byte :: bytes) =>
    exact congrArg (Prod.mk _) (foldl_appendItem_withReader _ { w with undecoded := _ } reader)
  | .bytes [] =>
    unfold accept withReader
    simp only
    split <;> rfl

theorem accept_ok (w : SourceWindow) {result : ReadResult} (whole : result.isFailure = false) :
    ∃ more, (w.accept result).1 = .ok more := by
  match result with
  | .interrupted => exact ⟨_, rfl⟩
  | .failed cause => cases whole
  | .bytes (byte :: bytes) => exact ⟨_, rfl⟩
  | .bytes [] =>
    unfold accept
    simp only
    split <;> exact ⟨_, rfl⟩

theorem accept_error {result : ReadResult} (failed : (w.accept result).1 = .error cause) :
    result = .failed cause := by
  cases result with
  | failed other =>
    cases failed
    rfl
  | interrupted => cases failed
  | bytes bytes =>
    obtain ⟨more, answer⟩ := w.accept_ok (rfl : (ReadResult.bytes bytes).isFailure = false)
    cases answer.symm.trans failed

/-- With how much room the next read is made. -/
def room (w : SourceWindow) : Nat := w.makeRoom.capacity - w.makeRoom.chars.size

theorem room_pos (w : SourceWindow) : 0 < w.room := Nat.sub_pos_of_lt (makeRoom_room w)

theorem room_makeRoom (w : SourceWindow) : w.makeRoom.room = w.room := by
  unfold room
  rw [makeRoom_makeRoom]

theorem room_withReader (w : SourceWindow) (reader : ByteReader) : (w.withReader reader).room = w.room := by
  unfold room
  rw [makeRoom_withReader]
  rfl

theorem fill_exhausted (exhausted : w.exhausted = true) : w.fill = (.ok false, w) := if_pos exhausted

/-- A refill makes room, takes in what one read delivers, and leaves the reader behind that read. -/
theorem fill_running (running : w.exhausted = false) {result : ReadResult} {rest : ByteReader}
    (read : w.reader.read w.room = (result, rest)) :
    w.fill = ((w.makeRoom.accept result).1, (w.makeRoom.accept result).2.withReader rest) := by
  have answer : w.makeRoom.reader.read (w.makeRoom.capacity - w.makeRoom.chars.size) = (result, rest) := by
    rw [makeRoom_reader]
    exact read
  rw [fill, if_neg (by simp [running]), readOnce, answer]
  exact accept_withReader w.makeRoom rest result

/-- The same, with another reader. -/
theorem fill_withReader (running : w.exhausted = false) {reader rest : ByteReader} {result : ReadResult}
    (read : reader.read w.room = (result, rest)) :
    (w.withReader reader).fill =
      ((w.makeRoom.accept result).1, (w.makeRoom.accept result).2.withReader rest) := by
  have running' : (w.withReader reader).exhausted = false := running
  have answer : (w.withReader reader).reader.read (w.withReader reader).room = (result, rest) := by
    rw [room_withReader]
    exact read
  rw [fill_running running' answer, makeRoom_withReader, accept_withReader]
  rfl

/-- A refill fails where its read fails, and then it has only made room. -/
theorem fill_error (failed : w.fill = (.error cause, w')) :
    w.exhausted = false ∧ ∃ rest, w.reader.read w.room = (.failed cause, rest) ∧
      w' = w.makeRoom.withReader rest := by
  have running : w.exhausted = false := by
    unfold fill at failed
    split at failed
    · cases failed
    · rename_i running
      exact eq_false_of_ne_true running
  rcases read : w.reader.read w.room with ⟨result, rest⟩
  rw [fill_running running read, Prod.mk.injEq] at failed
  obtain ⟨answer, rfl⟩ := failed
  obtain rfl := accept_error answer
  exact ⟨running, rest, rfl, rfl⟩

theorem drained_of_fill_error (drained : w.chars[w.cursor]? = none) (failed : w.fill = (.error cause, w')) :
    w'.chars[w'.cursor]? = none := by
  obtain ⟨_, rest, _, rfl⟩ := fill_error failed
  exact makeRoom_drained drained

theorem take_drained (drained : w.chars[w.cursor]? = none) :
    w.take = match w.fill with
      | (.error cause, w) => (.error cause, w)
      | (.ok false, w) => (.ok none, w)
      | (.ok true, w) => w.take := by
  rw [take]
  split
  · simp_all
  · split <;> simp_all

theorem take_held {c : Char} (found : w.chars[w.cursor]? = some c) :
    w.take = (.ok (some c), { w with cursor := w.cursor + 1 }) := by
  rw [take]
  split <;> simp_all

/-- The second window is the first one over its script without the failures. How often its reader was
asked does not matter. -/
def Mends (w v : SourceWindow) : Prop :=
  ∃ reader : ByteReader, reader.script = ByteReader.mended w.reader.script ∧ v = w.withReader reader

theorem Mends.fill (mends : Mends w v) : Attempt Mends SourceWindow.fill v w.fill := by
  obtain ⟨reader, script, rfl⟩ := mends
  by_cases exhausted : w.exhausted = true
  · rw [fill_exhausted exhausted]
    exact .answered (fill_exhausted (w := w.withReader reader) exhausted) ⟨reader, script, rfl⟩
  · have running := eq_false_of_ne_true exhausted
    rcases delivered : ByteReader.deliver w.room w.reader.script with ⟨result, rest⟩
    rw [fill_running running (ByteReader.read_of_deliver delivered)]
    rcases ByteReader.deliver_mended delivered with ⟨cause, rfl, same⟩ | ⟨whole, same⟩
    · -- The mended script may begin with empty pieces that the failed read has passed over.
      let again : ByteReader := { reader with script := ByteReader.mended rest }
      have asked : again.read w.room = reader.read w.room := by
        unfold ByteReader.read
        rw [script, same]
      rcases answer : reader.read w.room with ⟨result, later⟩
      rw [answer, ← room_makeRoom] at asked
      have filled := fill_withReader (w.makeRoom_exhausted.trans running) asked
      rw [makeRoom_makeRoom, ← fill_withReader running answer] at filled
      exact .failed filled ⟨again, rfl, rfl⟩
    · rw [← script] at same
      obtain ⟨more, answer⟩ := w.makeRoom.accept_ok whole
      have filled := fill_withReader running (ByteReader.read_of_deliver same)
      rw [answer] at filled ⊢
      exact .answered filled ⟨_, rfl, rfl⟩

theorem Mends.hand (mends : Mends w v) : Mends { w with cursor := w.cursor + 1 } { v with cursor := v.cursor + 1 } := by
  obtain ⟨reader, script, rfl⟩ := mends
  exact ⟨reader, script, rfl⟩

theorem Mends.beginLine (mends : Mends w v) : Mends w.beginLine v.beginLine := by
  obtain ⟨reader, script, rfl⟩ := mends
  exact ⟨reader, script, rfl⟩

theorem Mends.clearLog (mends : Mends w v) : Mends { w with log := [] } { v with log := [] } := by
  obtain ⟨reader, script, rfl⟩ := mends
  exact ⟨reader, script, rfl⟩

theorem Mends.next? (mends : Mends w v) : v.chars[v.cursor]? = w.chars[w.cursor]? := by
  obtain ⟨reader, script, rfl⟩ := mends
  rfl

theorem Mends.take (mends : Mends w v) : Attempt Mends SourceWindow.take v w.take := by
  fun_induction SourceWindow.take w generalizing v with
  | case1 w c found => exact .answered (take_held (mends.next?.trans found)) mends.hand
  | case2 w none_ cause w' filled =>
    obtain ⟨v', again, related⟩ := mends.fill.again filled
    refine .failed ?_ related
    rw [take_drained (mends.next?.trans none_), ← again]
    exact take_drained (related.next?.trans (drained_of_fill_error none_ filled))
  | case3 w none_ w' filled =>
    obtain ⟨v', answer, related⟩ := mends.fill.confirms.answer filled
    refine .answered ?_ related
    rw [take_drained (mends.next?.trans none_), answer]
  | case4 w none_ w' filled ih =>
    obtain ⟨v', answer, related⟩ := mends.fill.confirms.answer filled
    refine (ih related).congr ?_
    rw [take_drained (mends.next?.trans none_), answer]

theorem mends_simulation : WindowSimulation Mends where
  take mends := mends.take.confirms
  beginLine := Mends.beginLine
  clearLog := Mends.clearLog

end SourceWindow

namespace SourceBuffer
open SourceWindow

variable {skipFormat : Bool} {b b' d : SourceBuffer} {window v : SourceWindow} {cause : ReadFailure}

theorem next_failed (given : b.pushback = []) (took : b.window.take = (.error cause, window)) :
    b.next skipFormat = (.error cause, { b with window }) := by
  rw [next]
  split <;> simp_all
  split <;> simp_all

/-- With nothing given back, all that counts of a window is what is taken from it. -/
theorem next_again (given : b.pushback = []) (same : v.take = b.window.take) :
    next skipFormat { b with window := v } = b.next skipFormat := by
  rcases took : b.window.take with ⟨cause | _ | raw, window⟩
  · rw [next_failed given took, next_failed (b := { b with window := v }) given (same.trans took)]
  · rw [next_end given took, next_end (b := { b with window := v }) given (same.trans took)]
  · rw [next_raw given took, next_raw (b := { b with window := v }) given (same.trans took)]
    rfl

theorem Over.attempt_next (above : Over Mends b d) (skipFormat : Bool) :
    Attempt (Over Mends) (SourceBuffer.next skipFormat) d (b.next skipFormat) := by
  fun_induction SourceBuffer.next skipFormat b generalizing d with
  | case1 b c loc pushback given passed ih =>
    obtain ⟨v, related, rfl⟩ := above
    refine (ih ⟨v, related, rfl⟩).congr ?_
    rw [next_given (b := { b with window := v }) given, if_pos passed]
  | case2 b c loc pushback given kept =>
    obtain ⟨v, related, rfl⟩ := above
    have rest : Over Mends { b with pushback } { b with window := v, pushback } := ⟨v, related, rfl⟩
    refine .answered ?_ (rest.handOut c loc)
    rw [next_given (b := { b with window := v }) given, if_neg kept]
  | case3 b given cause window took =>
    obtain ⟨v, related, rfl⟩ := above
    obtain ⟨v', again, related'⟩ := related.take.again took
    exact .failed (next_again (b := { b with window := v }) given again) ⟨v', related', rfl⟩
  | case4 b given window took =>
    obtain ⟨v, related, rfl⟩ := above
    obtain ⟨v', answer, related'⟩ := related.take.confirms.answer took
    exact .answered (next_end (b := { b with window := v }) given answer) ⟨v', related', rfl⟩
  | case5 b given raw window took tracker advanced ih =>
    obtain ⟨v, related, rfl⟩ := above
    obtain ⟨v', answer, related'⟩ := related.take.confirms.answer took
    refine (ih (d := { b with window := v', tracker }) ⟨v', related', rfl⟩).congr ?_
    rw [next_raw (b := { b with window := v }) given answer, advanced]
  | case6 b given raw window took c loc opensLine tracker advanced passed ih =>
    obtain ⟨v, related, rfl⟩ := above
    obtain ⟨v', answer, related'⟩ := related.take.confirms.answer took
    refine (ih (.place mends_simulation related' v tracker opensLine)).congr ?_
    rw [next_raw (b := { b with window := v }) given answer, advanced]
    simp only [passed, if_true]
  | case7 b given raw window took c loc opensLine tracker advanced kept =>
    obtain ⟨v, related, rfl⟩ := above
    obtain ⟨v', answer, related'⟩ := related.take.confirms.answer took
    refine .answered ?_ ((Over.place mends_simulation related' v tracker opensLine).handOut c loc)
    rw [next_raw (b := { b with window := v }) given answer, advanced]
    simp only [kept]
    rfl

/-- A call that fails has handed out nothing. -/
theorem taken_of_next_error (failed : b.next skipFormat = (.error cause, b')) : b'.taken = b.taken := by
  fun_induction SourceBuffer.next skipFormat b with
  | case1 b c loc pushback given passed ih => exact ih failed
  | case2 b c loc pushback given kept => cases failed
  | case3 b given cause window took => cases failed; rfl
  | case4 b given window took => cases failed
  | case5 b given raw window took tracker advanced ih => exact ih failed
  | case6 b given raw window took c loc opensLine tracker advanced passed ih => exact ih failed
  | case7 b given raw window took c loc opensLine tracker advanced kept => cases failed

theorem Over.beginLexeme (above : Over Mends b d) : Over Mends b.beginLexeme d.beginLexeme := by
  obtain ⟨v, related, rfl⟩ := above
  exact ⟨v, related, rfl⟩

theorem Over.attempt_nextSignificant (above : Over Mends b d) :
    Attempt (Over Mends) nextSignificant d (nextSignificant b) := by
  fun_induction nextSignificant b generalizing d with
  | case1 b c b' taken blank ih =>
    obtain ⟨d', answer, related⟩ := (above.beginLexeme.attempt_next true).confirms.answer taken
    refine (ih related).congr ?_
    rw [nextSignificant_eq d, show CharSource.next true (CharSource.beginLexeme d) = _ from answer]
    simp only [blank, if_true]
  | case2 b c b' taken significant =>
    obtain ⟨d', answer, related⟩ := (above.beginLexeme.attempt_next true).confirms.answer taken
    refine .answered ?_ related
    rw [nextSignificant_eq d, show CharSource.next true (CharSource.beginLexeme d) = _ from answer]
    simp only [significant]
    rfl
  | case3 b none_ =>
    have attempt := above.beginLexeme.attempt_next true
    rcases taken : CharSource.next true (CharSource.beginLexeme b) with ⟨cause | _ | c, b'⟩
    · obtain ⟨d', again, related⟩ := attempt.again taken
      refine .failed ?_ related
      -- The lexeme is still empty, so asking again begins it where it was begun.
      have fresh : d'.taken = [] := by
        obtain ⟨v, _, rfl⟩ := related
        exact taken_of_next_error taken
      have begun : CharSource.beginLexeme d' = d' := by
        change { d' with taken := [] } = d'
        rw [← fresh]
      rw [nextSignificant_eq d', nextSignificant_eq d, begun, show CharSource.next true d' = _ from again]
      rfl
    · obtain ⟨d', answer, related⟩ := attempt.confirms.answer taken
      refine .answered ?_ related
      rw [nextSignificant_eq d, show CharSource.next true (CharSource.beginLexeme d) = _ from answer]
    · exact absurd taken (none_ c b')

end SourceBuffer
end EcmaLex
