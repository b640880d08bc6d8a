import EcmaLex.Text.Utf8

/-!
The byte input of a scan: a finite script of deliveries, consumed one read at a time. A reader also
remembers how often and with how much room it was asked.
-/
namespace EcmaLex

structure ReadFailure where
  kind : String
  message : String
  deriving DecidableEq, Repr

/-- One step of a script. Only `piece` may serve several reads. -/
inductive Delivery where
  | piece (bytes : List UInt8)
  | eof
  | interrupted
  | failure (cause : ReadFailure)
  deriving DecidableEq, Repr

/-- What one read answers. An interrupted read delivers nothing and may be repeated. -/
inductive ReadResult where
  | bytes (bytes : List UInt8)
  | interrupted
  | failed (cause : ReadFailure)
  deriving DecidableEq, Repr

def ReadResult.byteCount : ReadResult → Nat
  | .bytes delivered => delivered.length
  | _ => 0

structure ByteReader where
  script : List Delivery
  reads : Nat := 0
  lastRoom : Nat := 0
  deriving DecidableEq, Repr

namespace Delivery

def byteCount : Delivery → Nat
  | .piece bytes => bytes.length
  | _ => 0

end Delivery

namespace ByteReader

/-- The answer of a script to a read with this much room. Pieces are never joined, an empty piece is
passed over, and past its end a script delivers no bytes. -/
def deliver (room : Nat) : List Delivery → ReadResult × List Delivery
  | [] => (.bytes [], [])
  | .piece [] :: rest => deliver room rest
  | .piece (b :: bytes) :: rest =>
    let left := (b :: bytes).drop room
    (.bytes ((b :: bytes).take room), if left.isEmpty then rest else .piece left :: rest)
  | .eof :: rest => (.bytes [], rest)
  | .interrupted :: rest => (.interrupted, rest)
  | .failure cause :: rest => (.failed cause, rest)

def read (room : Nat) (r : ByteReader) : ReadResult × ByteReader :=
  let (result, script) := deliver room r.script
  (result, { script, reads := r.reads + 1, lastRoom := room })

def scriptBytes : List Delivery → Nat
  | [] => 0
  | d :: script => d.byteCount + scriptBytes script

/-- The bytes of all pieces that are still to come. -/
def left (r : ByteReader) : Nat := scriptBytes r.script

/-- What bounds the number of reads before the script is used up. -/
def pending (r : ByteReader) : Nat := r.left + r.script.length

def ofPieces (pieces : List (List UInt8)) : ByteReader := { script := pieces.map .piece }

/-- Cuts bytes into pieces of `size`; the last may be shorter. -/
def cut (size : Nat) (bytes : List UInt8) : List (List UInt8) :=
  if _ : 0 < size ∧ bytes.drop size ≠ [] then
    bytes.take size :: cut size (bytes.drop size)
  else if bytes.isEmpty then [] else [bytes]
termination_by bytes.length
decreasing_by
  have : size < bytes.length := by simp_all
  simp only [List.length_drop]
  omega

def ofText (text : String) : ByteReader := ofPieces [Text.Utf8.encode text.toList]

@[simp] theorem scriptBytes_nil : scriptBytes [] = 0 := rfl

@[simp] theorem scriptBytes_cons (d : Delivery) (script : List Delivery) :
    scriptBytes (d :: script) = d.byteCount + scriptBytes script := rfl

theorem deliver_scriptBytes {room : Nat} {script rest : List Delivery} {result : ReadResult}
    (delivered : deliver room script = (result, rest)) :
    result.byteCount + scriptBytes rest ≤ scriptBytes script := by
  fun_induction deliver room script with
  | case1 => cases delivered; simp [ReadResult.byteCount]
  | case2 rest' ih =>
    have := ih delivered
    simp only [scriptBytes_cons]
    omega
  | case3 b tail rest' left =>
    have whole : (List.take room (b :: tail)).length + left.length = (b :: tail).length := by
      rw [← List.length_append, List.take_append_drop]
    cases delivered
    simp only [scriptBytes_cons, Delivery.byteCount, ReadResult.byteCount]
    split
    · omega
    · simp only [scriptBytes_cons, Delivery.byteCount]
      omega
  | case4 => cases delivered; simp [ReadResult.byteCount, Delivery.byteCount]
  | case5 => cases delivered; simp [ReadResult.byteCount, Delivery.byteCount]
  | case6 => cases delivered; simp [ReadResult.byteCount, Delivery.byteCount]

theorem deliver_pending {room : Nat} {script rest : List Delivery} {result : ReadResult}
    (roomy : 0 < room) (delivered : deliver room script = (result, rest))
    (some_ : result ≠ .bytes []) :
    scriptBytes rest + rest.length < scriptBytes script + script.length := by
  fun_induction deliver room script with
  | case1 => cases delivered; exact absurd rfl some_
  | case2 rest' ih =>
    have := ih delivered
    simp only [scriptBytes_cons, List.length_cons]
    omega
  | case3 b tail rest' left =>
    have shorter : left.length < (b :: tail).length := by
      simp only [left, List.length_drop, List.length_cons]
      omega
    cases delivered
    simp only [scriptBytes_cons, Delivery.byteCount]
    split <;> simp only [scriptBytes_cons, Delivery.byteCount, List.length_cons] <;>
      simp only [List.length_cons] at shorter <;> omega
  | case4 => cases delivered; exact absurd rfl some_
  | case5 => cases delivered; simp [Delivery.byteCount]
  | case6 => cases delivered; simp [Delivery.byteCount]

theorem read_left (room : Nat) (r : ByteReader) :
    (r.read room).1.byteCount + (r.read room).2.left ≤ r.left :=
  deliver_scriptBytes rfl

theorem read_pending {room : Nat} (roomy : 0 < room) (r : ByteReader)
    (some_ : (r.read room).1 ≠ .bytes []) : (r.read room).2.pending < r.pending :=
  deliver_pending roomy rfl some_

end ByteReader
end EcmaLex
