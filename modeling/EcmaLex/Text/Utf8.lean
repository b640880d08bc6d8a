/-!
UTF-8 that may arrive in pieces. `decode` turns bytes into scalar values and ill-formed sequences and
keeps back a beginning of a sequence whose end has not arrived; `lossy` reads a whole text at once.
-/
namespace EcmaLex.Text.Utf8

/-- Stands for an ill-formed sequence in decoded text. -/
def replacement : Char := '\ufffd'

def isContinuation (b : UInt8) : Bool := 0x80 ≤ b.toNat && b.toNat ≤ 0xBF

/-- The second bytes that a lead byte of a three or four byte sequence admits: the narrow cases shut
out overlong forms, surrogates and numbers past the last plane. -/
def admitsSecond (lead second : UInt8) : Bool :=
  let b := second.toNat
  match lead.toNat with
  | 0xE0 => 0xA0 ≤ b && b ≤ 0xBF
  | 0xED => 0x80 ≤ b && b ≤ 0x9F
  | 0xF0 => 0x90 ≤ b && b ≤ 0xBF
  | 0xF4 => 0x80 ≤ b && b ≤ 0x8F
  | _ => isContinuation second

inductive Head where
  | scalar (c : Char) (width : Nat)
  /-- The longest beginning, of `width` bytes, that no well-formed sequence continues. -/
  | illFormed (width : Nat)
  /-- A well-formed sequence that breaks off. -/
  | incomplete
  deriving DecidableEq, Repr

def headOfTwo (lead : UInt8) : List UInt8 → Head
  | [] => .incomplete
  | b :: _ =>
    if isContinuation b then
      .scalar (Char.ofNat ((lead.toNat - 0xC0) * 64 + (b.toNat - 0x80))) 2
    else .illFormed 1

def headOfThree (lead : UInt8) : List UInt8 → Head
  | [] => .incomplete
  | b :: rest =>
    if admitsSecond lead b then
      match rest with
      | [] => .incomplete
      | c :: _ =>
        if isContinuation c then
          .scalar (Char.ofNat
            ((lead.toNat - 0xE0) * 4096 + (b.toNat - 0x80) * 64 + (c.toNat - 0x80))) 3
        else .illFormed 2
    else .illFormed 1

def headOfFour (lead : UInt8) : List UInt8 → Head
  | [] => .incomplete
  | b :: rest =>
    if admitsSecond lead b then
      match rest with
      | [] => .incomplete
      | c :: rest =>
        if isContinuation c then
          match rest with
          | [] => .incomplete
          | d :: _ =>
            if isContinuation d then
              .scalar (Char.ofNat ((lead.toNat - 0xF0) * 262144 + (b.toNat - 0x80) * 4096 +
                (c.toNat - 0x80) * 64 + (d.toNat - 0x80))) 4
            else .illFormed 3
        else .illFormed 2
    else .illFormed 1

def head (lead : UInt8) (rest : List UInt8) : Head :=
  let b := lead.toNat
  if b < 0x80 then .scalar (Char.ofNat b) 1
  else if 0xC2 ≤ b ∧ b ≤ 0xDF then headOfTwo lead rest
  else if 0xE0 ≤ b ∧ b ≤ 0xEF then headOfThree lead rest
  else if 0xF0 ≤ b ∧ b ≤ 0xF4 then headOfFour lead rest
  else .illFormed 1

inductive Item where
  | char (c : Char)
  | illFormed (bytes : Nat)
  deriving DecidableEq, Repr

def Item.toChar : Item → Char
  | .char c => c
  | .illFormed _ => replacement

/-- The items that the bytes hold, and the incomplete sequence at their end. -/
def decode : List UInt8 → List Item × List UInt8
  | [] => ([], [])
  | b :: rest =>
    match head b rest with
    | .scalar c width =>
      let (items, held) := decode (rest.drop (width - 1))
      (.char c :: items, held)
    | .illFormed width =>
      let (items, held) := decode (rest.drop (width - 1))
      (.illFormed width :: items, held)
    | .incomplete => ([], b :: rest)
termination_by bytes => bytes.length

theorem length_decode (bytes : List UInt8) :
    (decode bytes).1.length + (decode bytes).2.length ≤ bytes.length := by
  fun_induction decode bytes with
  | case1 => simp
  | case2 b rest c width _ items held same ih =>
    simp only [same, List.length_drop] at ih
    simp only [List.length_cons]
    omega
  | case3 b rest width _ items held same ih =>
    simp only [same, List.length_drop] at ih
    simp only [List.length_cons]
    omega
  | case4 => simp

/-- The text of a complete sequence of bytes, each ill-formed part as one replacement character. -/
def lossy (bytes : List UInt8) : List Char :=
  let (items, held) := decode bytes
  items.map Item.toChar ++ if held.isEmpty then [] else [replacement]

/-- The shortest sequence of a scalar value, by its number of bits. -/
def encodeChar (c : Char) : List UInt8 :=
  let n := c.toNat
  let tail (k : Nat) : UInt8 := UInt8.ofNat (0x80 + n / k % 64)
  if n < 0x80 then [UInt8.ofNat n]
  else if n < 0x800 then [UInt8.ofNat (0xC0 + n / 64), tail 1]
  else if n < 0x10000 then [UInt8.ofNat (0xE0 + n / 4096), tail 64, tail 1]
  else [UInt8.ofNat (0xF0 + n / 262144), tail 4096, tail 64, tail 1]

def encode (text : List Char) : List UInt8 := text.flatMap encodeChar

end EcmaLex.Text.Utf8
