/-!
Reading text from bytes that need not be well-formed UTF-8. Each maximal part that begins like a
character but does not complete one, and each byte that begins none, is read as one replacement
character.
-/

namespace CanLink.Text

/-- A character begun and not completed. -/
structure Pending where
  /-- Bits read so far. -/
  bits : Nat
  /-- Bytes still to come, less one. -/
  more : Nat
  /-- Range of the next byte. -/
  low : Nat
  high : Nat
  deriving DecidableEq, Repr

def replacement : Char := '\uFFFD'

/-- The first byte of a character: a character of one byte, the begin of a longer one, or neither.
The range of the second byte leaves out overlong forms, surrogates and numbers past the last
character. -/
def firstByte (b : Nat) : List Char × Option Pending :=
  if b < 0x80 then ([Char.ofNat b], none)
  else if b < 0xC2 then ([replacement], none)
  else if b < 0xE0 then ([], some ⟨b % 0x20, 0, 0x80, 0xBF⟩)
  else if b < 0xF0 then
    ([], some ⟨b % 0x10, 1, if b = 0xE0 then 0xA0 else 0x80, if b = 0xED then 0x9F else 0xBF⟩)
  else if b < 0xF5 then
    ([], some ⟨b % 0x08, 2, if b = 0xF0 then 0x90 else 0x80, if b = 0xF4 then 0x8F else 0xBF⟩)
  else ([replacement], none)

/-- One byte more: the characters that are settled by it, and the character that it leaves open. -/
def nextByte (pending : Option Pending) (b : Nat) : List Char × Option Pending :=
  match pending with
  | none => firstByte b
  | some p =>
      if p.low ≤ b ∧ b ≤ p.high then
        let bits := p.bits * 0x40 + b % 0x40
        match p.more with
        | 0 => ([Char.ofNat bits], none)
        | more + 1 => ([], some ⟨bits, more, 0x80, 0xBF⟩)
      else
        let (chars, pending) := firstByte b
        (replacement :: chars, pending)

def decodeFrom : Option Pending → List UInt8 → List Char
  | none, [] => []
  | some _, [] => [replacement]
  | pending, b :: rest =>
      let (chars, pending) := nextByte pending b.toNat
      chars ++ decodeFrom pending rest

def decodeUtf8 (bytes : List UInt8) : String := String.ofList (decodeFrom none bytes)

end CanLink.Text
