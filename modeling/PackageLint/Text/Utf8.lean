/-!
# Bytes as text

Files hold bytes in UTF-8. Reading never has to fail: each longest run of bytes that begins a
character and does not finish it, and each byte that begins none, stands for one replacement
character. A strict reader refuses such bytes. Line endings of all kinds are read as line feeds.

## Main definitions

* `Utf8.decode`: the characters of bytes, with gaps for what is no character.
* `Utf8.read`, `Utf8.readStrictly?`: the text of bytes.
* `Utf8.write`: the bytes of a text.
-/

namespace PackageLint.Utf8

/-- A character whose first bytes have been read. -/
structure Pending where
  /-- The number of bytes that are missing. -/
  left : Nat
  /-- The bits read so far. -/
  bits : Nat
  /-- The least value of the next byte. -/
  low : Nat := 0x80
  /-- The greatest value of the next byte. -/
  high : Nat := 0xbf
  deriving Repr, Inhabited

/-- What a byte begins: a whole character, the first part of one, or nothing. -/
inductive Start where
  | whole (c : Char)
  | first (pending : Pending)
  | nothing
  deriving Repr

/-- What a byte begins. The ranges leave out overlong forms, surrogates and what lies beyond the
last code point. -/
def Start.ofByte (b : Nat) : Start :=
  if b < 0x80 then .whole (Char.ofNat b)
  else if b < 0xc2 then .nothing
  else if b < 0xe0 then .first { left := 1, bits := b - 0xc0 }
  else if b = 0xe0 then .first { left := 2, bits := 0, low := 0xa0 }
  else if b = 0xed then .first { left := 2, bits := 0xd, high := 0x9f }
  else if b < 0xf0 then .first { left := 2, bits := b - 0xe0 }
  else if b = 0xf0 then .first { left := 3, bits := 0, low := 0x90 }
  else if b < 0xf4 then .first { left := 3, bits := b - 0xf0 }
  else if b = 0xf4 then .first { left := 3, bits := 4, high := 0x8f }
  else .nothing

/-- What a byte adds to a pending character: nothing when the byte does not continue it. -/
def Pending.next? (p : Pending) (b : Nat) : Option Start :=
  if p.low ≤ b && b ≤ p.high then
    let bits := p.bits * 0x40 + (b - 0x80)
    if p.left ≤ 1 then some (.whole (Char.ofNat bits))
    else some (.first { left := p.left - 1, bits })
  else none

/-- The characters of bytes after a pending character. -/
def decodeFrom : Option Pending → List UInt8 → List (Option Char)
  | none, [] => []
  | some _, [] => [none]
  | pending, b :: rest =>
    let (gap, start) : List (Option Char) × Start :=
      match pending with
      | none => ([], Start.ofByte b.toNat)
      | some p =>
        match p.next? b.toNat with
        | some start => ([], start)
        | none => ([none], Start.ofByte b.toNat)
    match start with
    | .whole c => gap ++ some c :: decodeFrom none rest
    | .first p => gap ++ decodeFrom (some p) rest
    | .nothing => gap ++ none :: decodeFrom none rest

/-- The characters of bytes; what is no character is none. -/
def decode (bytes : List UInt8) : List (Option Char) := decodeFrom none bytes

/-- The replacement character. -/
def replacement : Char := '\uFFFD'

/-- A text in which every line ends with a line feed alone. -/
def unifyLineEnds : List Char → List Char
  | [] => []
  | '\r' :: '\n' :: rest => '\n' :: unifyLineEnds rest
  | c :: rest => (if c = '\r' then '\n' else c) :: unifyLineEnds rest

/-- The text of bytes, with replacement characters for what is none. -/
def read (bytes : List UInt8) : String :=
  String.ofList (unifyLineEnds ((decode bytes).map fun c => c.getD replacement))

/-- The characters of a list without gaps. -/
def all? : List (Option Char) → Option (List Char)
  | [] => some []
  | none :: _ => none
  | some c :: rest => (all? rest).map (c :: ·)

/-- The text of bytes, when all of them make characters. -/
def readStrictly? (bytes : List UInt8) : Option String :=
  (all? (decode bytes)).map fun cs => String.ofList (unifyLineEnds cs)

/-- The bytes of a text. -/
def write (s : String) : List UInt8 := s.toUTF8.toList

end PackageLint.Utf8
