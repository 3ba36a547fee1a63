import RoomCipher.Bytes.Basic
import RoomCipher.Text.Blank
import RoomCipher.Text.Quoted

/-! Bytes and numbers as hexadecimal text. Writing is lower-case with two digits
a byte; reading takes either case, and names the first character that is no
digit by its byte offset in the UTF-8 text. -/

namespace RoomCipher

namespace Hex

def digit (n : Nat) : Char :=
  "0123456789abcdef".toList.getD n '0'

def digitValue? (c : Char) : Option Nat :=
  if '0' ≤ c ∧ c ≤ '9' then some (c.toNat - '0'.toNat)
  else if 'a' ≤ c ∧ c ≤ 'f' then some (c.toNat - 'a'.toNat + 10)
  else if 'A' ≤ c ∧ c ≤ 'F' then some (c.toNat - 'A'.toNat + 10)
  else none

def encodeChars : Bytes → List Char
  | [] => []
  | b :: bs => digit (b.toNat / 16) :: digit (b.toNat % 16) :: encodeChars bs

def encode (bytes : Bytes) : String :=
  String.ofList (encodeChars bytes)

/-- The first byte of a character's UTF-8 form. -/
def leadByte (c : Char) : Nat :=
  if c.toNat < 0x80 then c.toNat
  else if c.toNat < 0x800 then 0xC0 + c.toNat / 0x40
  else if c.toNat < 0x10000 then 0xE0 + c.toNat / 0x1000
  else 0xF0 + c.toNat / 0x40000

/-- Why a text is no hex text. -/
inductive Fault where
  | oddLength
  /-- The byte `byte` at `offset` is no hex digit. -/
  | badDigit (byte offset : Nat)
  deriving DecidableEq

def Fault.message : Fault → String
  | .oddLength => "Odd number of digits"
  | .badDigit byte offset =>
    s!"Invalid character {Text.quotedChar (Char.ofNat byte)} at position {offset}"

/-- Reads one digit, which stands at `offset`. -/
def digitAt (c : Char) (offset : Nat) : Except Fault Nat :=
  match digitValue? c with
  | some n => .ok n
  | none => .error (.badDigit (leadByte c) offset)

/-- Reads pairs of digits from `offset` on; all characters before it were digits. -/
def decodePairs (offset : Nat) : List Char → Except Fault Bytes
  | [] => .ok []
  | [c] => do
    let _ ← digitAt c offset
    .error .oddLength
  | c :: d :: rest => do
    let high ← digitAt c offset
    let low ← digitAt d (offset + 1)
    let bytes ← decodePairs (offset + 2) rest
    return UInt8.ofNat (high * 16 + low) :: bytes

/-- An odd number of bytes is refused before any digit is looked at. -/
def decode (text : List Char) : Except Fault Bytes :=
  if text.foldl (fun bytes c => bytes + c.utf8Size) 0 % 2 = 1 then .error .oddLength else decodePairs 0 text

/-- A number as hex text: its shortest bytes, so nothing at all for zero. -/
def ofNat (n : Nat) : String :=
  encode (Bytes.minimal n)

/-- The number that a hex text denotes, blanks around it aside. -/
def toNat (text : String) : Except Error Nat :=
  match Text.trim text.toList with
  | [] => .error (.exchange (.encoding "empty string"))
  | digits =>
    match decode digits with
    | .ok bytes => .ok (Bytes.value bytes)
    | .error fault => .error (.exchange (.encoding fault.message))

end Hex

end RoomCipher
