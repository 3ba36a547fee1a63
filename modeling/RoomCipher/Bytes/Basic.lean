import RoomCipher.Error

/-! Byte strings and their arithmetic. A byte string is also a number, written
big-endian (`Bytes.value`) or little-endian (`Bytes.littleEndian`); `add`, `sub`
and `addCounter` work byte by byte with a carry, from the last byte up, and keep
the length. -/

namespace RoomCipher

abbrev Bytes := List UInt8

namespace Bytes

/-- The most bytes that one buffer can hold: its length is a signed 64-bit number. -/
def maxLength : Nat := (1 <<< 63) - 1

/-- Whether a buffer of `length` bytes can be had. -/
def checkRoom (length : Nat) : Except Error Unit :=
  if maxLength < length then .error (.aborted .oversize) else .ok ()

/-- Two byte strings that an operation pairs up must be equally long. -/
def checkLengths (a b : Bytes) : Except Error Unit :=
  if a.length = b.length then .ok () else .error (.crypto (.lengthMismatch a.length b.length))

def xor (a b : Bytes) : Except Error Bytes := do
  checkLengths a b
  return List.zipWith (· ^^^ ·) a b

/-- The carry out of the first byte, and the sum below it. -/
def addWithCarry : Bytes → Bytes → Nat × Bytes
  | x :: xs, y :: ys =>
    let (carry, zs) := addWithCarry xs ys
    let sum := x.toNat + y.toNat + carry
    (sum / 256, UInt8.ofNat sum :: zs)
  | _, _ => (0, [])

/-- Sum of two big-endian numbers of one length; the carry out is dropped. -/
def add (a b : Bytes) : Except Error Bytes := do
  checkLengths a b
  return (addWithCarry a b).2

/-- The borrow out of the first byte, and the difference below it. -/
def subWithBorrow : Bytes → Bytes → Nat × Bytes
  | x :: xs, y :: ys =>
    let (borrow, zs) := subWithBorrow xs ys
    (if x.toNat < y.toNat + borrow then 1 else 0,
      UInt8.ofNat (x.toNat + 256 - y.toNat - borrow) :: zs)
  | _, _ => (0, [])

/-- Difference of two big-endian numbers of one length; the borrow out is dropped. -/
def sub (a b : Bytes) : Except Error Bytes := do
  checkLengths a b
  return (subWithBorrow a b).2

/-- What is left of `amount` above the first byte, and the bytes with the rest added. -/
def addAmount : Bytes → Nat → Nat × Bytes
  | [], amount => (amount, [])
  | x :: xs, amount =>
    let (carry, zs) := addAmount xs amount
    let sum := x.toNat + carry
    (sum / 256, UInt8.ofNat sum :: zs)

/-- The big-endian counter `counter`, advanced by `index` steps and wrapping around. -/
def addCounter (counter : Bytes) (index : UInt64) : Bytes :=
  (addAmount counter index.toNat).2

/-- The big-endian number a byte string denotes. -/
def value (bytes : Bytes) : Nat :=
  bytes.foldl (fun n b => n * 256 + b.toNat) 0

/-- The little-endian number a byte string denotes. -/
def littleEndian : Bytes → Nat
  | [] => 0
  | b :: bs => b.toNat + 256 * littleEndian bs

/-- The lowest `length` bytes of a number, least significant first. -/
def ofLittleEndian : (length : Nat) → Nat → Bytes
  | 0, _ => []
  | length + 1, n => UInt8.ofNat n :: ofLittleEndian length (n / 256)

/-- A number in `length` bytes, least significant first, if they can hold it. -/
def writeLittleEndian (length n : Nat) : Except Error Bytes :=
  if n < 1 <<< (8 * length) then .ok (ofLittleEndian length n) else .error (.aborted .wideNumber)

/-- The lowest `length` bytes of a number, most significant first. -/
def ofBigEndian (length n : Nat) : Bytes :=
  (ofLittleEndian length n).reverse

/-- The shortest big-endian writing of a number: no leading zero byte, and nothing for zero. -/
def minimal : Nat → Bytes
  | 0 => []
  | n + 1 => minimal ((n + 1) / 256) ++ [UInt8.ofNat (n + 1)]

/-- A text as its UTF-8 bytes. -/
def ofString (text : String) : Bytes :=
  text.toUTF8.toList

end Bytes

end RoomCipher
