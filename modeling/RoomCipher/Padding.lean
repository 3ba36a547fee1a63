import RoomCipher.Entropy
import RoomCipher.Tag

/-! Filling a message up to whole blocks and taking the filling off again. There is
always at least one byte of padding, so a message that is a whole number of blocks
long gets one block more, and all schemes but zero padding end in the length of
the padding, which therefore has to fit a byte. -/

namespace RoomCipher

namespace Padding

/-- The longest padding whose length fits its last byte. -/
def maxLength : Nat := 255

/-- Bytes of padding that a message of `length` bytes gets: from 1 to the whole block size. -/
def needed (length blockSize : Nat) : Except Error Nat :=
  if blockSize = 0 then .error (.aborted .zeroBlockSize)
  else .ok (blockSize - length % blockSize)

/-- The `count` bytes of padding, of which only ISO 10126 draws any. -/
def filling (scheme : Padding) (count : Nat) (source : Entropy) : Bytes × Entropy :=
  match scheme with
  | .zeros => (List.replicate count 0, source)
  | .ansiX923 => (List.replicate (count - 1) 0 ++ [UInt8.ofNat count], source)
  | .pkcs7 => (List.replicate count (UInt8.ofNat count), source)
  | .iso10126 =>
    let (noise, source) := source.draw (count - 1)
    (noise ++ [UInt8.ofNat count], source)

/-- The message with its padding. The two together need room, which for a message of up to half the
longest buffer they have exactly if one block has (`PaddingLaws.checkRoom_padded`). Longer ones do
not occur, and the block is what is asked about. -/
def add (scheme : Padding) (blockSize : Nat) (data : Bytes) (source : Entropy) :
    Except Error (Bytes × Entropy) := do
  let count ← needed data.length blockSize
  if scheme ≠ .zeros ∧ maxLength < count then
    .error (.padding (.tooLong count))
  else
    Bytes.checkRoom blockSize
    let (tail, source) := scheme.filling count source
    return (data ++ tail, source)

/-- The data without the zeros at its end. -/
def dropZeros (data : Bytes) : Bytes :=
  (data.reverse.dropWhile (· == 0)).reverse

/-- The message of padded data. Only PKCS #7 looks at the padding before its last byte. -/
def remove (scheme : Padding) (data : Bytes) : Except Error Bytes :=
  match data.getLast? with
  | none => .error (.padding .empty)
  | some last =>
    if scheme = .zeros then .ok (dropZeros data)
    else
      let count := last.toNat
      if count = 0 ∨ data.length < count then .error (.padding (.invalidLength count))
      else
        let body := data.take (data.length - count)
        let tail := data.drop (data.length - count)
        if scheme = .pkcs7 ∧ ¬ tail.all (· == last) then .error (.padding .mismatch)
        else .ok body

end Padding

end RoomCipher
