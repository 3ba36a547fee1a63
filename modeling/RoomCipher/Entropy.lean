import RoomCipher.Bytes.Basic

/-! Random bytes as a value. A source is an endless run of bytes together with
the place reached in it, so everything drawn from it is a function of the source
and a statement about all sources is one about all outcomes of the draws. -/

namespace RoomCipher

/-- A source of random bytes. -/
structure Entropy where
  byte : Nat → UInt8
  /-- How many bytes have been drawn. -/
  position : Nat
  /-- How many unusable candidates in a row a search puts up with before it fails. -/
  patience : Nat

namespace Entropy

/-- The next `count` bytes, and the source after them. -/
def draw (source : Entropy) (count : Nat) : Bytes × Entropy :=
  ((List.range count).map fun i => source.byte (source.position + i),
    { source with position := source.position + count })

/-- Repeats a trial until it yields something, at most `attempts` times. -/
def searchWithin {α : Type} (trial : Entropy → Except Error (Option α × Entropy)) :
    (attempts : Nat) → Entropy → Except Error (α × Entropy)
  | 0, _ => .error (.entropy "no usable candidate")
  | attempts + 1, source => do
    match ← trial source with
    | (some value, source) => return (value, source)
    | (none, source) => searchWithin trial attempts source

/-- The first thing that a trial, repeated as long as the source has patience, yields. -/
def search {α : Type} (trial : Entropy → Except Error (Option α × Entropy)) (source : Entropy) :
    Except Error (α × Entropy) :=
  searchWithin trial source.patience source

end Entropy

end RoomCipher
