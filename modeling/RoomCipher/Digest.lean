import RoomCipher.Bytes.Blocks

/-! SHA-256. The message, ended by a one bit, zeros and its length in bits, is
taken in blocks of sixteen words; each block is stretched to 64 words, and every
word turns the eight words of the state over once. -/

namespace RoomCipher

namespace Sha256

/-- Bytes in a digest. -/
def digestBytes : Nat := 32

/-- Bytes in a block. -/
def blockBytes : Nat := 64

structure State where
  a : UInt32
  b : UInt32
  c : UInt32
  d : UInt32
  e : UInt32
  f : UInt32
  g : UInt32
  h : UInt32
  deriving DecidableEq

/-- The fractional parts of the square roots of the first eight primes. -/
def initial : State :=
  ⟨0x6a09e667, 0xbb67ae85, 0x3c6ef372, 0xa54ff53a, 0x510e527f, 0x9b05688c, 0x1f83d9ab, 0x5be0cd19⟩

/-- The fractional parts of the cube roots of the first 64 primes. -/
def constants : List UInt32 :=
  [0x428a2f98, 0x71374491, 0xb5c0fbcf, 0xe9b5dba5, 0x3956c25b, 0x59f111f1, 0x923f82a4, 0xab1c5ed5,
    0xd807aa98, 0x12835b01, 0x243185be, 0x550c7dc3, 0x72be5d74, 0x80deb1fe, 0x9bdc06a7, 0xc19bf174,
    0xe49b69c1, 0xefbe4786, 0x0fc19dc6, 0x240ca1cc, 0x2de92c6f, 0x4a7484aa, 0x5cb0a9dc, 0x76f988da,
    0x983e5152, 0xa831c66d, 0xb00327c8, 0xbf597fc7, 0xc6e00bf3, 0xd5a79147, 0x06ca6351, 0x14292967,
    0x27b70a85, 0x2e1b2138, 0x4d2c6dfc, 0x53380d13, 0x650a7354, 0x766a0abb, 0x81c2c92e, 0x92722c85,
    0xa2bfe8a1, 0xa81a664b, 0xc24b8b70, 0xc76c51a3, 0xd192e819, 0xd6990624, 0xf40e3585, 0x106aa070,
    0x19a4c116, 0x1e376c08, 0x2748774c, 0x34b0bcb5, 0x391c0cb3, 0x4ed8aa4a, 0x5b9cca4f, 0x682e6ff3,
    0x748f82ee, 0x78a5636f, 0x84c87814, 0x8cc70208, 0x90befffa, 0xa4506ceb, 0xbef9a3f7, 0xc67178f2]

def rotateRight (x amount : UInt32) : UInt32 :=
  x >>> amount ||| x <<< (32 - amount)

/-- The next `count` words of a stretched block, of which the first sixteen are in `window`. -/
def stretch : (count : Nat) → (window : List UInt32) → List UInt32
  | 0, _ => []
  | _, [] => []
  | count + 1, word :: rest =>
    let w1 := rest.getD 0 0
    let w14 := rest.getD 13 0
    let s0 := rotateRight w1 7 ^^^ rotateRight w1 18 ^^^ w1 >>> 3
    let s1 := rotateRight w14 17 ^^^ rotateRight w14 19 ^^^ w14 >>> 10
    word :: stretch count (rest ++ [word + s0 + rest.getD 8 0 + s1])

/-- Turns the state over under one word and the constant of its place. -/
def turn (s : State) : UInt32 × UInt32 → State
  | (word, constant) =>
    let s1 := rotateRight s.e 6 ^^^ rotateRight s.e 11 ^^^ rotateRight s.e 25
    let choice := (s.e &&& s.f) ^^^ (~~~s.e &&& s.g)
    let t1 := s.h + s1 + choice + constant + word
    let s0 := rotateRight s.a 2 ^^^ rotateRight s.a 13 ^^^ rotateRight s.a 22
    let majority := (s.a &&& s.b) ^^^ (s.a &&& s.c) ^^^ (s.b &&& s.c)
    ⟨t1 + s0 + majority, s.a, s.b, s.c, s.d + t1, s.e, s.f, s.g⟩

def State.add (s t : State) : State :=
  ⟨s.a + t.a, s.b + t.b, s.c + t.c, s.d + t.d, s.e + t.e, s.f + t.f, s.g + t.g, s.h + t.h⟩

/-- The big-endian words of a block. -/
def words (block : Bytes) : List UInt32 :=
  (Bytes.pieces 4 block).map fun piece => UInt32.ofNat (Bytes.value piece)

/-- Takes one block into the state. -/
def absorb (s : State) (block : Bytes) : State :=
  s.add (((stretch blockBytes (words block)).zip constants).foldl turn s)

/-- The message with its ending, a whole number of blocks long. -/
def padded (message : Bytes) : Bytes :=
  let zeros := (2 * blockBytes - 9 - message.length % blockBytes) % blockBytes
  message ++ [0x80] ++ List.replicate zeros 0 ++ Bytes.ofBigEndian 8 (8 * message.length)

def State.bytes (s : State) : Bytes :=
  [s.a, s.b, s.c, s.d, s.e, s.f, s.g, s.h].flatMap fun word => Bytes.ofBigEndian 4 word.toNat

def digest (message : Bytes) : Bytes :=
  ((Bytes.pieces blockBytes (padded message)).foldl absorb initial).bytes

end Sha256

end RoomCipher
