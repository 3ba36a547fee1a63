import RoomCipher.Bytes.Basic
import RoomCipher.Cipher.Basic
import RoomCipher.Cipher.Field

/-! A 16-round cipher on two 64-bit halves in the manner of LOKI97. A round adds
two subkeys to the right half and mixes a third, through the round function, into
the left one; the round function swaps bits under a key, looks bytes up in two
layers of S-boxes and moves the bits between the layers. Decryption runs the
inverse rounds backwards and never has to invert the round function. -/

namespace RoomCipher

/-- The cipher with its subkeys, if a key has been set. -/
structure Loki97 where
  subkeys : Option (List UInt64)
  deriving DecidableEq

namespace Loki97

/-- Bytes in a block. -/
def blockBytes : Nat := 16

/-- Bytes in a key. -/
def keyBytes : Nat := 16

def rounds : Nat := 16

def subkeyCount : Nat := 3 * rounds

/-- The constant whose multiples keep the subkeys apart. -/
def delta : UInt64 := 0x9e3779b9

/-- The cipher before a key is set. -/
def new : Loki97 := ⟨none⟩

/-- Byte number `i` of a half, the most significant one first. -/
def byte (half : UInt64) (i : Nat) : UInt8 :=
  (half >>> UInt64.ofNat (56 - 8 * i)).toUInt8

/-- The half with the given bytes, the most significant one first. -/
def ofBytes (bytes : Bytes) : UInt64 :=
  UInt64.ofNat (Bytes.value bytes)

def toBytes (half : UInt64) : Bytes :=
  Bytes.ofBigEndian 8 half.toNat

/-- Swaps the bits of the upper and the lower word of `a` where the lower word of `b` is set. -/
def keySwap (a b : UInt64) : UInt64 :=
  let differing := (a >>> 32 ^^^ a) &&& b &&& 0xFFFFFFFF
  a ^^^ differing ^^^ differing <<< 32

/-- The eight S-box inputs of the first layer, each from one byte of the half. -/
def expand (half : UInt64) : List UInt8 :=
  [byte half 0 >>> 4, byte half 7 >>> 6, byte half 5 >>> 4, byte half 4 >>> 4,
    byte half 3 >>> 3, byte half 2 >>> 2, byte half 1 >>> 2, byte half 7]

/-- The first layer of S-boxes: `s1` and `s2` in turn. -/
def firstLayer (inputs : List UInt8) : List UInt8 :=
  inputs.mapIdx fun i x => if i % 2 = 0 then Field.s1 x.toUInt16 else Field.s2 x.toUInt16

/-- Turns the square of eight by eight bits: the bits of column `i`, read from the bottom row
up, become row `i`. -/
def turn (rows : List UInt8) : List UInt8 :=
  (List.range 8).map fun i =>
    rows.reverse.foldl (fun row b => row <<< 1 ||| (b >>> UInt8.ofNat (7 - i) &&& 1)) 0

/-- The second layer of S-boxes: `s2` of the state and `s1` of the key in turn. -/
def secondLayer (state : List UInt8) (b : UInt64) : List UInt8 :=
  state.mapIdx fun i x =>
    if i % 2 = 0 then Field.s2 x.toUInt16 else Field.s1 (byte b i).toUInt16

/-- The round function. -/
def mix (a b : UInt64) : UInt64 :=
  ofBytes (secondLayer (turn (firstLayer (expand (keySwap a b)))) b)

/-- Four words from which the subkeys are drawn in turn. -/
structure KeyState where
  k1 : UInt64
  k2 : UInt64
  k3 : UInt64
  k4 : UInt64

/-- The next `count` subkeys, of which the first has number `index`. -/
def subkeysFrom : (count : Nat) → (index : UInt64) → KeyState → List UInt64
  | 0, _, _ => []
  | count + 1, index, ⟨k1, k2, k3, k4⟩ =>
    let subkey := k1 ^^^ mix (k1 + k3 + delta * index) k2
    subkey :: subkeysFrom count (index + 1) ⟨k4, k1, k2, k3⟩

/-- The subkeys of the key with halves `a` and `b`. -/
def expandKey (a b : UInt64) : List UInt64 :=
  subkeysFrom subkeyCount 0 ⟨mix a b, mix b a, b, a⟩

def triples : List UInt64 → List (UInt64 × UInt64 × UInt64)
  | a :: b :: c :: rest => (a, b, c) :: triples rest
  | _ => []

/-- The subkeys of each round: numbers 1, 2 and 3 in the first, and number 0 last of all. -/
def roundKeys (subkeys : List UInt64) : List (UInt64 × UInt64 × UInt64) :=
  triples (subkeys.rotateLeft 1)

/-- One round on the left and the right half. -/
def round : UInt64 × UInt64 → UInt64 × UInt64 × UInt64 → UInt64 × UInt64
  | (left, right), (k1, k2, k3) =>
    let keyed := right + k1
    (keyed + k3, left ^^^ mix keyed k2)

/-- Undoes a round; its halves come in, and go out, swapped. -/
def unround : UInt64 × UInt64 × UInt64 → UInt64 × UInt64 → UInt64 × UInt64
  | (k1, k2, k3), (left, right) =>
    let keyed := right - k3
    (keyed - k1, left ^^^ mix keyed k2)

/-- The two halves of a block. -/
def split (block : Bytes) : UInt64 × UInt64 :=
  (ofBytes (block.take 8), ofBytes (block.drop 8))

/-- The block of two halves, the second one first. -/
def join : UInt64 × UInt64 → Bytes
  | (left, right) => toBytes right ++ toBytes left

/-- Runs a function on the halves of a block under the subkeys. A missing key is reported before
a block of the wrong length. -/
def onBlock (cipher : Loki97) (block : Bytes)
    (run : List (UInt64 × UInt64 × UInt64) → UInt64 × UInt64 → UInt64 × UInt64) :
    Except Error Bytes :=
  match cipher.subkeys with
  | none => .error (.crypto .keyNotSet)
  | some subkeys =>
    if block.length = blockBytes then .ok (join (run (roundKeys subkeys) (split block)))
    else .error (.crypto (.blockLength blockBytes block.length))

def encryptBlock (cipher : Loki97) (block : Bytes) : Except Error Bytes :=
  cipher.onBlock block fun keys halves => keys.foldl round halves

def decryptBlock (cipher : Loki97) (block : Bytes) : Except Error Bytes :=
  cipher.onBlock block fun keys halves => keys.foldr unround halves

def setKey (cipher : Loki97) (key : Bytes) : Loki97 × Except Error Unit :=
  if key.length = keyBytes then
    let (a, b) := split key
    (⟨some (expandKey a b)⟩, .ok ())
  else (cipher, .error (.crypto (.keyLength keyBytes key.length)))

instance : BlockCipher Loki97 where
  algorithm _ := .loki97
  blockSize _ := blockBytes
  isKeyed cipher := cipher.subkeys.isSome
  setKey := setKey
  encryptBlock := encryptBlock
  decryptBlock := decryptBlock

end Loki97

end RoomCipher
