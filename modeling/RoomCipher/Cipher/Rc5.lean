import RoomCipher.Bytes.Blocks
import RoomCipher.Cipher.Basic
import RoomCipher.Text.Record

/-! RC5 with two words of 16, 32 or 64 bits to a block and up to 255 rounds. Words
of every size live in 64-bit registers: each step masks its result down to the
word, so that a register never holds more than its word. Blocks and keys are
little-endian. -/

namespace RoomCipher

namespace Rc5

/-- The sizes of a word. -/
inductive WordSize where
  | w16
  | w32
  | w64
  deriving DecidableEq

namespace WordSize

def bits : WordSize → Nat
  | w16 => 16
  | w32 => 32
  | w64 => 64

def bytes (size : WordSize) : Nat := size.bits / 8

def ofBits? : Nat → Option WordSize
  | 16 => some w16
  | 32 => some w32
  | 64 => some w64
  | _ => none

/-- The largest value of a word. -/
def mask : WordSize → UInt64
  | w16 => 0xFFFF
  | w32 => 0xFFFFFFFF
  | w64 => 0xFFFFFFFFFFFFFFFF

/-- The first word of a schedule before the key is mixed in. -/
def seed : WordSize → UInt64
  | w16 => 0xb7e1
  | w32 => 0xb7e15163
  | w64 => 0xb7e151628aed2a6b

/-- The difference of successive words of a schedule before the key is mixed in. -/
def step : WordSize → UInt64
  | w16 => 0x9e37
  | w32 => 0x9e3779b9
  | w64 => 0x9e3779b97f4a7c15

def add (size : WordSize) (a b : UInt64) : UInt64 := (a + b) &&& size.mask

def sub (size : WordSize) (a b : UInt64) : UInt64 := (a - b) &&& size.mask

/-- A word turned left by `amount` bits, which counts modulo the size of the word. -/
def rotateLeft (size : WordSize) (word amount : UInt64) : UInt64 :=
  let width := UInt64.ofNat size.bits
  let amount := amount % width
  if amount = 0 then word
  else (word <<< amount ||| word >>> (width - amount)) &&& size.mask

/-- A word turned right by `amount` bits, which counts modulo the size of the word. -/
def rotateRight (size : WordSize) (word amount : UInt64) : UInt64 :=
  let width := UInt64.ofNat size.bits
  let amount := amount % width
  if amount = 0 then word
  else (word >>> amount ||| word <<< (width - amount)) &&& size.mask

end WordSize

end Rc5

/-- The cipher with its parameters and, if a key has been set, its schedule of
`2 * (rounds + 1)` words. -/
structure Rc5 where
  word : Rc5.WordSize
  rounds : Nat
  schedule : Option (List UInt64)
  deriving DecidableEq

namespace Rc5

/-- Two 64-bit words and 12 rounds. -/
def standard : Rc5 := ⟨.w64, 12, none⟩

/-- The largest number of rounds. -/
def maxRounds : Nat := 255

/-- The longest key, in bytes. -/
def maxKeyBytes : Nat := 255

def withParameters (wordBits rounds : Nat) : Except Error Rc5 :=
  match WordSize.ofBits? wordBits with
  | none => .error (.config (.wordSize wordBits))
  | some word =>
    if maxRounds < rounds then
      .error (.config (.parameter s!"RC5 supports at most {maxRounds} rounds, got {rounds}"))
    else .ok ⟨word, rounds, none⟩

/-- Bytes in a block. -/
def blockBytes (cipher : Rc5) : Nat := 2 * cipher.word.bytes

/-- The bytes of a key packed into words; the last word may be short of bytes. -/
def packKey (word : WordSize) (key : Bytes) : List UInt64 :=
  (Bytes.pieces word.bytes key).map fun piece =>
    piece.foldr (fun b packed => word.add (packed <<< 8) b.toUInt64) 0

/-- `count` words from `first` on, at the fixed distance of a word of this size. -/
def progression (word : WordSize) : (count : Nat) → (first : UInt64) → List UInt64
  | 0, _ => []
  | count + 1, first => first :: progression word count (word.add first word.step)

/-- The schedule and the key words while they are mixed, the two sums carried along, and the
places reached in either list. -/
structure Mixing where
  schedule : List UInt64
  key : List UInt64
  a : UInt64
  b : UInt64
  i : Nat
  j : Nat

/-- Mixes one word of the schedule and one of the key. -/
def Mixing.step (word : WordSize) (m : Mixing) : Mixing :=
  let a := word.rotateLeft (word.add (word.add (m.schedule.getD m.i 0) m.a) m.b) 3
  let sum := word.add a m.b
  let b := word.rotateLeft (word.add (m.key.getD m.j 0) sum) sum
  { schedule := m.schedule.set m.i a
    key := m.key.set m.j b
    a := a
    b := b
    i := (m.i + 1) % m.schedule.length
    j := (m.j + 1) % m.key.length }

/-- The schedule of a key: the longer of schedule and key is gone through three times. -/
def expandKey (word : WordSize) (rounds : Nat) (key : Bytes) : List UInt64 :=
  let words := packKey word key
  let count := 2 * (rounds + 1)
  let start : Mixing := ⟨progression word count word.seed, words, 0, 0, 0, 0⟩
  (Nat.repeat (Mixing.step word) (3 * max count words.length) start).schedule

def pairs : List UInt64 → List (UInt64 × UInt64)
  | a :: b :: rest => (a, b) :: pairs rest
  | _ => []

/-- One round on the two words of a block. -/
def round (word : WordSize) : UInt64 × UInt64 → UInt64 × UInt64 → UInt64 × UInt64
  | (a, b), (ka, kb) =>
    let a := word.add (word.rotateLeft (a ^^^ b) b) ka
    let b := word.add (word.rotateLeft (b ^^^ a) a) kb
    (a, b)

/-- Undoes a round. -/
def unround (word : WordSize) : UInt64 × UInt64 → UInt64 × UInt64 → UInt64 × UInt64
  | (ka, kb), (a, b) =>
    let b := word.rotateRight (word.sub b kb) a ^^^ a
    let a := word.rotateRight (word.sub a ka) b ^^^ b
    (a, b)

/-- Encrypts two words: the first pair of the schedule is added, every other pair is a round. -/
def encryptWords (word : WordSize) (schedule : List UInt64) (words : UInt64 × UInt64) :
    UInt64 × UInt64 :=
  match pairs schedule with
  | [] => words
  | (ka, kb) :: keys => keys.foldl (round word) (word.add words.1 ka, word.add words.2 kb)

def decryptWords (word : WordSize) (schedule : List UInt64) (words : UInt64 × UInt64) :
    UInt64 × UInt64 :=
  match pairs schedule with
  | [] => words
  | (ka, kb) :: keys =>
    let (a, b) := keys.foldr (unround word) words
    (word.sub a ka, word.sub b kb)

/-- The two words of a block. -/
def split (word : WordSize) (block : Bytes) : UInt64 × UInt64 :=
  (UInt64.ofNat (Bytes.littleEndian (block.take word.bytes)),
    UInt64.ofNat (Bytes.littleEndian (block.drop word.bytes)))

/-- The block of two words. A register that has outgrown its word does not fit the bytes. -/
def join (word : WordSize) : UInt64 × UInt64 → Except Error Bytes
  | (a, b) => do
    let front ← Bytes.writeLittleEndian word.bytes a.toNat
    let back ← Bytes.writeLittleEndian word.bytes b.toNat
    return front ++ back

/-- Runs a function on the words of a block under the schedule. A missing key is reported before
a block of the wrong length. -/
def onBlock (cipher : Rc5) (block : Bytes)
    (run : List UInt64 → UInt64 × UInt64 → UInt64 × UInt64) : Except Error Bytes :=
  match cipher.schedule with
  | none => .error (.crypto .keyNotSet)
  | some schedule =>
    if block.length = cipher.blockBytes then
      join cipher.word (run schedule (split cipher.word block))
    else .error (.crypto (.blockLength cipher.blockBytes block.length))

def encryptBlock (cipher : Rc5) (block : Bytes) : Except Error Bytes :=
  cipher.onBlock block (encryptWords cipher.word)

def decryptBlock (cipher : Rc5) (block : Bytes) : Except Error Bytes :=
  cipher.onBlock block (decryptWords cipher.word)

def setKey (cipher : Rc5) (key : Bytes) : Rc5 × Except Error Unit :=
  if key = [] then (cipher, .error (.crypto .emptyKey))
  else if maxKeyBytes < key.length then
    (cipher, .error (.crypto (.keyLength maxKeyBytes key.length)))
  else ({ cipher with schedule := some (expandKey cipher.word cipher.rounds key) }, .ok ())

/-- The cipher with its schedule on one line. -/
def summary (cipher : Rc5) : String :=
  Text.record "Rc5"
    [("word_bits", toString cipher.word.bits), ("rounds", toString cipher.rounds),
      ("schedule", Text.optional (cipher.schedule.map fun words =>
        Text.sequence (words.map fun word => toString word.toNat)))]
    false

instance : BlockCipher Rc5 where
  algorithm _ := .rc5
  blockSize := blockBytes
  isKeyed cipher := cipher.schedule.isSome
  setKey := setKey
  encryptBlock := encryptBlock
  decryptBlock := decryptBlock

end Rc5

end RoomCipher
