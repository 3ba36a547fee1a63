import RoomCipher.Bytes.Basic
import RoomCipher.Cipher.Basic
import RoomCipher.Text.Record

/-! A cipher on two little-endian 64-bit words whose rounds are shifts and
exclusive-ors, in the manner of MAGENTA. Each round substitutes the left word,
mixes in a round key and the right word, and diffuses the right word into the new
left one. A word xored with its own shift is undone by doubling the shift. -/

namespace RoomCipher

/-- The cipher with its number of rounds and, if a key has been set, its round keys. -/
structure Magenta where
  rounds : Nat
  roundKeys : Option (List UInt64)
  deriving DecidableEq

namespace Magenta

/-- Bytes in a block. -/
def blockBytes : Nat := 16

def withRounds (rounds : Nat) : Magenta := ⟨rounds, none⟩

/-- The number of rounds unless told otherwise. -/
def standardRounds : Nat := 12

def standard : Magenta := withRounds standardRounds

def substitute (x : UInt64) : UInt64 :=
  let t := x ^^^ x <<< 3
  t ^^^ t >>> 2

def diffuse (x : UInt64) : UInt64 :=
  x ^^^ x >>> 1

/-- The factors that take a shift past the end of a word, whatever shift it starts from. -/
def doublings : List Nat := [1, 2, 4, 8, 16, 32]

/-- The word `x` with `y = x ^^^ x <<< amount`. -/
def undoShiftLeft (y : UInt64) (amount : Nat) : UInt64 :=
  doublings.foldl
    (fun x factor =>
      if amount * factor < 64 then x ^^^ x <<< UInt64.ofNat (amount * factor) else x) y

/-- The word `x` with `y = x ^^^ x >>> amount`. -/
def undoShiftRight (y : UInt64) (amount : Nat) : UInt64 :=
  doublings.foldl
    (fun x factor =>
      if amount * factor < 64 then x ^^^ x >>> UInt64.ofNat (amount * factor) else x) y

def unsubstitute (y : UInt64) : UInt64 :=
  undoShiftLeft (undoShiftRight y 2) 3

def undiffuse (y : UInt64) : UInt64 :=
  undoShiftRight y 1

/-- One round on the left and the right word. -/
def round : UInt64 × UInt64 → UInt64 → UInt64 × UInt64
  | (a, b), key =>
    let a := substitute a ^^^ key ^^^ b
    (a, diffuse b ^^^ a)

/-- Undoes a round. -/
def unround : UInt64 → UInt64 × UInt64 → UInt64 × UInt64
  | key, (a, b) =>
    let b := undiffuse (b ^^^ a)
    (unsubstitute (a ^^^ key ^^^ b), b)

/-- How many round keys there are: two for each round and for one more, counted by a machine word
that goes back to zero after the largest. -/
def keyCount (rounds : Nat) : Nat := 2 * (rounds + 1) % UInt64.size

/-- The round keys of a key that is not empty: its bytes over and over, each below its number. -/
def expandKey (rounds : Nat) (key : Bytes) : List UInt64 :=
  (List.range (keyCount rounds)).map fun i =>
    UInt64.ofNat i <<< 32 ||| (key.getD (i % key.length) 0).toUInt64

/-- One round key for each round: those of the schedule in order, and again from the front. -/
def runKeys (rounds : Nat) (schedule : List UInt64) : List UInt64 :=
  (List.range rounds).map fun i => schedule.getD (i % schedule.length) 0

/-- The two words of a block. -/
def split (block : Bytes) : UInt64 × UInt64 :=
  (UInt64.ofNat (Bytes.littleEndian (block.take 8)),
    UInt64.ofNat (Bytes.littleEndian (block.drop 8)))

def join : UInt64 × UInt64 → Bytes
  | (a, b) => Bytes.ofLittleEndian 8 a.toNat ++ Bytes.ofLittleEndian 8 b.toNat

/-- Runs a function on the words of a block under one key a round. A missing key is reported
before a block of the wrong length, and only then is a round key looked for. -/
def onBlock (cipher : Magenta) (block : Bytes)
    (run : List UInt64 → UInt64 × UInt64 → UInt64 × UInt64) : Except Error Bytes :=
  match cipher.roundKeys with
  | none => .error (.crypto .keyNotSet)
  | some schedule =>
    if block.length = blockBytes then
      if schedule = [] ∧ cipher.rounds ≠ 0 then .error (.aborted .emptySchedule)
      else .ok (join (run (runKeys cipher.rounds schedule) (split block)))
    else .error (.crypto (.blockLength blockBytes block.length))

def encryptBlock (cipher : Magenta) (block : Bytes) : Except Error Bytes :=
  cipher.onBlock block fun keys words => keys.foldl round words

def decryptBlock (cipher : Magenta) (block : Bytes) : Except Error Bytes :=
  cipher.onBlock block fun keys words => keys.foldr unround words

/-- Bytes that the round keys of so many rounds take up. -/
def scheduleBytes (rounds : Nat) : Nat := 8 * keyCount rounds

def setKey (cipher : Magenta) (key : Bytes) : Magenta × Except Error Unit :=
  if key = [] then (cipher, .error (.crypto .emptyKey))
  else
    match Bytes.checkRoom (scheduleBytes cipher.rounds) with
    | .error e => (cipher, .error e)
    | .ok () => ({ cipher with roundKeys := some (expandKey cipher.rounds key) }, .ok ())

/-- The cipher with its round keys on one line. -/
def summary (cipher : Magenta) : String :=
  Text.record "Magenta"
    [("rounds", toString cipher.rounds),
      ("round_keys", Text.optional (cipher.roundKeys.map fun keys =>
        Text.sequence (keys.map fun key => toString key.toNat)))]
    false

instance : BlockCipher Magenta where
  algorithm _ := .magenta
  blockSize _ := blockBytes
  isKeyed cipher := cipher.roundKeys.isSome
  setKey := setKey
  encryptBlock := encryptBlock
  decryptBlock := decryptBlock

end Magenta

end RoomCipher
