import RoomCipher.Cipher.Basic
import RoomCipher.Entropy
import RoomCipher.Workers

/-! The modes of operation. A chain carries what a mode needs from one part of a
message to the next: the feedback register of CBC, PCBC, CFB and OFB, the number of
blocks gone by, and the delta of the RandomDelta mode. Parts are whole blocks long,
and a message may be cut into parts anywhere between blocks. -/

namespace RoomCipher

/-- Which way a message goes through a cipher. -/
inductive Direction where
  | encrypt
  | decrypt
  deriving DecidableEq

/-- The state of a mode within one message. -/
structure Chain where
  mode : Mode
  blockSize : Nat
  /-- The agreed block that the message starts from. -/
  iv : Bytes
  feedback : Bytes
  /-- Blocks processed so far; a 64-bit count that wraps around. -/
  position : UInt64
  delta : Bytes
  deriving DecidableEq

/-- The modes in which each block changes a register for the next. -/
inductive Feedback where
  | cbc
  | pcbc
  | cfb
  | ofb
  deriving DecidableEq

namespace Feedback

/-- The register and the output of a step that, when it fails, leaves the register alone. -/
def keeping (register : Bytes) (result : Except Error (Bytes × Bytes)) :
    Bytes × Except Error Bytes :=
  match result with
  | .ok (next, out) => (next, .ok out)
  | .error e => (register, .error e)

/-- One block: the register after it, and what becomes of the block. OFB turns its register over
before the block is touched, the other modes after. -/
def step {C : Type} [BlockCipher C] (cipher : C) (mode : Feedback) (direction : Direction)
    (register block : Bytes) : Bytes × Except Error Bytes :=
  match mode, direction with
  | .cbc, .encrypt => keeping register do
    let out ← BlockCipher.encryptBlock cipher (← Bytes.xor block register)
    return (out, out)
  | .cbc, .decrypt => keeping register do
    let out ← Bytes.xor (← BlockCipher.decryptBlock cipher block) register
    return (block, out)
  | .pcbc, .encrypt => keeping register do
    let out ← BlockCipher.encryptBlock cipher (← Bytes.xor block register)
    return (← Bytes.xor block out, out)
  | .pcbc, .decrypt => keeping register do
    let out ← Bytes.xor (← BlockCipher.decryptBlock cipher block) register
    return (← Bytes.xor out block, out)
  | .cfb, .encrypt => keeping register do
    let out ← Bytes.xor block (← BlockCipher.encryptBlock cipher register)
    return (out, out)
  | .cfb, .decrypt => keeping register do
    let out ← Bytes.xor block (← BlockCipher.encryptBlock cipher register)
    return (block, out)
  | .ofb, _ =>
    match BlockCipher.encryptBlock cipher register with
    | .error e => (register, .error e)
    | .ok next => (next, Bytes.xor block next)

/-- The blocks one after the other; the first failure ends it, with the register as it then is. -/
def run (step : Bytes → Bytes → Bytes × Except Error Bytes) :
    (register : Bytes) → List Bytes → Bytes × Except Error Bytes
  | register, [] => (register, .ok [])
  | register, block :: rest =>
    match step register block with
    | (next, .error e) => (next, .error e)
    | (next, .ok out) =>
      let (last, result) := run step next rest
      (last, result.map (out ++ ·))

end Feedback

namespace Chain

/-- The chain at the start of a message. -/
def start (mode : Mode) (iv : Bytes) (blockSize : Nat) : Chain :=
  ⟨mode, blockSize, iv, iv, 0, []⟩

/-- Bytes that the mode puts before the ciphertext. -/
def headerLength (chain : Chain) : Nat :=
  if chain.mode = .randomDelta then chain.blockSize else 0

/-- Prepares for encryption: the chain, the bytes to put before the ciphertext, and the source. -/
def beginEncrypt (chain : Chain) (source : Entropy) : Except Error (Chain × Bytes × Entropy) :=
  if chain.mode = .randomDelta then do
    Bytes.checkRoom chain.blockSize
    let (delta, source) := source.draw chain.blockSize
    return ({ chain with delta := delta }, delta, source)
  else .ok (chain, [], source)

def headerMissing : Error := .data "data too short to contain delta"

/-- Prepares for decryption from the bytes before the ciphertext. -/
def beginDecrypt (chain : Chain) (header : Bytes) : Chain × Except Error Unit :=
  if header.length ≠ chain.headerLength then (chain, .error headerMissing)
  else if chain.mode = .randomDelta then ({ chain with delta := header }, .ok ())
  else (chain, .ok ())

def checkAligned (chain : Chain) (data : Bytes) : Except Error Unit :=
  if chain.blockSize = 0 then .error (.aborted .zeroBlockSize)
  else if data.length % chain.blockSize ≠ 0 then
    .error (.data
      s!"data length {data.length} is not a multiple of the block size {chain.blockSize}")
  else .ok ()

/-- Combines data with the delta over and over; without a delta nothing comes out. -/
def withDelta (combine : UInt8 → UInt8 → UInt8) (delta data : Bytes) : Bytes :=
  if delta = [] then []
  else data.mapIdx fun i b => combine b (delta.getD (i % delta.length) 0)

/-- Each block combined with the encrypted counter of its place in the message. -/
def counterMode {C : Type} [BlockCipher C] (chain : Chain) (cipher : C) (data : Bytes)
    (workers : Nat) : Except Error Bytes :=
  Workers.processBlocks data chain.blockSize workers fun number block => do
    let counter := Bytes.addCounter chain.iv (chain.position + UInt64.ofNat number)
    Bytes.xor block (← BlockCipher.encryptBlock cipher counter)

/-- A part of a message under the chain's mode: the feedback register after it, and the outcome. -/
def transform {C : Type} [BlockCipher C] (chain : Chain) (direction : Direction) (cipher : C)
    (data : Bytes) (workers : Nat) : Bytes × Except Error Bytes :=
  let chained (mode : Feedback) :=
    Feedback.run (mode.step cipher direction) chain.feedback
  let blocks := Bytes.pieces chain.blockSize data
  match chain.mode, direction with
  | .ecb, .encrypt => (chain.feedback,
      Workers.processBlocks data chain.blockSize workers fun _ => BlockCipher.encryptBlock cipher)
  | .ecb, .decrypt => (chain.feedback,
      Workers.processBlocks data chain.blockSize workers fun _ => BlockCipher.decryptBlock cipher)
  | .ctr, _ => (chain.feedback, chain.counterMode cipher data workers)
  | .randomDelta, .encrypt => (chain.feedback, .ok (withDelta (· + ·) chain.delta data))
  | .randomDelta, .decrypt => (chain.feedback, .ok (withDelta (· - ·) chain.delta data))
  | .cbc, _ => chained .cbc blocks
  | .pcbc, _ => chained .pcbc blocks
  | .cfb, _ => chained .cfb blocks
  | .ofb, _ => chained .ofb blocks

/-- Takes a part of a message through the cipher. A part that fails is not counted, but the blocks
before the failure have left their mark on the feedback register. -/
def advance {C : Type} [BlockCipher C] (chain : Chain) (direction : Direction) (cipher : C)
    (data : Bytes) (workers : Nat) : Chain × Except Error Bytes :=
  match chain.checkAligned data with
  | .error e => (chain, .error e)
  | .ok () =>
    match chain.transform direction cipher data workers with
    | (register, .error e) => ({ chain with feedback := register }, .error e)
    | (register, .ok out) =>
      ({ chain with
          feedback := register
          position := chain.position + UInt64.ofNat (data.length / chain.blockSize) }, .ok out)

def encrypt {C : Type} [BlockCipher C] (chain : Chain) (cipher : C) (data : Bytes)
    (workers : Nat) : Chain × Except Error Bytes :=
  chain.advance .encrypt cipher data workers

def decrypt {C : Type} [BlockCipher C] (chain : Chain) (cipher : C) (data : Bytes)
    (workers : Nat) : Chain × Except Error Bytes :=
  chain.advance .decrypt cipher data workers

end Chain

end RoomCipher
