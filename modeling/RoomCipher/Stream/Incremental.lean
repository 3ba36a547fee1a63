import RoomCipher.Context

/-! Messages that arrive in pieces. An encryptor passes on every whole block it has;
a decryptor holds the last two blocks back until it is told that the message is
over, because only then is it known which of their bytes are padding. Blocks that
have been handed to the chain are not pending any more, whether the chain succeeds
or fails on them. -/

namespace RoomCipher

/-- A message on its way through encryption. -/
structure Encryptor (C : Type) where
  context : Context C
  chain : Chain
  /-- What has arrived and does not fill a block yet. -/
  pending : Bytes
  /-- What goes before the ciphertext and has not been passed on yet. -/
  header : Bytes

/-- A message on its way through decryption. -/
structure Decryptor (C : Type) where
  context : Context C
  chain : Chain
  /-- What has arrived and has not been decrypted yet. -/
  pending : Bytes
  /-- Whether the bytes before the ciphertext have been read. -/
  headerRead : Bool

variable {C : Type} [BlockCipher C]

namespace Encryptor

def start (context : Context C) (source : Entropy) : Except Error (Encryptor C × Entropy) := do
  let (chain, header, source) ← context.newChain.beginEncrypt source
  return ({ context, chain, pending := [], header }, source)

/-- Takes a piece of the message and returns the ciphertext that is ready. -/
def update (state : Encryptor C) (piece : Bytes) : Encryptor C × Except Error Bytes :=
  let pending := state.pending ++ piece
  let ready := pending.length / state.context.blockSize * state.context.blockSize
  let (chain, result) :=
    state.chain.encrypt state.context.cipher (pending.take ready) state.context.config.workers
  ({ state with chain := chain, pending := pending.drop ready, header := [] },
    result.map (state.header ++ ·))

/-- Ends the message: the rest of it, padded. -/
def finalize (state : Encryptor C) (source : Entropy) : Except Error (Bytes × Entropy) := do
  let (padded, source) ←
    state.context.config.padding.add state.context.blockSize state.pending source
  let tail ←
    (state.chain.encrypt state.context.cipher padded state.context.config.workers).2
  return (state.header ++ tail, source)

end Encryptor

namespace Decryptor

def start (context : Context C) : Decryptor C :=
  let chain := context.newChain
  { context, chain, pending := [], headerRead := chain.headerLength == 0 }

/-- Reads the header once enough has arrived. It is cut to the length the chain asks for, so the
chain takes it. -/
def readHeader (state : Decryptor C) : Decryptor C :=
  let length := state.chain.headerLength
  if ¬ state.headerRead ∧ length ≤ state.pending.length then
    { state with
        chain := (state.chain.beginDecrypt (state.pending.take length)).1
        pending := state.pending.drop length
        headerRead := true }
  else state

/-- Takes a piece of the ciphertext and returns the plaintext that is certainly none of the
padding. -/
def update (state : Decryptor C) (piece : Bytes) : Decryptor C × Except Error Bytes :=
  let state := { state with pending := state.pending ++ piece }.readHeader
  if state.headerRead then
    let size := state.context.blockSize
    let ready := (state.pending.length - 2 * size) / size * size
    let (chain, result) := state.chain.decrypt state.context.cipher (state.pending.take ready)
      state.context.config.workers
    ({ state with chain := chain, pending := state.pending.drop ready }, result)
  else (state, .ok [])

/-- Ends the message: the blocks held back, without their padding. -/
def finalize (state : Decryptor C) : Except Error Bytes :=
  let state := state.readHeader
  let size := state.context.blockSize
  if ¬ state.headerRead then .error Chain.headerMissing
  else if state.pending.length % size ≠ 0 then
    .error (.data s!"ciphertext is not a multiple of the block size {size}")
  else do
    let tail ← (state.chain.decrypt state.context.cipher state.pending
      state.context.config.workers).2
    state.context.config.padding.remove tail

end Decryptor

end RoomCipher
