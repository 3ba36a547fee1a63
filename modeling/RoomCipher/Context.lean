import RoomCipher.Chain
import RoomCipher.Cipher.Builtin
import RoomCipher.Config
import RoomCipher.Padding

/-! A keyed cipher together with a mode and a padding: what encrypts and decrypts
whole messages. A context keeps nothing between messages; each one starts a chain
of its own, so equal messages give equal ciphertexts wherever nothing is drawn. -/

namespace RoomCipher

/-- A cipher under a key, with the settings it is used with. -/
structure Context (C : Type) where
  cipher : C
  key : Bytes
  /-- The block that every message starts from; empty in modes without one. -/
  iv : Bytes
  config : Config

namespace Context

/-- The key lengths that any context takes, besides one as long as a block. -/
def keySizes : List Nat := [16, 24, 32]

/-- Puts an unkeyed cipher to use. The settings are checked on their own first, then the key, the
block size and the starting block, and last of all the cipher sees the key. -/
def withCipher {C : Type} [BlockCipher C] (cipher : C) (key iv : Bytes) (config : Config) :
    Except Error (Context C) := do
  config.validate
  if key.length ∉ keySizes ∧ key.length ≠ config.blockSize then
    .error (.config (.keySize key.length))
  else if BlockCipher.blockSize cipher ≠ config.blockSize then
    .error (.config (.blockSizeMismatch (BlockCipher.blockSize cipher) config.blockSize))
  else if config.mode.requiresIv ∧ iv.length ≠ config.blockSize then
    .error (.config (.ivSize config.blockSize iv.length))
  else
    let (cipher, taken) := BlockCipher.setKey cipher key
    taken
    return { cipher, key, iv := if config.mode.requiresIv then iv else [], config }

/-- A context over the built-in cipher that the settings name. -/
def ofConfig (key iv : Bytes) (config : Config) : Except Error (Context Builtin) :=
  withCipher (Builtin.ofAlgorithm config.algorithm) key iv config

/-- A context over a built-in cipher from the texts of its tags. -/
def ofTags (cores : Nat) (key : Bytes) (algorithm mode padding : String) (iv : Bytes)
    (blockSize : Nat) : Except Error (Context Builtin) := do
  let config ← Config.ofTags cores algorithm mode padding
  ofConfig key iv { config with blockSize := blockSize }

variable {C : Type}

def blockSize (context : Context C) : Nat := context.config.blockSize

/-- The chain that a message starts with. -/
def newChain (context : Context C) : Chain :=
  Chain.start context.config.mode context.iv context.blockSize

variable [BlockCipher C]

/-- Pads and encrypts a whole message. -/
def encrypt (context : Context C) (plaintext : Bytes) (source : Entropy) :
    Except Error (Bytes × Entropy) :=
  if plaintext = [] then .error (.data "plaintext is empty")
  else do
    let (padded, source) ← context.config.padding.add context.blockSize plaintext source
    let (chain, header, source) ← context.newChain.beginEncrypt source
    let body ← (chain.encrypt context.cipher padded context.config.workers).2
    return (header ++ body, source)

/-- Decrypts a whole message and leaves its padding on. -/
def decryptPadded (context : Context C) (ciphertext : Bytes) : Except Error Bytes :=
  if ciphertext = [] then .error (.data "ciphertext is empty")
  else
    let chain := context.newChain
    let header := ciphertext.take chain.headerLength
    let body := ciphertext.drop chain.headerLength
    if ciphertext.length < chain.headerLength then .error Chain.headerMissing
    else if body.length % context.blockSize ≠ 0 then
      .error (.data
        s!"ciphertext length {body.length} is not a multiple of the block size {context.blockSize}")
    else do
      let (chain, prepared) := chain.beginDecrypt header
      prepared
      (chain.decrypt context.cipher body context.config.workers).2

/-- Decrypts a whole message and takes its padding off. -/
def decrypt (context : Context C) (ciphertext : Bytes) : Except Error Bytes := do
  context.config.padding.remove (← context.decryptPadded ciphertext)

/-- Encryption as a task of its own. -/
def encryptTask (context : Context C) (plaintext : Bytes) (source : Entropy) :
    Task (Except Error (Bytes × Entropy)) :=
  Task.spawn fun _ => context.encrypt plaintext source

/-- Decryption as a task of its own. -/
def decryptTask (context : Context C) (ciphertext : Bytes) : Task (Except Error Bytes) :=
  Task.spawn fun _ => context.decrypt ciphertext

/-- The context on one line, without its key. -/
def summary (context : Context C) : String :=
  Text.record "CipherContext"
    [("algorithm", (BlockCipher.algorithm context.cipher).label),
      ("config", context.config.summary)]
    true

end Context

end RoomCipher
