import RoomCipher.Tag
import RoomCipher.Text.Record

/-! The settings of a cipher context. `Config.validate` refuses settings that no
context could work with whatever its cipher; what depends on the cipher and the
key is checked when a context is made. -/

namespace RoomCipher

/-- The block size, in bytes, of the built-in ciphers with their usual parameters. -/
def defaultBlockSize : Nat := 16

/-- Blocks that a stream reads at a time unless told otherwise. -/
def defaultStreamBlocks : Nat := 1024

/-- What a context is made from besides its key and starting block. -/
structure Config where
  algorithm : Algorithm
  mode : Mode
  padding : Padding
  blockSize : Nat
  /-- At most this many workers share one message. -/
  workers : Nat
  /-- Blocks in the buffer of a stream. -/
  streamBlocks : Nat
  deriving DecidableEq

namespace Config

/-- The usual settings around the three tags, on a machine of `cores` cores. -/
def withTags (cores : Nat) (algorithm : Algorithm) (mode : Mode) (padding : Padding) : Config where
  algorithm := algorithm
  mode := mode
  padding := padding
  blockSize := defaultBlockSize
  workers := cores
  streamBlocks := defaultStreamBlocks

def standard (cores : Nat) : Config :=
  withTags cores .rc5 .cbc .pkcs7

/-- Settings under which all cores share a message. -/
def parallel (cores : Nat) : Config :=
  { standard cores with mode := .ctr }

def sequential : Config :=
  standard 1

/-- Settings from the texts of the tags; of several bad texts the first is reported. -/
def ofTags (cores : Nat) (algorithm mode padding : String) : Except Error Config := do
  let algorithm ← Tag.parse algorithm
  let mode ← Tag.parse mode
  let padding ← Tag.parse padding
  return withTags cores algorithm mode padding

def withWorkers (config : Config) (workers : Nat) : Config :=
  { config with workers := workers }

def withStreamBlocks (config : Config) (blocks : Nat) : Config :=
  { config with streamBlocks := blocks }

def validate (config : Config) : Except Error Unit :=
  if config.blockSize = 0 then
    .error (.config (.parameter "block size must be non-zero"))
  else if config.workers = 0 then
    .error (.config (.parameter "worker count must be non-zero"))
  else if config.streamBlocks = 0 then
    .error (.config (.parameter "stream buffer must hold at least one block"))
  else .ok ()

/-- The settings on one line. -/
def summary (config : Config) : String :=
  Text.record "CipherConfig"
    [("algorithm", config.algorithm.label), ("mode", config.mode.label),
      ("padding", config.padding.label), ("block_size", toString config.blockSize),
      ("workers", toString config.workers),
      ("stream_buffer_blocks", toString config.streamBlocks)]
    false

end Config

end RoomCipher
