import RoomCipher.Bytes.Basic
import RoomCipher.Config
import RoomCipher.Digest

/-! Key material from a shared secret. The secret is hashed twice, and key and
starting block are both cut from the front of the digest. -/

namespace RoomCipher

namespace Exchange

/-- The digest of the shortest writing of a secret. -/
def hashSecret (secret : Nat) : Bytes :=
  Sha256.digest (Bytes.minimal secret)

/-- Bytes in a session key. -/
def sessionKeyBytes : Nat := 16

/-- What a session encrypts with. -/
structure SessionKeys where
  key : Bytes
  iv : Bytes
  deriving DecidableEq

namespace SessionKeys

/-- Key and starting block of the given length. -/
def cut (secret ivBytes : Nat) : SessionKeys :=
  let digest := Sha256.digest (hashSecret secret)
  ⟨digest.take sessionKeyBytes, digest.take ivBytes⟩

/-- The keys for ciphers of the usual block size. -/
def derive (secret : Nat) : SessionKeys :=
  cut secret defaultBlockSize

/-- The keys for ciphers of a block size, which has to be found in the digest. -/
def deriveFor (secret blockSize : Nat) : Except Error SessionKeys :=
  if blockSize = 0 ∨ Sha256.digestBytes < blockSize then
    .error (.config (.parameter
      s!"cannot derive a {blockSize}-byte IV from a {Sha256.digestBytes}-byte digest"))
  else .ok (cut secret blockSize)

/-- The keys on one line, which shows nothing of them. -/
def summary (_ : SessionKeys) : String :=
  Text.record "SessionKeys" [] true

end SessionKeys

end Exchange

end RoomCipher
