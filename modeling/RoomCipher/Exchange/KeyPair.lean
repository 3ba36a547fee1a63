import RoomCipher.Bytes.Hex
import RoomCipher.Exchange.Prime
import RoomCipher.Text.Record

/-! Diffie-Hellman key agreement. Both sides raise a common generator to a secret
exponent modulo a common prime, exchange the results and raise what they get to
their own secret. Public keys that would confine the common secret to a few known
values are refused. -/

namespace RoomCipher

namespace Exchange

/-- Powers of any modulus up to one are all alike, so such a modulus is refused. -/
def checkModulus (prime : Nat) : Except Error Unit :=
  if prime ≤ 1 then .error (.exchange .modulus) else .ok ()

def publicKey (generator privateKey prime : Nat) : Except Error Nat := do
  checkModulus prime
  return powMod generator privateKey prime

def sharedKey (privateKey otherPublic prime : Nat) : Except Error Nat := do
  checkModulus prime
  return powMod otherPublic privateKey prime

/-- A random exponent for a prime. -/
def generatePrivateKey (prime : Nat) (source : Entropy) : Except Error (Nat × Entropy) :=
  randomBelow prime source

/-- The generator of every room. -/
def defaultGenerator : Nat := 2

/-- What the members of a room agree on before they exchange keys. -/
structure Parameters where
  prime : Nat
  generator : Nat
  deriving DecidableEq

namespace Parameters

/-- Parameters with the usual generator, which has to lie below the prime. -/
def ofPrime (prime : Nat) : Except Error Parameters :=
  if prime ≤ defaultGenerator then .error (.exchange .modulus)
  else .ok ⟨prime, defaultGenerator⟩

def ofHex (prime : String) : Except Error Parameters := do
  ofPrime (← Hex.toNat prime)

def generate (bits : Nat) (source : Entropy) : Except Error (Parameters × Entropy) := do
  let (prime, source) ← generatePrime bits source
  return (← ofPrime prime, source)

def generateSafe (bits : Nat) (source : Entropy) : Except Error (Parameters × Entropy) := do
  let (prime, source) ← generateSafePrime bits source
  return (← ofPrime prime, source)

def primeHex (parameters : Parameters) : String :=
  Hex.ofNat parameters.prime

/-- Public keys strictly between one and minus one are acceptable. -/
def validatePublicKey (parameters : Parameters) (key : Nat) : Except Error Unit :=
  if parameters.prime = 0 then .error (.aborted .zeroModulus)
  else if key ≤ 1 ∨ parameters.prime - 1 ≤ key then .error (.exchange .publicKey)
  else .ok ()

end Parameters

/-- A secret exponent and the power of the generator that goes with it. -/
structure KeyPair where
  privateKey : Nat
  publicKey : Nat
  deriving DecidableEq

namespace KeyPair

def generate (parameters : Parameters) (source : Entropy) : Except Error (KeyPair × Entropy) := do
  let (privateKey, source) ← generatePrivateKey parameters.prime source
  let publicKey ← Exchange.publicKey parameters.generator privateKey parameters.prime
  return (⟨privateKey, publicKey⟩, source)

def publicKeyHex (pair : KeyPair) : String :=
  Hex.ofNat pair.publicKey

/-- The secret shared with the owner of a public key. -/
def sharedSecret (pair : KeyPair) (otherPublic : Nat) (parameters : Parameters) :
    Except Error Nat := do
  parameters.validatePublicKey otherPublic
  sharedKey pair.privateKey otherPublic parameters.prime

/-- The pair on one line, without its secret. -/
def summary (pair : KeyPair) : String :=
  Text.record "DhKeyPair" [("public_key", toString pair.publicKey)] true

end KeyPair

end Exchange

end RoomCipher
