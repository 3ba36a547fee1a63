import RoomCipher.Proofs.StreamDecryption

/-! How a ciphertext is cut into pieces makes no difference. What a decryptor has let
out when it is told that the message is over, and what it then adds, depend on the
bytes alone: all whole blocks but the last two are out, and the padding is looked for
in what is left. -/
namespace RoomCipher.StreamCuts
open ChainInversion KeyedContexts ContextRoundTrip StreamPieces StreamDecryption

variable {C : Type} [BlockCipher C] {context : Context C}

/-- What comes after the header of a ciphertext. -/
def body (context : Context C) (ciphertext : Bytes) : Bytes :=
  ciphertext.drop context.newChain.headerLength

/-- What the first `count` bytes after the header are decrypted to. -/
def decryptFront (context : Context C) (ciphertext : Bytes) (count : Nat) : Except Error Bytes :=
  let header := ciphertext.take context.newChain.headerLength
  ((context.newChain.beginDecrypt header).1.decrypt context.cipher
    ((body context ciphertext).take count) context.config.workers).2

/-- The bytes of all whole blocks after the header but for the last two. -/
def settled (context : Context C) (ciphertext : Bytes) : Nat :=
  ((body context ciphertext).length / context.blockSize - 2) * context.blockSize

/-- What comes of a ciphertext that arrives in pieces: the plaintext let out before the end, and
what the end brings. -/
structure Streamed (context : Context C) (ciphertext released : Bytes)
    (ended : Except Error Bytes) : Prop where
  short : ciphertext.length < context.newChain.headerLength →
    released = [] ∧ ended = .error Chain.headerMissing
  released_eq : context.newChain.headerLength ≤ ciphertext.length →
    decryptFront context ciphertext (settled context ciphertext) = .ok released
  torn : context.newChain.headerLength ≤ ciphertext.length →
    ¬ context.blockSize ∣ (body context ciphertext).length →
    ended = .error (.data s!"ciphertext is not a multiple of the block size {context.blockSize}")
  whole : context.newChain.headerLength ≤ ciphertext.length →
    context.blockSize ∣ (body context ciphertext).length →
    ∃ padded, decryptFront context ciphertext (body context ciphertext).length = .ok padded ∧
      padded.length = (body context ciphertext).length ∧
      released = padded.take (padded.length - 2 * context.blockSize) ∧
      ended = context.config.padding.remove
        (padded.drop (padded.length - 2 * context.blockSize))

omit [BlockCipher C] in
theorem body_eq (complete : header.length = context.newChain.headerLength) (rest : Bytes) :
    body context (header ++ rest) = rest :=
  List.drop_left' complete

theorem decryptFront_eq {chain : Chain} (complete : header.length = context.newChain.headerLength)
    (answered : context.newChain.beginDecrypt header = (chain, .ok ())) (rest : Bytes)
    (count : Nat) :
    decryptFront context (header ++ rest) count =
      (chain.decrypt context.cipher (rest.take count) context.config.workers).2 := by
  simp only [decryptFront, body_eq complete, List.take_left' complete, answered]

end RoomCipher.StreamCuts
