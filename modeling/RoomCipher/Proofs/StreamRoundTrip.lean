import RoomCipher.Proofs.StreamCuts
import RoomCipher.Proofs.StreamEncryption

/-! Messages that are encrypted in pieces and decrypted in others. The pieces of the
ciphertext need not match those of the message. At any time the receiver has let out
a part of the message and nothing else, because the padding is never longer than a
block and two blocks are held back; at the end it has all of the message, save zeros
at its end that cannot be told from zero padding. -/
namespace RoomCipher.StreamRoundTrip
open ChainInversion KeyedContexts PaddingLaws ContextRoundTrip StreamPieces StreamEncryption
open StreamCuts

variable {C : Type} [BlockCipher C] {context : Context C}

/-- A ciphertext that decrypts to padded data, block for block. -/
structure Carries (context : Context C) (ciphertext padded : Bytes) : Prop where
  long : context.newChain.headerLength ≤ ciphertext.length
  length_eq : (body context ciphertext).length = padded.length
  aligned : context.blockSize ∣ padded.length
  decrypts : ∀ count, context.blockSize ∣ count → count ≤ padded.length →
    decryptFront context ciphertext count = .ok (padded.take count)

/-- The blocks at the front of a ciphertext are decrypted the same before the rest of it is there. -/
theorem decryptFront_arrived (arrived : seen <+: ciphertext)
    (long : context.newChain.headerLength ≤ seen.length)
    (within : count ≤ (body context seen).length) :
    decryptFront context seen count = decryptFront context ciphertext count := by
  obtain ⟨later, rfl⟩ := arrived
  have after : body context (seen ++ later) = body context seen ++ later :=
    List.drop_append_of_le_length long
  simp only [decryptFront, List.take_append_of_le_length long, after,
    List.take_append_of_le_length within]

omit [BlockCipher C] in
/-- The last two blocks of what there will be are never let out early. -/
theorem settled_le (context : Context C) (arrived : seen <+: ciphertext) :
    settled context seen ≤ (body context ciphertext).length - 2 * context.blockSize := by
  have shorter := arrived.length_le
  have blocks := Nat.div_mul_le_self (body context seen).length context.blockSize
  rw [settled, Nat.sub_mul]
  simp only [body, List.length_drop] at blocks ⊢
  omega

omit [BlockCipher C] in
theorem settled_within (context : Context C) (seen : Bytes) :
    settled context seen ≤ (body context seen).length :=
  Nat.le_trans (settled_le context (List.prefix_refl seen)) (Nat.sub_le _ _)

omit [BlockCipher C] in
theorem settled_blocks (context : Context C) (seen : Bytes) :
    context.blockSize ∣ settled context seen :=
  Nat.dvd_mul_left _ _

/-- What has been let out so far is the front of the padded data. -/
theorem Carries.released_eq {ended : Except Error Bytes}
    (carries : Carries context ciphertext padded)
    (arrived : seen <+: ciphertext) (streamed : Streamed context seen released ended) :
    released = padded.take (settled context seen) := by
  by_cases short : seen.length < context.newChain.headerLength
  · have nothing : body context seen = [] := List.drop_eq_nil_of_le (Nat.le_of_lt short)
    have none_settled : settled context seen = 0 := by
      simp only [settled, nothing, List.length_nil, Nat.zero_div, Nat.zero_sub, Nat.zero_mul]
    rw [(streamed.short short).1, none_settled, List.take_zero]
  · have long := Nat.le_of_not_lt short
    have within : settled context seen ≤ padded.length := by
      have early := settled_le context arrived
      rw [carries.length_eq] at early
      exact Nat.le_trans early (Nat.sub_le _ _)
    have decrypted := streamed.released_eq long
    rw [decryptFront_arrived arrived long (settled_within context seen),
      carries.decrypts _ (settled_blocks context seen) within] at decrypted
    exact (Except.ok.inj decrypted).symm

end RoomCipher.StreamRoundTrip
