import RoomCipher.Proofs.SilentContexts

/-! Ciphertexts that encryption could have made. Where nothing is drawn, a message has
one ciphertext, and decryption should accept no other for it. Under PKCS #7 every byte of
the padding is looked at, but its length is only held against the length of the data:
more than a block may come off, though never more than 255 bytes. Those ciphertexts that
lose at most one block are the genuine ones. -/
namespace RoomCipher.GenuineCiphertexts
open KeyedContexts PaddingLaws ContextRoundTrip ContextAnswers Outcomes

variable {C : Type} [BlockCipher C] {context : Context C}

/-- What was decrypted to a message and its padding is what the padded message is encrypted to. -/
theorem decryptPadded_undone (sound : Sound context)
    (plain : context.config.mode ≠ .randomDelta)
    (decrypted : context.decryptPadded ciphertext = .ok padded) :
    padded.length = ciphertext.length ∧ context.blockSize ∣ padded.length ∧
      ∀ workers, (context.newChain.encrypt context.cipher padded workers).2 = .ok ciphertext := by
  by_cases shaped : Shaped context ciphertext
  · obtain ⟨chain, out, again, begun, length, back⟩ := decryptPadded_shaped sound shaped
    have aligned := shaped.aligned
    rw [headerLength_plain plain, List.drop_zero] at aligned length back
    cases decrypted.symm.trans again
    have complete : (ciphertext.take context.newChain.headerLength).length =
        context.newChain.headerLength := List.length_take_of_le shaped.headed
    cases begun.symm.trans (beginDecrypt_plain plain complete)
    exact ⟨length, length ▸ aligned, back⟩
  · obtain ⟨_, refused⟩ := decryptPadded_unshaped shaped
    cases decrypted.symm.trans refused

/-- Padding of at most one block is the padding that the message gets again. -/
theorem add_removed (positive : 0 < blockSize) (narrow : blockSize ≤ Padding.maxLength)
    (removed : Padding.remove .pkcs7 padded = .ok message) (aligned : blockSize ∣ padded.length)
    (short : padded.length ≤ message.length + blockSize) (source : Entropy) :
    Padding.add .pkcs7 blockSize message source = .ok (padded, source) := by
  obtain ⟨count, some, _, rfl⟩ := (remove_pkcs7 source).mp removed
  have length := length_filling .pkcs7 some source
  rw [List.length_append, length] at aligned short
  have only := needed_unique some (Nat.le_of_add_le_add_left short) aligned
  rw [add_ok .pkcs7 positive narrow, ← only]
  rfl

/-- Where nothing is drawn, a message that PKCS #7 was taken off is encrypted to the ciphertext that
it came from if and only if no more than one block of padding was there. -/
theorem encrypt_of_decrypt_iff [KeyedCipher C] {cipher : C}
    (built : Context.withCipher cipher key iv config = .ok context)
    (plain : config.mode ≠ .randomDelta) (strict : config.padding = .pkcs7)
    (accepted : context.decrypt ciphertext = .ok plaintext) (written : plaintext ≠ [])
    (source : Entropy) :
    context.encrypt plaintext source = .ok (ciphertext, source) ↔
      ciphertext.length ≤ plaintext.length + config.blockSize := by
  obtain ⟨padded, decrypted, removed⟩ := bind_eq_ok.mp accepted
  have sound := (SilentContexts.sound_or_silent built).resolve_right
    fun silent => silent.decryptPadded _ _ decrypted
  rw [← withCipher_config built] at plain strict ⊢
  rw [strict] at removed
  obtain ⟨length, aligned, back⟩ := decryptPadded_undone sound plain decrypted
  constructor
  · intro genuine
    obtain ⟨_, _, encrypted, long⟩ := encrypt_answers sound written source
    cases genuine.symm.trans encrypted
    have parts := Nat.div_mul_le_self plaintext.length context.blockSize
    rw [long, headerLength_plain plain, Nat.zero_add, Nat.mul_succ, Nat.mul_comm]
    exact Nat.add_le_add_right parts _
  · intro short
    rw [← length] at short
    have again := add_removed sound.positive sound.narrow removed aligned short source
    have begun : context.newChain.beginEncrypt source = .ok (context.newChain, [], source) :=
      if_neg plain
    simp only [Context.encrypt, written, ↓reduceIte, strict, again, begun, back, bind, Except.bind,
      pure, Except.pure, List.nil_append]

/-- MAGENTA under a key of zeros, with each block on its own. -/
def bare : Context Magenta where
  cipher := ⟨Magenta.standardRounds, some (Magenta.expandKey 12 (List.replicate 16 0))⟩
  key := List.replicate 16 0
  iv := []
  config := { Config.sequential with mode := .ecb }

theorem bare_built :
    Context.withCipher Magenta.standard bare.key [] bare.config = .ok bare := rfl

/-- Fifteen bytes `A` and the one byte of padding that they need. -/
def genuine : Bytes :=
  [0x89, 0x92, 0x77, 0xe8, 0xb9, 0x3e, 0x1d, 0x09, 0x66, 0xec, 0x38, 0x4e, 0x32, 0x42, 0xfe, 0xf3]

/-- Fifteen bytes `A` and seventeen bytes of padding. -/
def overpadded : Bytes :=
  [0x89, 0x92, 0x77, 0xe8, 0x79, 0x8a, 0x61, 0xc5, 0x66, 0xec, 0x38, 0x4e, 0x72, 0x05, 0x87, 0x98,
    0x64, 0xa7, 0x64, 0xff, 0xb6, 0x11, 0xbe, 0xf9, 0xb3, 0xa9, 0x63, 0xd7, 0x67, 0x45, 0x38, 0x1c]

/-- One block of padding comes again, and of two blocks only one. -/
theorem encrypt_of_decrypt_iff_bare :
    Context.withCipher Magenta.standard bare.key [] bare.config = .ok bare ∧
      bare.config.mode ≠ .randomDelta ∧ bare.config.padding = .pkcs7 ∧
      (List.replicate 15 0x41 : Bytes) ≠ [] ∧
      bare.decrypt genuine = .ok (List.replicate 15 0x41) ∧
      bare.encrypt (List.replicate 15 0x41) ⟨fun _ => 0, 0, 0⟩ =
        .ok (genuine, ⟨fun _ => 0, 0, 0⟩) ∧
      bare.decrypt overpadded = .ok (List.replicate 15 0x41) ∧
      bare.encrypt (List.replicate 15 0x41) ⟨fun _ => 0, 0, 0⟩ ≠
        .ok (overpadded, ⟨fun _ => 0, 0, 0⟩) := by
  have accepted : bare.decrypt genuine = .ok (List.replicate 15 0x41) := by decide +kernel
  have tolerated : bare.decrypt overpadded = .ok (List.replicate 15 0x41) := by decide +kernel
  have written : (List.replicate 15 0x41 : Bytes) ≠ [] := by decide
  have plain : bare.config.mode ≠ .randomDelta := by decide
  have again := encrypt_of_decrypt_iff bare_built plain rfl accepted written ⟨fun _ => 0, 0, 0⟩
  have lost := encrypt_of_decrypt_iff bare_built plain rfl tolerated written ⟨fun _ => 0, 0, 0⟩
  exact ⟨bare_built, plain, rfl, written, accepted, again.mpr (by decide), tolerated,
    fun same => absurd (lost.mp same) (by decide)⟩

/-- Seventeen bytes of padding are accepted, though no message is encrypted with as many. -/
theorem decrypt_accepts_overpadded :
    Context.withCipher Magenta.standard bare.key [] bare.config = .ok bare ∧
      bare.config.mode ≠ .randomDelta ∧ bare.config.padding = .pkcs7 ∧
      bare.decrypt overpadded = .ok (List.replicate 15 0x41) ∧
      (List.replicate 15 0x41 : Bytes) ≠ [] ∧
      ∀ source rest, bare.encrypt (List.replicate 15 0x41) source ≠ .ok (overpadded, rest) := by
  have written : (List.replicate 15 0x41 : Bytes) ≠ [] := by decide
  refine ⟨bare_built, by decide, rfl, by decide +kernel, written, ?_⟩
  intro source rest same
  obtain ⟨_, _, encrypted, long⟩ := 
    encrypt_answers (withCipher_sound (fun _ => workable_magenta) bare_built) written source
  cases same.symm.trans encrypted
  exact absurd long (by decide)

end RoomCipher.GenuineCiphertexts
