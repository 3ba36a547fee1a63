import RoomCipher.Proofs.ContextRoundTrip

/-! What a context answers to whole messages. Everything that its parts could complain
of was looked at when it was made, so a message is always encrypted, to a header and as
many blocks as it needs. A ciphertext may come from anywhere: it is refused for its
shape if it is not a header and whole blocks, and after that only its padding can be
amiss. -/
namespace RoomCipher.ContextAnswers
open ChainInversion KeyedContexts PaddingLaws ContextRoundTrip Outcomes

variable {C : Type} [BlockCipher C] {context : Context C}

/-! ### Encryption -/

/-- A message with its padding takes up one block more than it fills. -/
theorem padded_length (positive : 0 < size) (length : Nat) :
    length + (size - length % size) = size * (length / size + 1) := by
  have parts := Nat.div_add_mod length size
  have below := Nat.mod_lt length positive
  rw [Nat.mul_succ]
  omega

/-- Every message is encrypted, whatever is drawn, and its length alone decides how long the
ciphertext is. -/
theorem encrypt_answers (sound : Sound context) (written : plaintext ≠ []) (source : Entropy) :
    ∃ ciphertext rest, context.encrypt plaintext source = .ok (ciphertext, rest) ∧
      ciphertext.length = context.newChain.headerLength +
        context.blockSize * (plaintext.length / context.blockSize + 1) := by
  obtain ⟨tail, drawn, padded, fills, aligned, _, _⟩ :=
    add_fills context.config.padding sound.positive sound.narrow plaintext source
  obtain ⟨chain, header, rest, begun, complete, answered⟩ := beginEncrypt_ready sound drawn
  obtain ⟨ready, size⟩ := begun_ready sound complete answered
  rw [← size] at aligned
  obtain ⟨_, body, forth, _, _, length, _⟩ := advance_undone ready .encrypt aligned
  have encrypted : (chain.encrypt context.cipher (plaintext ++ tail) context.config.workers).2 =
      .ok body := congrArg Prod.snd (forth _)
  refine ⟨header ++ body, rest, ?_, ?_⟩
  · simp only [Context.encrypt, written, ↓reduceIte, padded, begun, encrypted, bind, Except.bind,
      pure, Except.pure]
  · rw [List.length_append, complete, length, List.length_append, fills,
      padded_length sound.positive]

/-! ### Decryption -/

/-- A ciphertext that is a header and whole blocks after it, and not nothing at all. -/
structure Shaped (context : Context C) (ciphertext : Bytes) : Prop where
  written : ciphertext ≠ []
  headed : context.newChain.headerLength ≤ ciphertext.length
  aligned : context.blockSize ∣ (ciphertext.drop context.newChain.headerLength).length

/-- Other ciphertexts are refused as data, before the cipher sees any of them. -/
theorem decryptPadded_unshaped (ill : ¬ Shaped context ciphertext) :
    ∃ reason, context.decryptPadded ciphertext = .error (.data reason) := by
  rw [Context.decryptPadded]
  split
  next nothing => exact ⟨_, rfl⟩
  next written =>
    dsimp only
    split
    next short => exact ⟨_, rfl⟩
    next long =>
      split
      next uneven => exact ⟨_, rfl⟩
      next even =>
        refine absurd ?_ ill
        exact ⟨written, Nat.le_of_not_lt long,
          Nat.dvd_of_mod_eq_zero (Decidable.not_not.mp even)⟩

/-- Whole blocks are decrypted, and the chain that the header starts takes the outcome back to
them. -/
theorem decryptPadded_shaped (sound : Sound context) (shaped : Shaped context ciphertext) :
    ∃ chain padded, context.decryptPadded ciphertext = .ok padded ∧
      context.newChain.beginDecrypt (ciphertext.take context.newChain.headerLength) =
        (chain, .ok ()) ∧
      padded.length = (ciphertext.drop context.newChain.headerLength).length ∧
      ∀ workers, (chain.encrypt context.cipher padded workers).2 =
        .ok (ciphertext.drop context.newChain.headerLength) := by
  obtain ⟨written, headed, aligned⟩ := shaped
  have complete := List.length_take_of_le headed
  obtain ⟨chain, begun, ready, size⟩ := beginDecrypt_ready sound complete
  rw [← List.take_append_drop context.newChain.headerLength ciphertext] at written
  have decrypted := decryptPadded_eq written complete aligned begun
  rw [List.take_append_drop] at decrypted
  rw [← size] at aligned
  obtain ⟨_, padded, forth, _, _, length, back⟩ := advance_undone ready .decrypt aligned
  refine ⟨chain, padded, ?_, begun, length, fun workers => congrArg Prod.snd (back workers)⟩
  rw [decrypted]
  exact congrArg Prod.snd (forth _)

/-- Padding that does not come off is the only thing wrong that there can be with padded data. -/
theorem remove_answers (scheme : Padding) (data : Bytes) :
    (∃ message, scheme.remove data = .ok message) ∨
      ∃ cause, scheme.remove data = .error (.padding cause) := by
  rw [Padding.remove]
  split
  next empty => exact .inr ⟨_, rfl⟩
  next last ending =>
    split
    next zeros => exact .inl ⟨_, rfl⟩
    next marked =>
      dsimp only
      split
      next unfit => exact .inr ⟨_, rfl⟩
      next fits =>
        split
        next mixed => exact .inr ⟨_, rfl⟩
        next alike => exact .inl ⟨_, rfl⟩

theorem decrypt_unshaped (ill : ¬ Shaped context ciphertext) :
    ∃ reason, context.decrypt ciphertext = .error (.data reason) := by
  obtain ⟨reason, refused⟩ := decryptPadded_unshaped ill
  refine ⟨reason, ?_⟩
  rw [Context.decrypt, refused]
  rfl

theorem decrypt_shaped (sound : Sound context) (shaped : Shaped context ciphertext) :
    (∃ message, context.decrypt ciphertext = .ok message) ∨
      ∃ cause, context.decrypt ciphertext = .error (.padding cause) := by
  obtain ⟨_, padded, decrypted, _, _, _⟩ := decryptPadded_shaped sound shaped
  have removed : context.decrypt ciphertext = context.config.padding.remove padded := by
    rw [Context.decrypt, decrypted]
    rfl
  rw [removed]
  exact remove_answers context.config.padding padded

/-- A context over a built-in cipher encrypts every message, to the header of its mode and the
blocks of the message and its padding. Whatever it is given to decrypt, it answers with a message,
with a complaint about the data, or with one about the padding; and it is the data exactly if they
are not a header and whole blocks. -/
theorem whole_messages_answered [KeyedCipher C] {cipher : C}
    (usable : Usable cipher config.mode)
    (built : Context.withCipher cipher key iv config = .ok context) :
    (∀ plaintext source, plaintext ≠ [] →
      ∃ ciphertext rest, context.encrypt plaintext source = .ok (ciphertext, rest) ∧
        ciphertext.length = (if config.mode = .randomDelta then config.blockSize else 0) +
          config.blockSize * (plaintext.length / config.blockSize + 1)) ∧
    ∀ ciphertext,
      ((∃ plaintext, context.decrypt ciphertext = .ok plaintext) ∨
        (∃ reason, context.decrypt ciphertext = .error (.data reason)) ∨
        ∃ cause, context.decrypt ciphertext = .error (.padding cause)) ∧
      ((∃ reason, context.decrypt ciphertext = .error (.data reason)) ↔
        ¬ Shaped context ciphertext) := by
  have sound := withCipher_sound usable built
  constructor
  · intro plaintext source written
    have encrypted := encrypt_answers sound written source
    rw [headerLength_eq, Context.blockSize, withCipher_config built] at encrypted
    exact encrypted
  · intro ciphertext
    by_cases shaped : Shaped context ciphertext
    · have answer := decrypt_shaped sound shaped
      refine ⟨answer.imp_right .inr, ?_, fun ill => absurd shaped ill⟩
      rintro ⟨reason, refused⟩
      rcases answer with ⟨message, accepted⟩ | ⟨cause, unpadded⟩
      · cases refused.symm.trans accepted
      · cases refused.symm.trans unpadded
    · have refused := decrypt_unshaped shaped
      exact ⟨.inr (.inl refused), fun _ => shaped, fun _ => refused⟩

/-- RC5 on words of 16 bits, whose blocks are four bytes long, and a delta in front of them: three
bytes come to a header and one block, and four bytes to a header and two. -/
theorem whole_messages_answered_narrow :
    ∃ context, Context.withCipher (⟨.w16, 255, none⟩ : Rc5) (List.replicate 4 7) []
        { Config.sequential with mode := .randomDelta, blockSize := 4 } = .ok context ∧
      (∃ ciphertext rest, context.encrypt [1, 2, 3] ⟨fun _ => 9, 0, 0⟩ = .ok (ciphertext, rest) ∧
        ciphertext.length = 4 + 4 * (3 / 4 + 1)) ∧
      (∃ ciphertext rest, context.encrypt [1, 2, 3, 4] ⟨fun _ => 9, 0, 0⟩ = .ok (ciphertext, rest) ∧
        ciphertext.length = 4 + 4 * (4 / 4 + 1)) ∧
      ∃ reason, context.decrypt [9, 9, 9, 9, 1] = .error (.data reason) := by
  have built : Context.withCipher (⟨.w16, 255, none⟩ : Rc5) (List.replicate 4 7) []
      { Config.sequential with mode := .randomDelta, blockSize := 4 } = .ok _ := rfl
  obtain ⟨encrypts, decrypts⟩ := whole_messages_answered (fun _ => trivial) built
  refine ⟨_, built, encrypts _ _ (by decide), encrypts _ _ (by decide), ?_⟩
  refine (decrypts [9, 9, 9, 9, 1]).2.mpr fun shaped => ?_
  have aligned : 4 ∣ 1 := shaped.aligned
  omega

end RoomCipher.ContextAnswers
