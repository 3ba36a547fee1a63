import RoomCipher.Proofs.ChainInversion
import RoomCipher.Proofs.KeyedContexts
import RoomCipher.Proofs.PaddingLaws

/-! Whole messages come back. Both ends of a message start their chains alike: what
the sender draws for the header is what the receiver reads from it. From there the
decrypting chain retraces the encrypting one, and the padding comes off as it was put
on. Zero padding alone cannot tell its zeros from those that end the message. -/
namespace RoomCipher.ContextRoundTrip
open ChainInversion KeyedContexts PaddingLaws

variable {C : Type} [BlockCipher C]

/-! ### The start of a message -/

theorem newChain_ready {context : Context C} (sound : Sound context)
    (plain : context.config.mode ≠ .randomDelta) : Ready context.cipher context.newChain where
  permutes := sound.permutes
  positive := sound.positive
  register_full := sound.iv_full
  counter_full := sound.iv_full
  delta_fits := .inl rfl
  delta_full drawn := absurd drawn plain

omit [BlockCipher C] in
theorem headerLength_eq (context : Context C) : context.newChain.headerLength =
    if context.config.mode = .randomDelta then context.blockSize else 0 := rfl

omit [BlockCipher C] in
theorem headerLength_plain {context : Context C} (plain : context.config.mode ≠ .randomDelta) :
    context.newChain.headerLength = 0 := if_neg plain

omit [BlockCipher C] in
/-- Where nothing is drawn, the chain goes as it is. -/
theorem beginEncrypt_plain {context : Context C} (plain : context.config.mode ≠ .randomDelta)
    (source : Entropy) :
    context.newChain.beginEncrypt source = .ok (context.newChain, [], source) :=
  if_neg plain

omit [BlockCipher C] in
theorem beginDecrypt_plain {context : Context C} (plain : context.config.mode ≠ .randomDelta)
    (complete : header.length = context.newChain.headerLength) :
    context.newChain.beginDecrypt header = (context.newChain, .ok ()) := by
  rw [Chain.beginDecrypt, if_neg (not_not_intro complete)]
  exact if_neg plain

/-- Any header of the right length starts a chain that is ready for the ciphertext. -/
theorem beginDecrypt_ready {context : Context C} (sound : Sound context)
    (complete : header.length = context.newChain.headerLength) :
    ∃ chain, context.newChain.beginDecrypt header = (chain, .ok ()) ∧
      Ready context.cipher chain ∧ chain.blockSize = context.blockSize := by
  have accepted : ¬ header.length ≠ context.newChain.headerLength := not_not_intro complete
  rw [headerLength_eq] at complete
  simp only [Chain.beginDecrypt, accepted, ↓reduceIte]
  split
  next drawn =>
    have mode : context.config.mode = .randomDelta := drawn
    rw [if_pos mode] at complete
    refine ⟨_, rfl, ?_, rfl⟩
    exact { permutes := sound.permutes, positive := sound.positive, register_full := sound.iv_full
            counter_full := sound.iv_full, delta_fits := .inr complete
            delta_full := fun _ => complete }
  next plain => exact ⟨_, rfl, newChain_ready sound plain, rfl⟩

theorem begun_ready {context : Context C} (sound : Sound context) {chain : Chain}
    (complete : header.length = context.newChain.headerLength)
    (begun : context.newChain.beginDecrypt header = (chain, .ok ())) :
    Ready context.cipher chain ∧ chain.blockSize = context.blockSize := by
  obtain ⟨_, other, ready, size⟩ := beginDecrypt_ready sound complete
  cases begun.symm.trans other
  exact ⟨ready, size⟩

/-- The receiver of a header starts where its sender did. -/
theorem beginEncrypt_ready {context : Context C} (sound : Sound context) (source : Entropy) :
    ∃ chain header rest, context.newChain.beginEncrypt source = .ok (chain, header, rest) ∧
      header.length = context.newChain.headerLength ∧
      context.newChain.beginDecrypt header = (chain, .ok ()) := by
  have byte : Padding.maxLength ≤ Bytes.maxLength := by decide
  have room : Bytes.checkRoom context.newChain.blockSize = .ok () :=
    ByteLaws.checkRoom_eq_ok.mpr (Nat.le_trans sound.narrow byte)
  simp only [Chain.beginEncrypt, Chain.beginDecrypt, Chain.headerLength]
  split
  next drawn =>
    simp only [room, bind, Except.bind, pure, Except.pure]
    exact ⟨_, _, _, rfl, length_draw _ _, by simp⟩
  next plain => exact ⟨_, _, _, rfl, rfl, by simp⟩

/-! ### Whole messages -/

/-- What decryption comes to for a ciphertext with a whole header and whole blocks after it. -/
theorem decryptPadded_eq {context : Context C} {chain : Chain} (written : header ++ body ≠ [])
    (complete : header.length = context.newChain.headerLength)
    (aligned : context.blockSize ∣ body.length)
    (begun : context.newChain.beginDecrypt header = (chain, .ok ())) :
    context.decryptPadded (header ++ body) =
      (chain.decrypt context.cipher body context.config.workers).2 := by
  have long : ¬ (header ++ body).length < context.newChain.headerLength := by
    rw [List.length_append, complete]
    omega
  have whole : ¬ body.length % context.blockSize ≠ 0 :=
    not_not_intro (Nat.mod_eq_zero_of_dvd aligned)
  simp only [Context.decryptPadded, written, ↓reduceIte, long, List.take_left' complete,
    List.drop_left' complete, whole, begun, bind, Except.bind]

/-- Under the header that started the encrypting chain, decryption gives all the data back. -/
theorem decryptPadded_encrypted {context : Context C} (sound : Sound context) {chain : Chain}
    (complete : header.length = context.newChain.headerLength)
    (begun : context.newChain.beginDecrypt header = (chain, .ok ()))
    (aligned : context.blockSize ∣ data.length) (written : data ≠ []) :
    ∃ body, (∀ workers, (chain.encrypt context.cipher data workers).2 = .ok body) ∧
      context.decryptPadded (header ++ body) = .ok data := by
  obtain ⟨ready, size⟩ := begun_ready sound complete begun
  rw [← size] at aligned
  obtain ⟨last, body, forth, _, _, length, back⟩ := advance_undone ready .encrypt aligned
  refine ⟨body, fun workers => congrArg Prod.snd (forth workers), ?_⟩
  have content : header ++ body ≠ [] := by
    intro nothing
    have empty := (List.append_eq_nil_iff.mp nothing).2
    rw [empty, List.length_nil] at length
    exact written (List.eq_nil_of_length_eq_zero length.symm)
  rw [decryptPadded_eq content complete (size ▸ length ▸ aligned) begun]
  exact congrArg Prod.snd (back context.config.workers)

/-- Two contexts that do the same work, with whatever workers and buffers. -/
structure Alike (sender receiver : Context C) : Prop where
  cipher : sender.cipher = receiver.cipher
  iv : sender.iv = receiver.iv
  mode : sender.config.mode = receiver.config.mode
  padding : sender.config.padding = receiver.config.padding
  blockSize : sender.blockSize = receiver.blockSize

omit [BlockCipher C] in
theorem Alike.symm {sender receiver : Context C} (alike : Alike sender receiver) :
    Alike receiver sender :=
  ⟨alike.cipher.symm, alike.iv.symm, alike.mode.symm, alike.padding.symm, alike.blockSize.symm⟩

omit [BlockCipher C] in
theorem Alike.newChain {sender receiver : Context C} (alike : Alike sender receiver) :
    sender.newChain = receiver.newChain := by
  rw [Context.newChain, alike.iv, alike.mode, alike.blockSize]
  rfl

theorem Alike.sound {sender receiver : Context C} (alike : Alike sender receiver)
    (sound : Sound sender) : Sound receiver := by
  obtain ⟨permutes, positive, narrow, iv_full⟩ := sound
  rw [alike.blockSize] at permutes positive narrow
  rw [alike.mode, alike.cipher] at permutes
  rw [alike.mode, alike.iv, alike.blockSize] at iv_full
  exact ⟨permutes, positive, narrow, iv_full⟩

/-- Contexts made alike, down to workers and buffers, hold the same key and work alike. -/
theorem withCipher_alike {cipher : C} {sender receiver : Context C} {config other : Config}
    (built : Context.withCipher cipher key iv config = .ok sender)
    (rebuilt : Context.withCipher cipher key iv other = .ok receiver)
    (mode : config.mode = other.mode) (padding : config.padding = other.padding)
    (blockSize : config.blockSize = other.blockSize) :
    Alike sender receiver ∧ sender.key = receiver.key := by
  obtain ⟨_, _, _, keyed, taken, rfl⟩ := withCipher_eq built
  obtain ⟨_, _, _, rekeyed, retaken, rfl⟩ := withCipher_eq rebuilt
  cases taken.symm.trans retaken
  refine ⟨⟨rfl, ?_, mode, padding, blockSize⟩, rfl⟩
  simp only [mode]

/-- A message that one of two such contexts encrypts is decrypted by the other, whatever was drawn
on the way. -/
theorem decrypt_encrypt_alike {sender receiver : Context C} (alike : Alike sender receiver)
    (sound : Sound sender) (written : plaintext ≠ []) (source : Entropy) :
    ∃ ciphertext rest, sender.encrypt plaintext source = .ok (ciphertext, rest) ∧
      receiver.decrypt ciphertext = .ok
        (if sender.config.padding = .zeros then Padding.dropZeros plaintext else plaintext) := by
  obtain ⟨tail, drawn, padded, _, aligned, removed, _⟩ :=
    add_fills sender.config.padding sound.positive sound.narrow plaintext source
  obtain ⟨chain, header, rest, begun, complete, answered⟩ := beginEncrypt_ready sound drawn
  rw [alike.newChain] at complete answered
  rw [alike.blockSize] at aligned
  obtain ⟨body, forth, back⟩ := decryptPadded_encrypted (alike.sound sound) complete answered
    aligned (List.append_ne_nil_of_left_ne_nil written tail)
  rw [← alike.cipher] at forth
  refine ⟨header ++ body, rest, ?_, ?_⟩
  · simp only [Context.encrypt, written, ↓reduceIte, padded, begun, forth, bind, Except.bind, pure,
      Except.pure]
  · rw [Context.decrypt, back, ← alike.padding]
    exact removed

/-- Whatever a context over a built-in cipher encrypts it decrypts again: the message itself, or
under zero padding the message without the zeros at its end. -/
theorem decrypt_encrypt [KeyedCipher C] {cipher : C} {context : Context C}
    (usable : Usable cipher config.mode)
    (built : Context.withCipher cipher key iv config = .ok context) (written : plaintext ≠ [])
    (source : Entropy) :
    ∃ ciphertext rest, context.encrypt plaintext source = .ok (ciphertext, rest) ∧
      context.decrypt ciphertext = .ok
        (if config.padding = .zeros then Padding.dropZeros plaintext else plaintext) := by
  rw [← withCipher_config built]
  exact decrypt_encrypt_alike ⟨rfl, rfl, rfl, rfl, rfl⟩ (withCipher_sound usable built) written
    source

/-- RC5 on words of 32 bits, with its blocks chained. -/
theorem decrypt_encrypt_narrow :
    ∃ context, Context.withCipher (⟨.w32, 20, none⟩ : Rc5) (List.replicate 16 7)
        (List.replicate 8 1) { Config.sequential with blockSize := 8 } = .ok context ∧
      ∃ ciphertext rest, context.encrypt [1, 2, 3, 0] ⟨fun _ => 0, 0, 0⟩ = .ok (ciphertext, rest) ∧
        context.decrypt ciphertext = .ok [1, 2, 3, 0] := by
  have built : Context.withCipher (⟨.w32, 20, none⟩ : Rc5) (List.replicate 16 7)
      (List.replicate 8 1) { Config.sequential with blockSize := 8 } = .ok _ := rfl
  have written : ([1, 2, 3, 0] : Bytes) ≠ [] := by decide
  exact ⟨_, built, decrypt_encrypt (fun _ => trivial) built written _⟩

end RoomCipher.ContextRoundTrip
