import RoomCipher.Proofs.ChainParts
import RoomCipher.Proofs.ContextAnswers
import RoomCipher.Proofs.StreamPieces

/-! Contexts over a cipher that refuses every block. Checks at construction do not find
this out, since no block is asked of the cipher before there is a message. A mode that
has any use for it then stops at the first block, so that nothing is ever encrypted or
decrypted. Of the contexts over the ciphers of this library each is of this kind or in
working order. -/
namespace RoomCipher.SilentContexts
open ByteLaws ChainParts ChainSteps CipherPermutation ContextAnswers ContextRoundTrip KeyedContexts
open Outcomes PaddingLaws StreamPieces

variable {C : Type} [BlockCipher C] {context : Context C}

/-! ### Parts of a message -/

/-- A mode that has any use for such a cipher does not get past a block. -/
theorem stepBlock_mute {cipher : C} (mute : Mute cipher) {chain : Chain}
    (coded : chain.mode ≠ .randomDelta) (direction : Direction) (block : Bytes) :
    stepBlock cipher direction chain block = none := by
  choose forth encrypts using fun block => (mute block).1
  choose back decrypts using fun block => (mute block).2
  obtain ⟨mode, blockSize, iv, feedback, position, delta⟩ := chain
  cases mode with
  | randomDelta => exact absurd rfl coded
  | ecb =>
    cases direction with
    | encrypt =>
      simp only [stepBlock, blockOutcome, apply_toOption, encrypts]
      rfl
    | decrypt =>
      simp only [stepBlock, blockOutcome, apply_toOption, decrypts]
      rfl
  | ctr =>
    simp only [stepBlock, blockOutcome, encrypts]
    rfl
  | cbc | pcbc =>
    cases direction with
    | encrypt =>
      simp only [stepBlock, blockOutcome, Feedback.step, encrypts]
      cases Bytes.xor block feedback <;> rfl
    | decrypt =>
      simp only [stepBlock, blockOutcome, Feedback.step, decrypts]
      rfl
  | cfb =>
    cases direction <;> simp only [stepBlock, blockOutcome, Feedback.step, encrypts] <;> rfl
  | ofb =>
    simp only [stepBlock, blockOutcome, Feedback.step, encrypts]
    rfl

/-- A part that goes through has no blocks. -/
theorem advance_mute {cipher : C} (mute : Mute cipher) {chain : Chain}
    (coded : chain.mode ≠ .randomDelta)
    (answered : (chain.advance direction cipher data workers).2 = .ok out) :
    data = [] ∧ out = [] := by
  obtain ⟨positive, aligned⟩ := checkAligned_eq_ok.mp (checkAligned_of_ok answered)
  have taken : chain.advance direction cipher data workers = (_, .ok out) :=
    Prod.ext rfl answered
  have blocks := advance_blocks cipher direction chain data workers positive
    (fun drawn => absurd drawn coded) aligned
  rw [delivered_eq_some.mpr taken] at blocks
  by_cases empty : data = []
  · rw [empty, pieces_nil, follow] at blocks
    exact ⟨empty, congrArg Prod.snd (Option.some.inj blocks)⟩
  · rw [pieces_written positive empty, follow, stepBlock_mute mute coded] at blocks
    cases blocks

/-! ### Messages -/

/-- A context whose mode asks a cipher for blocks that it never gives. -/
structure Stuck (context : Context C) : Prop where
  mute : Mute context.cipher
  coded : context.config.mode ≠ .randomDelta

/-- A context that answers no message. -/
structure Silent (context : Context C) : Prop where
  encrypt : ∀ plaintext source answer, context.encrypt plaintext source ≠ .ok answer
  decryptPadded : ∀ ciphertext padded, context.decryptPadded ciphertext ≠ .ok padded
  decryptPieces : ∀ pieces message, decryptPieces context pieces ≠ .ok message

theorem Silent.decrypt (silent : Silent context) (ciphertext message : Bytes) :
    context.decrypt ciphertext ≠ .ok message := by
  intro decrypted
  obtain ⟨padded, whole, _⟩ := bind_eq_ok.mp decrypted
  exact silent.decryptPadded ciphertext padded whole

theorem Stuck.encrypt (stuck : Stuck context) (plaintext : Bytes) (source : Entropy)
    (answer : Bytes × Entropy) : context.encrypt plaintext source ≠ .ok answer := by
  intro encrypted
  rw [Context.encrypt] at encrypted
  split at encrypted
  · cases encrypted
  next written =>
    obtain ⟨⟨padded, left⟩, filled, encrypted⟩ := bind_eq_ok.mp encrypted
    obtain ⟨⟨chain, header, drawn⟩, begun, encrypted⟩ := bind_eq_ok.mp encrypted
    cases begun.symm.trans (beginEncrypt_plain stuck.coded left)
    obtain ⟨body, through, _⟩ := bind_eq_ok.mp encrypted
    exact add_written written filled (advance_mute stuck.mute stuck.coded through).1

theorem Stuck.decryptPadded (stuck : Stuck context) (ciphertext padded : Bytes) :
    context.decryptPadded ciphertext ≠ .ok padded := by
  intro decrypted
  by_cases shaped : Shaped context ciphertext
  · obtain ⟨written, _, aligned⟩ := shaped
    have bare : ([] : Bytes).length = context.newChain.headerLength :=
      (headerLength_plain stuck.coded).symm
    rw [← bare, List.length_nil, List.drop_zero] at aligned
    rw [← List.nil_append ciphertext] at written decrypted
    rw [decryptPadded_eq written bare aligned (beginDecrypt_plain stuck.coded bare)] at decrypted
    exact written (advance_mute stuck.mute stuck.coded decrypted).1
  · obtain ⟨_, refused⟩ := decryptPadded_unshaped shaped
    cases decrypted.symm.trans refused

/-- A decryptor in the middle of a message of this context. -/
structure Within (context : Context C) (state : Decryptor C) : Prop where
  context_eq : state.context = context
  mode_eq : state.chain.mode = context.config.mode

omit [BlockCipher C] in
theorem Within.readHeader {state : Decryptor C} (within : Within context state) :
    Within context state.readHeader := by
  rw [Decryptor.readHeader]
  split
  · refine ⟨within.context_eq, ?_⟩
    dsimp only
    rw [beginDecrypt_fixed]
    exact within.mode_eq
  · exact within

theorem Within.update {state : Decryptor C} (within : Within context state) (piece : Bytes) :
    Within context (state.update piece).1 := by
  have arrived : Within context { state with pending := state.pending ++ piece } :=
    ⟨within.context_eq, within.mode_eq⟩
  have begun := arrived.readHeader
  simp only [Decryptor.update]
  split
  · refine ⟨begun.context_eq, ?_⟩
    dsimp only [Chain.decrypt]
    rw [advance_fixed]
    exact begun.mode_eq
  · exact begun

theorem Stuck.finalize (stuck : Stuck context) {state : Decryptor C}
    (within : Within context state) (message : Bytes) : state.finalize ≠ .ok message := by
  intro ended
  obtain ⟨same, mode⟩ := within.readHeader
  simp only [Decryptor.finalize] at ended
  split at ended
  · cases ended
  split at ended
  · cases ended
  obtain ⟨tail, decrypted, removed⟩ := bind_eq_ok.mp ended
  obtain ⟨_, rfl⟩ := advance_mute (same ▸ stuck.mute) (mode ▸ stuck.coded) decrypted
  cases removed

theorem Stuck.decryptPieces (stuck : Stuck context) (pieces : List Bytes) (message : Bytes) :
    decryptPieces context pieces ≠ .ok message := by
  intro decrypted
  obtain ⟨⟨state, front⟩, fed, decrypted⟩ := bind_eq_ok.mp decrypted
  obtain ⟨tail, ended, _⟩ := bind_eq_ok.mp decrypted
  have within : Within context state :=
    feed_stays (Within context) (fun _ piece within => within.update piece) ⟨rfl, rfl⟩ fed
  exact stuck.finalize within tail ended

theorem Stuck.silent (stuck : Stuck context) : Silent context :=
  ⟨stuck.encrypt, stuck.decryptPadded, stuck.decryptPieces⟩

/-! ### Contexts over the ciphers of this library -/

/-- What a cipher that cannot work makes of a context whose mode needs it. -/
theorem withCipher_stuck [KeyedCipher C] {cipher : C} (useless : ¬Usable cipher config.mode)
    (built : Context.withCipher cipher key iv config = .ok context) : Stuck context := by
  obtain ⟨_, _, _, keyed, taken, rfl⟩ := withCipher_eq built
  obtain ⟨coded, idle⟩ := Classical.not_imp.mp useless
  exact ⟨KeyedCipher.mute idle taken, coded⟩

theorem sound_or_silent [KeyedCipher C] {cipher : C}
    (built : Context.withCipher cipher key iv config = .ok context) :
    Sound context ∨ Silent context := by
  by_cases usable : Usable cipher config.mode
  · exact .inl (withCipher_sound usable built)
  · exact .inr (withCipher_stuck usable built).silent

/-- Every message is encrypted or none is, and the parameters of the cipher say which. -/
theorem encrypt_answers_iff [KeyedCipher C] {cipher : C}
    (built : Context.withCipher cipher key iv config = .ok context) (written : plaintext ≠ [])
    (source : Entropy) :
    (∃ answer, context.encrypt plaintext source = .ok answer) ↔ Usable cipher config.mode := by
  constructor
  · rintro ⟨answer, encrypted⟩
    refine Classical.byContradiction fun useless => ?_
    exact (withCipher_stuck useless built).encrypt plaintext source answer encrypted
  · intro usable
    obtain ⟨_, _, encrypted, _⟩ := encrypt_answers (withCipher_sound usable built) written source
    exact ⟨_, encrypted⟩

end RoomCipher.SilentContexts
