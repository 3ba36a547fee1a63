import RoomCipher.Proofs.ChainParts
import RoomCipher.Proofs.ContextRoundTrip

/-! What the RandomDelta mode keeps secret: nothing. The block that a message is combined with is
drawn anew and sent along in front, and neither a cipher nor a key nor a starting block has a part
in it. So contexts of this mode that pad alike to blocks of one size stand in for each other,
whatever they are keyed with, and whoever has a ciphertext has the message. -/
namespace RoomCipher.KeylessDelta
open Chain (withDelta)
open ContextRoundTrip KeyedContexts PaddingLaws

variable {C D : Type} [BlockCipher C] [BlockCipher D]

/-! ### One part of a message -/

/-- What becomes of a byte and the byte of the delta in its place. -/
def blend : Direction → UInt8 → UInt8 → UInt8
  | .encrypt => (· + ·)
  | .decrypt => (· - ·)

theorem transform_blend {chain : Chain} (drawn : chain.mode = .randomDelta) (direction : Direction)
    (cipher : C) (data : Bytes) (workers : Nat) :
    chain.transform direction cipher data workers =
      (chain.feedback, .ok (withDelta (blend direction) chain.delta data)) := by
  unfold Chain.transform
  rw [drawn]
  cases direction <;> rfl

/-- The cipher is not so much as looked at, and the number of workers does not matter either. -/
theorem advance_keyless {chain : Chain} (drawn : chain.mode = .randomDelta) (direction : Direction)
    (cipher : C) (other : D) (data : Bytes) (workers spread : Nat) :
    chain.advance direction cipher data workers = chain.advance direction other data spread := by
  simp only [Chain.advance, transform_blend drawn]

theorem advance_blend (chain : Chain) (drawn : chain.mode = .randomDelta)
    (positive : 0 < chain.blockSize) (direction : Direction) (cipher : C)
    (aligned : chain.blockSize ∣ data.length) (workers : Nat) :
    (chain.advance direction cipher data workers).2 =
      .ok (withDelta (blend direction) chain.delta data) := by
  have accepted := ChainSteps.checkAligned_eq_ok.mpr ⟨positive, aligned⟩
  simp only [Chain.advance, accepted, transform_blend drawn]

/-! ### Whole messages -/

/-- Contexts of the mode that agree on padding and block size. -/
structure Twins (sender : Context C) (receiver : Context D) : Prop where
  drawn : sender.newChain.mode = .randomDelta
  newChain : sender.newChain = receiver.newChain
  padding : sender.config.padding = receiver.config.padding
  blockSize : sender.blockSize = receiver.blockSize

/-- However they were keyed: a starting block is not even kept. -/
theorem withCipher_twins {cipher : C} {other : D} {sender : Context C} {receiver : Context D}
    {config settings : Config}
    (built : Context.withCipher cipher key iv config = .ok sender)
    (rebuilt : Context.withCipher other secret start settings = .ok receiver)
    (drawn : config.mode = .randomDelta) (redrawn : settings.mode = .randomDelta)
    (padding : config.padding = settings.padding)
    (blockSize : config.blockSize = settings.blockSize) : Twins sender receiver := by
  obtain ⟨_, _, _, _, _, rfl⟩ := withCipher_eq built
  obtain ⟨_, _, _, _, _, rfl⟩ := withCipher_eq rebuilt
  refine ⟨drawn, ?_, padding, blockSize⟩
  simp only [Context.newChain, Context.blockSize, drawn, redrawn, blockSize]
  rfl

theorem beginEncrypt_mode {chain next : Chain}
    (begun : chain.beginEncrypt source = .ok (next, header, rest)) : next.mode = chain.mode := by
  rcases ChainParts.beginEncrypt_cases begun with ⟨_, _, rfl⟩ | ⟨_, rfl⟩ <;> rfl

theorem beginDecrypt_mode (chain : Chain) (header : Bytes) :
    (chain.beginDecrypt header).1.mode = chain.mode := by
  rw [ChainParts.beginDecrypt_fixed]

theorem Twins.encrypt_eq {sender : Context C} {receiver : Context D} (twins : Twins sender receiver)
    (plaintext : Bytes) (source : Entropy) :
    sender.encrypt plaintext source = receiver.encrypt plaintext source := by
  obtain ⟨drawn, newChain, padding, blockSize⟩ := twins
  unfold Context.encrypt
  rw [← newChain, ← padding, ← blockSize]
  split
  · rfl
  · cases sender.config.padding.add sender.blockSize plaintext source with
    | error e => rfl
    | ok result =>
      obtain ⟨padded, source⟩ := result
      simp only [bind, Except.bind]
      cases begun : sender.newChain.beginEncrypt source with
      | error e => rfl
      | ok prepared =>
        obtain ⟨chain, header, source⟩ := prepared
        have mode := (beginEncrypt_mode begun).trans drawn
        simp only [Chain.encrypt]
        rw [advance_keyless mode .encrypt sender.cipher receiver.cipher padded _
          receiver.config.workers]

theorem Twins.decrypt_eq {sender : Context C} {receiver : Context D} (twins : Twins sender receiver)
    (ciphertext : Bytes) : receiver.decrypt ciphertext = sender.decrypt ciphertext := by
  obtain ⟨drawn, newChain, padding, blockSize⟩ := twins
  have mode (header : Bytes) := (beginDecrypt_mode sender.newChain header).trans drawn
  have body (header data : Bytes) :=
    advance_keyless (mode header) .decrypt receiver.cipher sender.cipher data
      receiver.config.workers sender.config.workers
  unfold Context.decrypt Context.decryptPadded
  rw [← newChain, ← padding, ← blockSize]
  simp only [Chain.decrypt, body]

/-! ### Messages that come back -/

/-- A message whose padding could be added goes out under the block that is drawn next, with that
block in front of it. -/
theorem encrypt_blend {context : Context C} (drawn : context.newChain.mode = .randomDelta)
    (positive : 0 < context.blockSize) (roomy : context.blockSize ≤ Bytes.maxLength)
    (written : plaintext ≠ [])
    (padded : context.config.padding.add context.blockSize plaintext source = .ok (data, rest))
    (aligned : context.blockSize ∣ data.length) :
    context.encrypt plaintext source =
      .ok ((rest.draw context.blockSize).1 ++
        withDelta (· + ·) (rest.draw context.blockSize).1 data,
        (rest.draw context.blockSize).2) := by
  have room : Bytes.checkRoom context.newChain.blockSize = .ok () :=
    ByteLaws.checkRoom_eq_ok.mpr roomy
  have begun : context.newChain.beginEncrypt rest =
      .ok ({ context.newChain with delta := (rest.draw context.blockSize).1 },
        (rest.draw context.blockSize).1, (rest.draw context.blockSize).2) := by
    unfold Chain.beginEncrypt
    rw [if_pos drawn, room]
    rfl
  have body := advance_blend { context.newChain with delta := (rest.draw context.blockSize).1 }
    drawn positive .encrypt context.cipher aligned context.config.workers
  simp only [Context.encrypt, written, ↓reduceIte, padded, begun, Chain.encrypt, body, bind,
    Except.bind, pure, Except.pure, blend]

theorem decryptPadded_blend {context : Context C} (drawn : context.newChain.mode = .randomDelta)
    (positive : 0 < context.blockSize) (full : delta.length = context.blockSize)
    (aligned : context.blockSize ∣ data.length) :
    context.decryptPadded (delta ++ withDelta (· + ·) delta data) = .ok data := by
  have present : delta ≠ [] := List.length_pos_iff.mp (full ▸ positive)
  obtain ⟨length, undone⟩ := ChainInversion.withDelta_undone present UInt8.add_sub_cancel data
  have complete : delta.length = context.newChain.headerLength := by
    unfold Chain.headerLength
    rw [if_pos drawn]
    exact full
  have begun : context.newChain.beginDecrypt delta =
      ({ context.newChain with delta := delta }, .ok ()) := by
    unfold Chain.beginDecrypt
    rw [if_neg (not_not_intro complete), if_pos drawn]
  rw [decryptPadded_eq (List.append_ne_nil_of_left_ne_nil present _) complete (length ▸ aligned)
    begun]
  have body := advance_blend { context.newChain with delta := delta } drawn positive .decrypt
    context.cipher (length ▸ aligned) context.config.workers
  exact body.trans (congrArg Except.ok undone)

/-- What a context of the mode encrypts it decrypts again, for blocks of any size, as long as the
padding fits the byte that tells its length. -/
theorem decrypt_encrypt_blend {context : Context C} (drawn : context.newChain.mode = .randomDelta)
    (positive : 0 < context.blockSize) (roomy : context.blockSize ≤ Bytes.maxLength)
    (marked : context.config.padding ≠ .zeros) (written : plaintext ≠ [])
    (short : context.blockSize - plaintext.length % context.blockSize ≤ Padding.maxLength)
    (source : Entropy) :
    ∃ ciphertext rest, context.encrypt plaintext source = .ok (ciphertext, rest) ∧
      context.decrypt ciphertext = .ok plaintext := by
  obtain ⟨needs, _, whole⟩ := needed_fills positive plaintext.length
  have padded := add_short context.config.padding positive plaintext short roomy source
  have removed := remove_filled context.config.padding needs short plaintext source
  have full := length_filling context.config.padding needs source
  rw [if_neg marked] at removed
  -- What the padding is made of does not matter any more, only how long it is.
  generalize Padding.filling context.config.padding _ source = filled at padded removed full
  have aligned : context.blockSize ∣ (plaintext ++ filled.1).length := by
    rw [List.length_append, full]
    exact whole
  refine ⟨_, _, encrypt_blend drawn positive roomy written padded aligned, ?_⟩
  unfold Context.decrypt
  rw [decryptPadded_blend drawn positive (length_draw _ _) aligned]
  exact removed

/-- Two contexts of the mode that pad alike to blocks of one size, over whatever ciphers, keys and
starting blocks: what the one makes of a message, the other makes of it under the same draws, and
they read every ciphertext alike. A message that is not empty comes back if its padding, unless it
is zeros, fits the byte that tells its length, and is refused by both for the length of its padding
if it does not. -/
theorem key_plays_no_part {cipher : C} {other : D} {sender : Context C} {receiver : Context D}
    {config settings : Config}
    (built : Context.withCipher cipher key iv config = .ok sender)
    (rebuilt : Context.withCipher other secret start settings = .ok receiver)
    (drawn : config.mode = .randomDelta) (redrawn : settings.mode = .randomDelta)
    (padding : config.padding = settings.padding)
    (blockSize : config.blockSize = settings.blockSize) :
    (∀ plaintext source, sender.encrypt plaintext source = receiver.encrypt plaintext source) ∧
    (∀ ciphertext, receiver.decrypt ciphertext = sender.decrypt ciphertext) ∧
    ∀ plaintext source, plaintext ≠ [] → config.padding ≠ .zeros →
      (config.blockSize - plaintext.length % config.blockSize ≤ Padding.maxLength →
        config.blockSize ≤ Bytes.maxLength →
        ∃ ciphertext rest, sender.encrypt plaintext source = .ok (ciphertext, rest) ∧
          receiver.decrypt ciphertext = .ok plaintext) ∧
      (Padding.maxLength < config.blockSize - plaintext.length % config.blockSize →
        sender.encrypt plaintext source = .error
          (.padding (.tooLong (config.blockSize - plaintext.length % config.blockSize)))) := by
  have twins := withCipher_twins built rebuilt drawn redrawn padding blockSize
  refine ⟨twins.encrypt_eq, twins.decrypt_eq, ?_⟩
  obtain ⟨positive, _⟩ := withCipher_eq built
  have settled := withCipher_config built
  subst settled
  intro plaintext source written marked
  constructor
  · intro short roomy
    simp only [twins.decrypt_eq]
    exact decrypt_encrypt_blend twins.drawn positive roomy marked written short source
  · intro long
    unfold Context.encrypt
    rw [if_neg written, Context.blockSize, add_long marked positive plaintext long source]
    rfl

/-- MAGENTA under a long key, and LOKI97 under a short one with a starting block besides. -/
theorem key_plays_no_part_across :
    ∃ sender receiver,
      Context.withCipher Magenta.standard (List.replicate 32 7) []
        { Config.sequential with mode := .randomDelta } = .ok sender ∧
      Context.withCipher Loki97.new (List.replicate 16 1) (List.replicate 16 9)
        { Config.parallel 4 with mode := .randomDelta } = .ok receiver ∧
      ∃ ciphertext rest, sender.encrypt [1, 2, 3] ⟨fun _ => 5, 0, 0⟩ = .ok (ciphertext, rest) ∧
        receiver.decrypt ciphertext = .ok [1, 2, 3] := by
  have built : Context.withCipher Magenta.standard (List.replicate 32 7) []
      { Config.sequential with mode := .randomDelta } = .ok _ := rfl
  have rebuilt : Context.withCipher Loki97.new (List.replicate 16 1) (List.replicate 16 9)
      { Config.parallel 4 with mode := .randomDelta } = .ok _ := rfl
  obtain ⟨_, _, onward⟩ := key_plays_no_part built rebuilt rfl rfl rfl rfl
  have written : ([1, 2, 3] : Bytes) ≠ [] := List.cons_ne_nil _ _
  have marked : Padding.pkcs7 ≠ .zeros := nofun
  exact ⟨_, _, built, rebuilt, (onward [1, 2, 3] _ written marked).1 (by decide) (by decide)⟩

/-- Blocks of any size, which every key leaves as they are. -/
structure Transparent where
  size : Nat

instance : BlockCipher Transparent where
  algorithm _ := .magenta
  blockSize cipher := cipher.size
  isKeyed _ := true
  setKey cipher _ := (cipher, .ok ())
  encryptBlock _ block := .ok block
  decryptBlock _ block := .ok block

/-- Two contexts that were made without complaint. Their blocks are too long for a message of one
byte to be padded, so nothing comes back from the other one. -/
theorem wide_blocks_refuse :
    ∃ sender receiver,
      Context.withCipher (⟨300⟩ : Transparent) (List.replicate 16 0) []
        { Config.sequential with mode := .randomDelta, blockSize := 300 } = .ok sender ∧
      Context.withCipher (⟨300⟩ : Transparent) (List.replicate 32 1) []
        { Config.sequential with mode := .randomDelta, blockSize := 300 } = .ok receiver ∧
      sender.encrypt [1] ⟨fun _ => 0, 0, 0⟩ = .error (.padding (.tooLong 299)) ∧
      ¬ ∃ ciphertext rest, sender.encrypt [1] ⟨fun _ => 0, 0, 0⟩ = .ok (ciphertext, rest) ∧
        receiver.decrypt ciphertext = .ok [1] := by
  refine ⟨_, _, rfl, rfl, rfl, ?_⟩
  rintro ⟨ciphertext, rest, encrypted, _⟩
  cases encrypted

end RoomCipher.KeylessDelta
