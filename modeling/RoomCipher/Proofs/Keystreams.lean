import Mathlib.Logic.Function.Iterate
import RoomCipher.Proofs.StreamTransfers

/-! The keystream of OFB and of counter mode. Each block of a message is combined with a block that
the cipher makes of the starting block and of the place in the message, and of nothing else. So a
cipher, a key and a starting block have a single keystream. Every message under them is covered by
the front of it, however it is cut and however many workers share it, and what two ciphertexts
differ in is what their messages differ in. -/
namespace RoomCipher.Keystreams
open BlockCipher ChainSteps ChainInversion CipherPermutation KeyedContexts PaddingLaws
open ContextRoundTrip StreamPieces StreamEncryption StreamTransfers ChannelRuns TransferFaults

variable {C : Type} [BlockCipher C] {cipher : C} {size : Nat} {iv : Bytes} {mode : Mode}

/-! ### Keystreams -/

/-- What the cipher makes of a block that it takes. -/
def scrambled (cipher : C) (block : Bytes) : Bytes :=
  (encryptBlock cipher block).toOption.getD []

/-- A block of the keystream. OFB goes on from the block before; all others are made of a count. -/
def keyBlock (cipher : C) (mode : Mode) (iv : Bytes) (number : Nat) : Bytes :=
  match mode with
  | .ofb => (scrambled cipher)^[number + 1] iv
  | _ => scrambled cipher (Bytes.addCounter iv (UInt64.ofNat number))

/-- The bytes of these blocks, one block after the other without end. -/
def keystream (cipher : C) (mode : Mode) (iv : Bytes) (i : Nat) : UInt8 :=
  (keyBlock cipher mode iv (i / iv.length)).getD (i % iv.length) 0

/-- Data under the front of a stream. -/
def masked (stream : Nat → UInt8) (data : Bytes) : Bytes :=
  data.mapIdx fun i b => b ^^^ stream i

theorem masked_append (stream : Nat → UInt8) (front back : Bytes) :
    masked stream (front ++ back) =
      masked stream front ++ masked (fun i => stream (i + front.length)) back := by
  unfold masked
  rw [List.mapIdx_append]

theorem encryptBlock_scrambled (permutes : Permutes cipher size) (full : block.length = size) :
    encryptBlock cipher block = .ok (scrambled cipher block) ∧
      (scrambled cipher block).length = size := by
  obtain ⟨out, answer, length, _⟩ := permutes.encrypts block full
  exact Outcomes.ok_getD (P := (List.length · = size)) ⟨out, answer, length⟩ []

theorem length_register (permutes : Permutes cipher size) (full : iv.length = size)
    (count : Nat) : ((scrambled cipher)^[count] iv).length = size := by
  induction count with
  | zero => exact full
  | succ count ih =>
    rw [Function.iterate_succ_apply']
    exact (encryptBlock_scrambled permutes ih).2

theorem length_keyBlock (permutes : Permutes cipher size) (full : iv.length = size) (mode : Mode)
    (number : Nat) : (keyBlock cipher mode iv number).length = size := by
  unfold keyBlock
  split
  · exact length_register permutes full (number + 1)
  · exact (encryptBlock_scrambled permutes ((length_addCounter iv _).trans full)).2

/-- A block of data and the block of the keystream for its place. -/
theorem xor_keyBlock (permutes : Permutes cipher size) (full : iv.length = size) (mode : Mode)
    (number : Nat) (width : block.length = size) :
    Bytes.xor block (keyBlock cipher mode iv number) =
      .ok (masked (fun i => keystream cipher mode iv (i + number * size)) block) := by
  have length := length_keyBlock permutes full mode number
  have same : block.length = (keyBlock cipher mode iv number).length := width.trans length.symm
  have zipped : List.zipWith (· ^^^ ·) block (keyBlock cipher mode iv number) =
      masked (fun i => keystream cipher mode iv (i + number * size)) block := by
    apply List.ext_getElem
    · simp [masked, same]
    · intro i inside _
      have below : i < size := by
        rw [List.length_zipWith, ← same, Nat.min_self, width] at inside
        exact inside
      have positive := Nat.zero_lt_of_lt below
      simp only [List.getElem_zipWith, masked, List.getElem_mapIdx, keystream, full,
        Nat.add_mul_div_right i number positive, Nat.div_eq_of_lt below, Nat.zero_add,
        Nat.add_mul_mod_self_right, Nat.mod_eq_of_lt below]
      rw [List.getD_eq_getElem?_getD, List.getElem?_eq_getElem (length.symm ▸ below),
        Option.getD_some]
  simp only [Bytes.xor, Bytes.checkLengths, same, ↓reduceIte, bind, Except.bind, pure, Except.pure,
    zipped]

/-! ### Chains -/

/-- A chain that has come to a block of the keystream. -/
structure Reached (cipher : C) (mode : Mode) (iv : Bytes) (number : Nat) (chain : Chain) :
    Prop where
  mode_eq : chain.mode = mode
  iv_eq : chain.iv = iv
  size_eq : chain.blockSize = iv.length
  delta_nil : chain.delta = []
  position_eq : chain.position = UInt64.ofNat number
  feedback_eq : mode = .ofb → chain.feedback = (scrambled cipher)^[number] iv

/-- Whatever is in a block, it is covered by the keystream and the chain goes on to the next. -/
theorem stepBlock_reached {chain : Chain} (permutes : Permutes cipher iv.length)
    (stream : mode = .ofb ∨ mode = .ctr) (reached : Reached cipher mode iv number chain)
    (full : block.length = iv.length) :
    ∃ next, stepBlock cipher .encrypt chain block =
        some (next, masked (fun i => keystream cipher mode iv (i + number * iv.length)) block) ∧
      Reached cipher mode iv (number + 1) next := by
  obtain ⟨mode_eq, iv_eq, size_eq, delta_nil, position_eq, feedback_eq⟩ := reached
  have counted : chain.position + 1 = UInt64.ofNat (number + 1) := by
    rw [position_eq, UInt64.ofNat_add]
    rfl
  have covered := xor_keyBlock permutes rfl mode number full
  generalize masked _ block = out at covered ⊢
  -- OFB has the block of the keystream in its register next, counter mode computes it on the spot.
  rcases stream with rfl | rfl
  · have register := feedback_eq rfl
    have width := length_register permutes rfl number
    rw [← register] at width
    have turned : keyBlock cipher .ofb iv number = scrambled cipher chain.feedback := by
      rw [register]
      exact Function.iterate_succ_apply' _ _ _
    rw [turned] at covered
    have outcome : blockOutcome cipher .encrypt chain block =
        (scrambled cipher chain.feedback, .ok out) := by
      unfold blockOutcome
      rw [mode_eq]
      simp only [Feedback.step, (encryptBlock_scrambled permutes width).1, covered]
    refine ⟨_, stepBlock_ok outcome, mode_eq, iv_eq, size_eq, delta_nil, counted, ?_⟩
    intro _
    rw [Function.iterate_succ_apply', ← register]
  · have width := length_addCounter iv (UInt64.ofNat number)
    have outcome : blockOutcome cipher .encrypt chain block = (chain.feedback, .ok out) := by
      unfold blockOutcome
      rw [mode_eq, iv_eq, position_eq]
      simp only [(encryptBlock_scrambled permutes width).1, bind, Except.bind]
      exact congrArg (Prod.mk _) covered
    refine ⟨_, stepBlock_ok outcome, mode_eq, iv_eq, size_eq, delta_nil, counted, ?_⟩
    intro chained
    cases chained

/-- Block after block, the data are covered by what comes next of the keystream. -/
theorem follow_reached {chain : Chain} (permutes : Permutes cipher iv.length)
    (stream : mode = .ofb ∨ mode = .ctr) (reached : Reached cipher mode iv number chain)
    (blocks : List Bytes) (full : ∀ block ∈ blocks, block.length = iv.length) :
    ∃ last, follow cipher .encrypt chain blocks =
        some (last,
          masked (fun i => keystream cipher mode iv (i + number * iv.length)) blocks.flatten) := by
  induction blocks generalizing chain number with
  | nil => exact ⟨chain, rfl⟩
  | cons block rest ih =>
    have width := full block List.mem_cons_self
    obtain ⟨next, first, onward⟩ := stepBlock_reached permutes stream reached width
    obtain ⟨last, later⟩ := ih onward fun other member => full other (List.mem_cons_of_mem _ member)
    have place : (fun i => keystream cipher mode iv (i + (number + 1) * iv.length)) =
        fun i => keystream cipher mode iv (i + block.length + number * iv.length) := by
      funext i
      rw [Nat.succ_mul, width]
      congr 1
      omega
    refine ⟨last, ?_⟩
    rw [List.flatten_cons, masked_append, ← place]
    simp only [follow, first, later, bind, Option.bind_some, pure]

/-- A part that starts where the keystream does is covered by the front of it, whoever works on
it. -/
theorem advance_masked {chain : Chain} (permutes : Permutes cipher iv.length)
    (positive : 0 < iv.length) (stream : mode = .ofb ∨ mode = .ctr)
    (reached : Reached cipher mode iv 0 chain) (aligned : iv.length ∣ data.length)
    (workers : Nat) :
    (chain.advance .encrypt cipher data workers).2 =
      .ok (masked (keystream cipher mode iv) data) := by
  obtain ⟨blocks, rfl, full⟩ := ByteLaws.exists_blocks aligned
  obtain ⟨last, followed⟩ := follow_reached permutes stream reached blocks full
  have delivers := advance_follows cipher .encrypt chain blocks.flatten workers
    (reached.size_eq ▸ positive) (.inl reached.delta_nil) (reached.size_eq ▸ aligned)
  simp only [Nat.zero_mul, Nat.add_zero] at followed
  rw [reached.size_eq, ByteLaws.pieces_flatten positive full, followed] at delivers
  exact congrArg Prod.snd (delivered_eq_some.mp delivers)

/-! ### Messages -/

variable {context : Context C}

theorem stream_mode (stream : mode = .ofb ∨ mode = .ctr) :
    mode.requiresIv = true ∧ mode ≠ .randomDelta := by
  rcases stream with rfl | rfl
  · exact ⟨rfl, nofun⟩
  · exact ⟨rfl, nofun⟩

theorem newChain_reached (sound : Sound context)
    (stream : context.config.mode = .ofb ∨ context.config.mode = .ctr) :
    context.iv.length = context.blockSize ∧
      Reached context.cipher context.config.mode context.iv 0 context.newChain := by
  have full := sound.iv_full (stream_mode stream).1
  exact ⟨full, rfl, rfl, full.symm, rfl, rfl, fun _ => rfl⟩

/-- Padded as ever and covered by the keystream: that is what every message comes to, whether it
arrives at once or in pieces. -/
theorem encrypt_masked (sound : Sound context)
    (stream : context.config.mode = .ofb ∨ context.config.mode = .ctr) (message : Bytes)
    (source : Entropy) :
    ∃ padded rest,
      context.config.padding.add context.blockSize message source = .ok (padded, rest) ∧
      (message ≠ [] → context.encrypt message source =
        .ok (masked (keystream context.cipher context.config.mode context.iv) padded, rest)) ∧
      ∀ pieces, pieces.flatten = message → encryptPieces context pieces source =
        .ok (masked (keystream context.cipher context.config.mode context.iv) padded, rest) := by
  obtain ⟨full, reached⟩ := newChain_reached sound stream
  have permutes := sound.permutes (stream_mode stream).2
  have begun := beginEncrypt_plain (stream_mode stream).2
  obtain ⟨tail, rest, padded, _, aligned, _⟩ :=
    add_fills context.config.padding sound.positive sound.narrow message source
  have covered := advance_masked (full ▸ permutes) (full ▸ sound.positive) stream reached
    (full ▸ aligned)
  refine ⟨message ++ tail, rest, padded, ?_, ?_⟩
  · intro written
    simp only [Context.encrypt, written, ↓reduceIte, padded, begun, Chain.encrypt, covered, bind,
      Except.bind, pure, Except.pure, List.nil_append]
  · rintro pieces rfl
    obtain ⟨_, body, _, whole, filled, out⟩ := encryptPieces_ok sound (begun source) pieces
    cases padded.symm.trans filled
    cases (covered context.config.workers).symm.trans out
    exact whole

/-! ### From a reader to a writer -/

/-- What a reader gives up to its end. Interruptions do not count. -/
def contents : Reader → Bytes
  | [] => []
  | .bytes data :: rest => if data = [] then [] else data ++ contents rest
  | .fault fault :: rest => if fault.kind = .interrupted then contents rest else []

theorem reads_flatten (positive : 0 < limit) (reader : Reader) :
    (reads limit reader).flatten = contents reader := by
  induction reader with
  | nil => rfl
  | cons event rest ih =>
    cases event with
    | fault fault =>
      unfold reads contents
      split
      · exact ih
      · rfl
    | bytes data =>
      unfold reads contents
      split
      · rfl
      · rw [List.flatten_append, ih, ByteLaws.flatten_pieces positive]

/-- A transfer that succeeds has written what the pieces come to in which it has read. -/
theorem encryptStream_pieces (sound : Sound context) (plain : context.config.mode ≠ .randomDelta)
    (positive : 0 < context.streamBuffer)
    (succeeded : context.encryptStream reader writer source = ⟨stop, .ok count⟩) :
    ∃ ciphertext rest,
      encryptPieces context (reads context.streamBuffer reader) source = .ok (ciphertext, rest) ∧
      stop.received = writer.received ++ ciphertext := by
  by_cases short : context.streamBuffer ≤ Bytes.maxLength
  · obtain ⟨last, outs, fed, _⟩ := feed_keeping (newChain_ready sound plain) rfl []
      (reads context.streamBuffer (withoutFaults reader))
    have carried := carry_carried positive fed (sealed source) writer
    rw [← encryptStream_carry plain (ByteLaws.checkRoom_eq_ok.mpr short), succeeded] at carried
    cases carried with
    | complete tail ended smooth =>
      obtain ⟨⟨ending, rest⟩, finalized, rfl⟩ := Outcomes.map_eq_ok.mp ended
      refine ⟨outs ++ ending, rest, ?_, ?_⟩
      · rw [(reads_withoutFaults context.streamBuffer reader).2 smooth.calm]
        simp only [encryptPieces, start_plain plain, fed, finalized, bind, Except.bind, pure,
          Except.pure]
      · rw [ended]
        rfl
  · rw [encryptStream_oversize plain (ByteLaws.checkRoom_oversize short)] at succeeded
    cases succeeded

/-! ### Two messages -/

/-- A message that a context has encrypted, and what it came to: at once, in pieces as they were
handed on, or from a reader to a writer, if there was a buffer to read into. -/
inductive Sent (context : Context C) (source : Entropy) : Bytes → Bytes → Prop
  | whole (message ciphertext : Bytes) (rest : Entropy)
    (answer : context.encrypt message source = .ok (ciphertext, rest)) :
    Sent context source message ciphertext
  | pieces (pieces : List Bytes) (ciphertext : Bytes) (rest : Entropy)
    (answer : encryptPieces context pieces source = .ok (ciphertext, rest)) :
    Sent context source pieces.flatten ciphertext
  | transferred (reader : Reader) (writer stop : Writer) (count : Nat) (ciphertext : Bytes)
    (buffered : 0 < context.streamBuffer)
    (answer : context.encryptStream reader writer source = ⟨stop, .ok count⟩)
    (received : stop.received = writer.received ++ ciphertext) :
    Sent context source (contents reader) ciphertext

theorem Sent.covered (sent : Sent context source message ciphertext) (sound : Sound context)
    (stream : context.config.mode = .ofb ∨ context.config.mode = .ctr) :
    ∃ padded rest,
      context.config.padding.add context.blockSize message source = .ok (padded, rest) ∧
      ciphertext = masked (keystream context.cipher context.config.mode context.iv) padded := by
  obtain ⟨padded, rest, filled, whole, inPieces⟩ := encrypt_masked sound stream message source
  refine ⟨padded, rest, filled, ?_⟩
  cases sent with
  | whole _ _ left answer =>
    have written : message ≠ [] := by
      rintro rfl
      cases answer
    cases (whole written).symm.trans answer
    rfl
  | pieces pieces _ left answer =>
    cases (inPieces pieces rfl).symm.trans answer
    rfl
  | transferred reader writer stop count _ buffered answer received =>
    obtain ⟨written, left, same, reached⟩ :=
      encryptStream_pieces sound (stream_mode stream).2 buffered answer
    cases (inPieces _ (reads_flatten buffered reader)).symm.trans same
    exact List.append_cancel_left (received.symm.trans reached)

end RoomCipher.Keystreams
