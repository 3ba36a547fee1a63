import RoomCipher.Proofs.SilentContexts

/-! Decryption in pieces. Once the header is there, a decryptor lets out what it has
decrypted but for the last two blocks, and takes the padding off these alone. What
it lets out and what it holds back are together the decryption of everything. So it
agrees with decryption as a whole exactly as long as no padding is longer than two
blocks, and nothing keeps the padding of a ciphertext that short. -/
namespace RoomCipher.StreamDecryption
open ChainInversion KeyedContexts PaddingLaws ContextRoundTrip ContextAnswers StreamPieces

variable {C : Type} [BlockCipher C] {context : Context C}

/-- A decryptor that has read its header: of the ciphertext that has arrived, `done` has been
decrypted to `out`, and the rest is pending. -/
structure Begun (context : Context C) (state : Decryptor C) (seen out : Bytes) : Prop where
  context_eq : state.context = context
  headerRead : state.headerRead = true
  ready : Ready context.cipher state.chain
  blockSize_eq : state.chain.blockSize = context.blockSize
  reached : ∃ header chain done, header.length = context.newChain.headerLength ∧
    context.newChain.beginDecrypt header = (chain, .ok ()) ∧
    seen = header ++ (done ++ state.pending) ∧ context.blockSize ∣ done.length ∧
    (∀ workers, chain.decrypt context.cipher done workers = (state.chain, .ok out)) ∧
    (done = [] ∨ 2 * context.blockSize ≤ state.pending.length)

/-- A decryptor that has only collected what has arrived. -/
def collecting (context : Context C) (pending : Bytes) : Decryptor C :=
  ⟨context, context.newChain, pending, context.newChain.headerLength == 0⟩

/-- Where a decryptor stands between two pieces: it waits for its header, or holds back less than
three blocks. -/
inductive Holding (context : Context C) (state : Decryptor C) : Bytes → Bytes → Prop where
  | waiting (short : state.pending.length < context.newChain.headerLength)
      (fresh : state = collecting context state.pending) :
      Holding context state state.pending []
  | begun (begun : Begun context state seen out)
      (held : state.pending.length < 3 * context.blockSize) : Holding context state seen out

omit [BlockCipher C] in
theorem readHeader_done {state : Decryptor C} (read : state.headerRead = true) :
    state.readHeader = state := by
  simp only [Decryptor.readHeader, read, not_true_eq_false, false_and, ↓reduceIte]

omit [BlockCipher C] in
theorem readHeader_short {state : Decryptor C}
    (short : state.pending.length < state.chain.headerLength) : state.readHeader = state := by
  simp only [Decryptor.readHeader, Nat.not_le.mpr short, and_false, ↓reduceIte]

/-- The header of all that has arrived starts the chain. -/
theorem readHeader_begins (sound : Sound context) {pending : Bytes}
    (long : context.newChain.headerLength ≤ pending.length) :
    Begun context (collecting context pending).readHeader pending [] := by
  have complete : (pending.take context.newChain.headerLength).length =
      context.newChain.headerLength := by
    rw [List.length_take, Nat.min_eq_left long]
  obtain ⟨chain, answered, ready, size⟩ := beginDecrypt_ready sound complete
  have whole := (List.take_append_drop context.newChain.headerLength pending).symm
  have idle := ChainSteps.advance_nil context.cipher .decrypt ready.positive ready.delta_fits
  by_cases drawn : context.config.mode = .randomDelta
  · have length : context.newChain.headerLength = context.blockSize :=
      (headerLength_eq context).trans (if_pos drawn)
    have unread : (context.newChain.headerLength == 0) = false :=
      beq_false_of_ne (length ▸ Nat.ne_of_gt sound.positive)
    simp only [collecting, Decryptor.readHeader, unread, long, Bool.false_eq_true,
      not_false_eq_true, and_self, ↓reduceIte, answered]
    exact ⟨rfl, rfl, ready, size, _, chain, [], complete, answered, whole, Nat.dvd_zero _, idle,
      .inl rfl⟩
  · have length : context.newChain.headerLength = 0 :=
      (headerLength_eq context).trans (if_neg drawn)
    have same : chain = context.newChain := by
      simp only [length, List.take_zero, Chain.beginDecrypt, List.length_nil, ne_eq,
        not_true_eq_false, ↓reduceIte] at answered
      have plain : context.newChain.mode ≠ .randomDelta := drawn
      simpa [plain] using (congrArg Prod.fst answered).symm
    have read : (collecting context pending).headerRead = true := by simp [collecting, length]
    rw [readHeader_done read]
    rw [same] at ready size idle answered
    exact ⟨rfl, read, ready, size, _, _, [], complete, answered, by simp [collecting, length],
      Nat.dvd_zero _, idle, .inl rfl⟩

/-- More of the ciphertext has arrived. -/
theorem Begun.arrive {state : Decryptor C} (begun : Begun context state seen out) (piece : Bytes) :
    Begun context { state with pending := state.pending ++ piece } (seen ++ piece) out := by
  obtain ⟨same, read, ready, size, header, chain, done, complete, answered, rfl, aligned, so_far,
    held⟩ := begun
  refine ⟨same, read, ready, size, header, chain, done, complete, answered, by simp, aligned,
    so_far, held.imp_right fun enough => ?_⟩
  rw [List.length_append]
  exact Nat.le_trans enough (Nat.le_add_right _ _)

/-- What a decryptor that has read its header makes of all that is pending. -/
def release (state : Decryptor C) : Decryptor C × Except Error Bytes :=
  let size := state.context.blockSize
  let ready := (state.pending.length - 2 * size) / size * size
  let (chain, result) := state.chain.decrypt state.context.cipher (state.pending.take ready)
    state.context.config.workers
  ({ state with chain := chain, pending := state.pending.drop ready }, result)

theorem update_arrived {state arrived : Decryptor C}
    (header : { state with pending := state.pending ++ piece }.readHeader = arrived)
    (read : arrived.headerRead = true) : state.update piece = release arrived := by
  rw [Decryptor.update, header]
  exact if_pos read

theorem update_waiting {state arrived : Decryptor C}
    (header : { state with pending := state.pending ++ piece }.readHeader = arrived)
    (unread : ¬ arrived.headerRead = true) : state.update piece = (arrived, .ok []) := by
  rw [Decryptor.update, header]
  exact if_neg unread

/-- All that is pending is let out up to the last two blocks. -/
theorem release_holds (sound : Sound context) {state : Decryptor C}
    (begun : Begun context state seen out) :
    ∃ next more, release state = (next, .ok more) ∧ Holding context next seen (out ++ more) := by
  obtain ⟨rfl, read, ready, size, header, chain, done, complete, answered, rfl, aligned, so_far,
    held⟩ := begun
  obtain ⟨start_ready, start_size⟩ := begun_ready sound complete answered
  generalize count : (state.pending.length - 2 * state.context.blockSize) /
    state.context.blockSize * state.context.blockSize = released
  have below : released ≤ state.pending.length - 2 * state.context.blockSize :=
    count ▸ Nat.div_mul_le_self _ _
  have above : state.pending.length - 2 * state.context.blockSize <
      released + state.context.blockSize := count ▸ Nat.lt_div_mul_add sound.positive
  have whole : state.context.blockSize ∣ (state.pending.take released).length := by
    rw [List.length_take, Nat.min_eq_left (by omega), ← count]
    exact Nat.dvd_mul_left _ _
  obtain ⟨last, more, forth, last_ready, last_size, _, _⟩ :=
    advance_undone ready .decrypt (size ▸ whole)
  have together := advance_continued start_ready so_far forth (start_size ▸ aligned)
    (start_size ▸ whole)
  refine ⟨{ state with chain := last, pending := state.pending.drop released }, more, ?_,
    .begun ⟨rfl, read, last_ready, last_size.trans size, header, chain,
      done ++ state.pending.take released, complete, answered, by simp, ?_, together, ?_⟩ ?_⟩
  · simp only [release, count, Chain.decrypt, forth]
  · rw [List.length_append]
    exact Nat.dvd_add aligned whole
  · by_cases enough : 2 * state.context.blockSize ≤ state.pending.length
    · right
      rw [List.length_drop]
      omega
    · left
      have none_yet : released = 0 := by omega
      simp [held.resolve_right enough, none_yet]
  · rw [List.length_drop]
    omega

/-- What one more piece brings. -/
theorem update_holds (sound : Sound context) {state : Decryptor C} (piece : Bytes)
    (holding : Holding context state seen out) :
    ∃ next more, state.update piece = (next, .ok more) ∧
      Holding context next (seen ++ piece) (out ++ more) := by
  cases holding with
  | begun begun held =>
    have arrived := begun.arrive piece
    rw [update_arrived (readHeader_done arrived.headerRead) arrived.headerRead]
    exact release_holds sound arrived
  | waiting short fresh =>
    rw [fresh]
    by_cases long : context.newChain.headerLength ≤ (state.pending ++ piece).length
    · have begun := readHeader_begins sound long
      rw [update_arrived rfl begun.headerRead]
      exact release_holds sound begun
    · have unread : ¬ (collecting context (state.pending ++ piece)).headerRead := by
        simp only [collecting, beq_iff_eq]
        omega
      rw [update_waiting (readHeader_short (Nat.lt_of_not_le long)) unread]
      exact ⟨_, [], rfl, .waiting (Nat.lt_of_not_le long) rfl⟩

/-! ### The end of the ciphertext -/

theorem start_holds (sound : Sound context) :
    Holding context (Decryptor.start context) [] [] := by
  by_cases absent : context.newChain.headerLength = 0
  · have all_there : context.newChain.headerLength ≤ ([] : Bytes).length := Nat.le_of_eq absent
    have begun := readHeader_begins sound all_there
    have read : (collecting context []).headerRead = true := by simp [collecting, absent]
    rw [readHeader_done read] at begun
    exact .begun begun (Nat.mul_pos (by decide) sound.positive)
  · exact .waiting (Nat.pos_of_ne_zero absent) rfl

theorem finalize_waiting {state : Decryptor C}
    (short : state.pending.length < context.newChain.headerLength)
    (fresh : state = collecting context state.pending) :
    state.finalize = .error Chain.headerMissing := by
  have unread : ¬ (collecting context state.pending).headerRead = true := by
    simp only [collecting, beq_iff_eq]
    omega
  rw [fresh, Decryptor.finalize, readHeader_short short]
  exact if_pos unread

theorem finalize_misaligned {state : Decryptor C} (read : state.headerRead = true)
    (uneven : state.pending.length % state.context.blockSize ≠ 0) :
    state.finalize = .error (.data
      s!"ciphertext is not a multiple of the block size {state.context.blockSize}") := by
  rw [Decryptor.finalize, readHeader_done read]
  simp only [read, not_true_eq_false, ↓reduceIte, uneven, not_false_eq_true, ne_eq]

theorem finalize_tail {state : Decryptor C} (read : state.headerRead = true)
    (aligned : state.pending.length % state.context.blockSize = 0)
    (ended : ∀ workers,
      state.chain.decrypt state.context.cipher state.pending workers = (last, .ok tail)) :
    state.finalize = state.context.config.padding.remove tail := by
  rw [Decryptor.finalize, readHeader_done read]
  simp only [read, not_true_eq_false, ↓reduceIte, aligned, ne_eq, ended, bind, Except.bind]

theorem two_blocks {size length : Nat} (few : length < 3 * size)
    (aligned : size ∣ length) : length ≤ 2 * size := by
  obtain ⟨count, rfl⟩ := aligned
  rw [Nat.mul_comm size count] at few ⊢
  exact Nat.mul_le_mul_right size (Nat.le_of_lt_succ (Nat.lt_of_mul_lt_mul_right few))

/-- Whole blocks that are pending complete the decryption of all that has arrived, and the padding
is looked for in them. -/
theorem Begun.completed (sound : Sound context) {state : Decryptor C}
    (begun : Begun context state seen out) (whole : context.blockSize ∣ state.pending.length) :
    ∃ header body chain tail, seen = header ++ body ∧
      header.length = context.newChain.headerLength ∧
      context.newChain.beginDecrypt header = (chain, .ok ()) ∧ context.blockSize ∣ body.length ∧
      (∀ workers, (chain.decrypt context.cipher body workers).2 = .ok (out ++ tail)) ∧
      (out ++ tail).length = body.length ∧ tail.length = state.pending.length ∧
      (out = [] ∨ 2 * context.blockSize ≤ state.pending.length) ∧
      state.finalize = context.config.padding.remove tail := by
  obtain ⟨rfl, read, ready, size, header, chain, done, complete, answered, rfl, aligned, so_far,
    held⟩ := begun
  obtain ⟨start_ready, start_size⟩ := begun_ready sound complete answered
  obtain ⟨last, tail, forth, _, _, length, _⟩ := advance_undone ready .decrypt (size ▸ whole)
  have together := advance_continued start_ready so_far forth (start_size ▸ aligned)
    (start_size ▸ whole)
  obtain ⟨_, _, again, _, _, out_length, _⟩ :=
    advance_undone start_ready .decrypt (start_size ▸ aligned)
  cases (so_far 0).symm.trans (again 0)
  refine ⟨header, done ++ state.pending, chain, tail, rfl, complete, answered, ?_,
    fun workers => congrArg Prod.snd (together workers), ?_, length, held.imp_left ?_,
    finalize_tail read (Nat.mod_eq_zero_of_dvd whole) forth⟩
  · rw [List.length_append]
    exact Nat.dvd_add aligned whole
  · rw [List.length_append, List.length_append, out_length, length]
  · rintro rfl
    exact List.eq_nil_of_length_eq_zero out_length

/-- The two ways a ciphertext may end: it is no message at all, or its decryption is what was let
out followed by the padded blocks that were held back. -/
theorem finalize_holds (sound : Sound context) {state : Decryptor C}
    (holding : Holding context state seen out) :
    (∃ tail, context.decryptPadded seen = .ok (out ++ tail) ∧
      tail.length ≤ 2 * context.blockSize ∧ (out = [] ∨ tail.length = 2 * context.blockSize) ∧
      state.finalize = context.config.padding.remove tail) ∨
    (∃ whole parts, context.decryptPadded seen = .error whole ∧ state.finalize = .error parts) := by
  cases holding with
  | waiting short fresh =>
    have unshaped : ¬ Shaped context state.pending :=
      fun shaped => Nat.not_le_of_lt short shaped.headed
    obtain ⟨_, refused⟩ := decryptPadded_unshaped unshaped
    exact .inr ⟨_, _, refused, finalize_waiting short fresh⟩
  | begun begun few =>
    by_cases whole : context.blockSize ∣ state.pending.length
    · have few := two_blocks few whole
      obtain ⟨header, body, chain, tail, rfl, complete, answered, aligned, forth, lengths, length,
        held, ended⟩ := begun.completed sound whole
      rw [← length] at few held
      by_cases written : header ++ body = []
      · obtain ⟨rfl, rfl⟩ := List.append_eq_nil_iff.mp written
        have nothing : out ++ tail = [] := List.eq_nil_of_length_eq_zero lengths
        rw [(List.append_eq_nil_iff.mp nothing).2] at ended
        exact .inr ⟨_, _, rfl, ended⟩
      · refine .inl ⟨tail, ?_, few, held.imp_right (Nat.le_antisymm few), ended⟩
        rw [decryptPadded_eq written complete aligned answered]
        exact forth _
    · have uneven : state.pending.length % context.blockSize ≠ 0 :=
        fun even => whole (Nat.dvd_of_mod_eq_zero even)
      obtain ⟨rfl, read, _, _, header, _, done, complete, _, rfl, aligned, _, _⟩ := begun
      have unshaped : ¬ Shaped state.context (header ++ (done ++ state.pending)) := by
        intro shaped
        have even := shaped.aligned
        rw [List.drop_left' complete, List.length_append] at even
        exact whole ((Nat.dvd_add_right aligned).mp even)
      obtain ⟨_, refused⟩ := decryptPadded_unshaped unshaped
      exact .inr ⟨_, _, refused, finalize_misaligned read uneven⟩

/-- A decryptor takes every piece of a ciphertext. -/
theorem feed_holds (sound : Sound context) (pieces : List Bytes) :
    ∃ state front,
      feed Decryptor.update (Decryptor.start context) pieces = .ok (state, front) ∧
        Holding context state pieces.flatten front := by
  obtain ⟨state, front, fed, holding⟩ := feed_keeps (Holding context)
    (fun _ _ _ piece holding => update_holds sound piece holding) pieces _ _ _ (start_holds sound)
  rw [List.nil_append, List.nil_append] at holding
  exact ⟨state, front, fed, holding⟩

/-- Either the ciphertext is no message at all, or it ends in the padded blocks that were held
back. -/
theorem decryptPieces_outcome (sound : Sound context) (pieces : List Bytes) :
    (∃ front tail, context.decryptPadded pieces.flatten = .ok (front ++ tail) ∧
      tail.length ≤ 2 * context.blockSize ∧
      (front = [] ∨ tail.length = 2 * context.blockSize) ∧
      decryptPieces context pieces = (context.config.padding.remove tail).map (front ++ ·)) ∨
    (∃ whole parts, context.decryptPadded pieces.flatten = .error whole ∧
      decryptPieces context pieces = .error parts) := by
  obtain ⟨state, front, fed, holding⟩ := feed_holds sound pieces
  rcases finalize_holds sound holding with ⟨tail, whole, few, held, ended⟩ |
    ⟨whole, parts, refused, ended⟩
  · refine .inl ⟨front, tail, whole, few, held, ?_⟩
    simp only [decryptPieces, fed, ended, bind, Except.bind, pure, Except.pure]
    cases context.config.padding.remove tail <;> rfl
  · refine .inr ⟨whole, parts, refused, ?_⟩
    simp only [decryptPieces, fed, ended, bind, Except.bind]

/-- Decryption in pieces gives what decryption as a whole gives, and fails where it fails, exactly
if the latter never takes off more than two blocks. -/
theorem decryptPieces_agrees_iff [KeyedCipher C] {cipher : C}
    (built : Context.withCipher cipher key iv config = .ok context) (pieces : List Bytes) :
    (∀ message, context.decrypt pieces.flatten = .ok message ↔
      decryptPieces context pieces = .ok message) ↔
    ∀ padded, context.decryptPadded pieces.flatten = .ok padded →
      ∀ message, context.decrypt pieces.flatten = .ok message →
        padded.length ≤ message.length + 2 * context.blockSize := by
  rcases SilentContexts.sound_or_silent built with sound | silent
  case inr =>
    refine iff_of_true (fun message => ?_) fun padded decrypted => ?_
    · exact iff_of_false (silent.decrypt _ message) (silent.decryptPieces pieces message)
    · exact absurd decrypted (silent.decryptPadded _ padded)
  rcases decryptPieces_outcome sound pieces with ⟨front, tail, whole, few, held, parts⟩ |
    ⟨whole, parts, refused, failed⟩
  · have removed : context.decrypt pieces.flatten =
        context.config.padding.remove (front ++ tail) := by
      rw [Context.decrypt, whole]
      rfl
    have reach (message : Bytes) : front.length ≤ message.length ↔
        (front ++ tail).length ≤ message.length + 2 * context.blockSize := by
      rw [List.length_append]
      rcases held with rfl | full
      · simp only [List.length_nil]
        omega
      · omega
    simp only [removed, parts, whole, Except.ok.injEq, forall_eq']
    by_cases written : tail = []
    · subst written
      have nothing : front = [] := by
        refine held.resolve_right fun full => ?_
        have positive := sound.positive
        simp only [List.length_nil] at full
        omega
      subst nothing
      simp [Padding.remove, Except.map]
    · simp only [remove_agrees_iff front written, reach]
  · have removed : context.decrypt pieces.flatten = .error whole := by
      rw [Context.decrypt, refused]
      rfl
    simp [removed, failed]

/-- What MAGENTA makes of a block of zeros under a key of zeros. -/
def zeroBlock : Bytes :=
  [0x00, 0x10, 0x64, 0x62, 0x95, 0x9e, 0xae, 0x52, 0x00, 0xb0, 0x39, 0x5a, 0x77, 0x5b, 0xa9, 0x5f]

/-- Blocks on their own, filled up with zeros. -/
def zeroConfig : Config := { Config.sequential with mode := .ecb, padding := .zeros }

/-- Three blocks of zeros are all padding, but one of them has been let out before that is known. -/
theorem decryptPieces_keeps_zeros :
    ∃ context,
      Context.withCipher Magenta.standard (List.replicate 16 0) [] zeroConfig = .ok context ∧
      context.decrypt [zeroBlock, zeroBlock, zeroBlock].flatten = .ok [] ∧
      decryptPieces context [zeroBlock, zeroBlock, zeroBlock] = .ok (List.replicate 16 0) := by
  exact ⟨_, rfl, by decide +kernel, by decide +kernel⟩

/-- The agreement is lost on three blocks of zeros. -/
theorem decryptPieces_agrees_iff_zeros :
    ∃ context,
      Context.withCipher Magenta.standard (List.replicate 16 0) [] zeroConfig = .ok context ∧
      ((∀ message, context.decrypt [zeroBlock, zeroBlock, zeroBlock].flatten = .ok message ↔
        decryptPieces context [zeroBlock, zeroBlock, zeroBlock] = .ok message) ↔
      ∀ padded, context.decryptPadded [zeroBlock, zeroBlock, zeroBlock].flatten = .ok padded →
        ∀ message, context.decrypt [zeroBlock, zeroBlock, zeroBlock].flatten = .ok message →
          padded.length ≤ message.length + 2 * context.blockSize) := by
  have built : Context.withCipher Magenta.standard (List.replicate 16 0) [] zeroConfig =
      .ok _ := rfl
  exact ⟨_, built,
    decryptPieces_agrees_iff built [zeroBlock, zeroBlock, zeroBlock]⟩

end RoomCipher.StreamDecryption
