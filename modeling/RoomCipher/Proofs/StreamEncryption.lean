import RoomCipher.Proofs.ContextRoundTrip
import RoomCipher.Proofs.StreamPieces

/-! Encryption in pieces. At any time the blocks that have arrived in full have gone
through the chain, and the rest is pending; the header goes out with the first
piece, or at the end if there was none. So the pieces come to the same as the whole
message, and where nothing is drawn, to the very same bytes. -/
namespace RoomCipher.StreamEncryption
open ChainInversion KeyedContexts PaddingLaws ContextRoundTrip StreamPieces

variable {C : Type} [BlockCipher C]

/-- Where an encryptor stands that started from a chain and a header: of what has arrived, `done`
has gone through the chain, and the rest is pending. -/
structure Keeping (context : Context C) (chain : Chain) (header : Bytes) (state : Encryptor C)
    (seen out : Bytes) : Prop where
  context_eq : state.context = context
  ready : Ready context.cipher state.chain
  blockSize_eq : state.chain.blockSize = context.blockSize
  reached : ∃ done body, seen = done ++ state.pending ∧ context.blockSize ∣ done.length ∧
    (∀ workers, chain.encrypt context.cipher done workers = (state.chain, .ok body)) ∧
    out ++ state.header = header ++ body

theorem update_keeps {context : Context C} {chain : Chain} (ready : Ready context.cipher chain)
    (size : chain.blockSize = context.blockSize) {state : Encryptor C} (piece : Bytes)
    (kept : Keeping context chain header state seen out) :
    ∃ next more, state.update piece = (next, .ok more) ∧
      Keeping context chain header next (seen ++ piece) (out ++ more) := by
  obtain ⟨rfl, current, current_size, done, body, rfl, aligned, so_far, given⟩ := kept
  -- With this piece so many bytes of what is pending belong to blocks that are complete.
  generalize count : (state.pending ++ piece).length / state.context.blockSize *
    state.context.blockSize = complete
  have whole : state.context.blockSize ∣ ((state.pending ++ piece).take complete).length := by
    rw [List.length_take, ← count, Nat.min_eq_left (Nat.div_mul_le_self _ _)]
    exact Nat.dvd_mul_left _ _
  obtain ⟨last, more, forth, last_ready, last_size, _, _⟩ :=
    advance_undone current .encrypt (current_size ▸ whole)
  have together := advance_continued ready so_far forth (size ▸ aligned) (size ▸ whole)
  refine ⟨{ state with
      chain := last
      pending := (state.pending ++ piece).drop complete
      header := [] }, state.header ++ more, ?_, rfl, last_ready, last_size.trans current_size,
    done ++ (state.pending ++ piece).take complete, body ++ more, ?_, ?_, together, ?_⟩
  · simp only [Encryptor.update, count, Chain.encrypt, forth, Except.map]
  · simp only [List.append_assoc, List.take_append_drop]
  · rw [List.length_append]
    exact Nat.dvd_add aligned whole
  · rw [List.append_nil, ← List.append_assoc, given, List.append_assoc]

/-- The end of the message completes what the pieces began. -/
theorem finalize_keeps {context : Context C} (sound : Sound context) {chain : Chain}
    (ready : Ready context.cipher chain) (size : chain.blockSize = context.blockSize)
    {state : Encryptor C} (kept : Keeping context chain header state seen out) (source : Entropy) :
    ∃ tail padded body rest, state.finalize source = .ok (tail, rest) ∧
      context.config.padding.add context.blockSize seen source = .ok (padded, rest) ∧
      (chain.encrypt context.cipher padded context.config.workers).2 = .ok body ∧
      out ++ tail = header ++ body := by
  obtain ⟨rfl, current, current_size, done, body, rfl, aligned, so_far, given⟩ := kept
  obtain ⟨filling, rest, padded, _, whole, _, _⟩ :=
    add_fills state.context.config.padding sound.positive sound.narrow state.pending source
  have both := add_append state.context.config.padding aligned state.pending source
  rw [padded] at both
  obtain ⟨last, tail, forth, _, _, _, _⟩ :=
    advance_undone current .encrypt (current_size ▸ whole)
  have together := advance_continued ready so_far forth (size ▸ aligned) (size ▸ whole)
  refine ⟨state.header ++ tail, done ++ (state.pending ++ filling), body ++ tail, rest, ?_, both,
    congrArg Prod.snd (together _), ?_⟩
  · simp only [Encryptor.finalize, padded, Chain.encrypt, forth, bind, Except.bind, pure,
      Except.pure]
  · rw [← List.append_assoc, given, List.append_assoc]

/-- An encryptor takes every piece of a message. -/
theorem feed_keeping {context : Context C} {chain : Chain} (ready : Ready context.cipher chain)
    (size : chain.blockSize = context.blockSize) (header : Bytes) (pieces : List Bytes) :
    ∃ state front, feed Encryptor.update ⟨context, chain, [], header⟩ pieces = .ok (state, front) ∧
      Keeping context chain header state pieces.flatten front := by
  have idle := ChainSteps.advance_nil context.cipher .encrypt ready.positive ready.delta_fits
  have fresh : Keeping context chain header ⟨context, chain, [], header⟩ [] [] :=
    ⟨rfl, ready, size, [], [], rfl, Nat.dvd_zero _, idle, by simp⟩
  obtain ⟨state, front, fed, kept⟩ := feed_keeps (Keeping context chain header)
    (fun _ _ _ piece kept => update_keeps ready size piece kept) pieces _ _ _ fresh
  rw [List.nil_append, List.nil_append] at kept
  exact ⟨state, front, fed, kept⟩

/-- In every mode and under every padding, pieces come to what the whole message comes to from the
same chain and header, with the padding drawn after the header. -/
theorem encryptPieces_ok {context : Context C} (sound : Sound context) {chain : Chain}
    (begun : context.newChain.beginEncrypt source = .ok (chain, header, drawn))
    (pieces : List Bytes) :
    ∃ padded body rest, encryptPieces context pieces source = .ok (header ++ body, rest) ∧
      context.config.padding.add context.blockSize pieces.flatten drawn = .ok (padded, rest) ∧
      (chain.encrypt context.cipher padded context.config.workers).2 = .ok body := by
  obtain ⟨_, _, _, again, complete, answered⟩ := beginEncrypt_ready sound source
  cases begun.symm.trans again
  obtain ⟨ready, size⟩ := begun_ready sound complete answered
  obtain ⟨state, front, fed, kept⟩ := feed_keeping ready size header pieces
  obtain ⟨tail, padded, body, rest, ended, filled, whole, joined⟩ :=
    finalize_keeps sound ready size kept drawn
  refine ⟨padded, body, rest, ?_, filled, whole⟩
  simp only [encryptPieces, Encryptor.start, begun, fed, ended, joined, bind, Except.bind, pure,
    Except.pure]

/-- Where neither the mode nor the padding draws anything, a message encrypted in pieces, in any
pieces, is byte for byte the message encrypted as a whole. -/
theorem encryptPieces_eq_encrypt [KeyedCipher C] {cipher : C} {context : Context C}
    (usable : Usable cipher config.mode)
    (built : Context.withCipher cipher key iv config = .ok context)
    (plain : config.mode ≠ .randomDelta) (determined : config.padding ≠ .iso10126)
    {pieces : List Bytes} (written : pieces.flatten ≠ []) :
    ∃ ciphertext, ∀ source, encryptPieces context pieces source = .ok (ciphertext, source) ∧
      context.encrypt pieces.flatten source = .ok (ciphertext, source) := by
  have sound := withCipher_sound usable built
  rw [← withCipher_config built] at plain determined
  have begun (source : Entropy) :
      context.newChain.beginEncrypt source = .ok (context.newChain, [], source) := if_neg plain
  obtain ⟨filling, _, _, _, aligned, _, alike⟩ := add_fills context.config.padding sound.positive
    sound.narrow pieces.flatten ⟨fun _ => 0, 0, 0⟩
  have padded := alike determined
  obtain ⟨last, body, forth, _, _, _, _⟩ :=
    advance_undone (newChain_ready sound plain) .encrypt aligned
  refine ⟨body, fun source => ⟨?_, ?_⟩⟩
  · obtain ⟨_, _, _, whole, filled, out⟩ := encryptPieces_ok sound (begun source) pieces
    cases (padded source).symm.trans filled
    cases (congrArg Prod.snd (forth context.config.workers)).symm.trans out
    exact whole
  · simp only [Context.encrypt, written, ↓reduceIte, padded, begun, Chain.encrypt, forth, bind,
      Except.bind, pure, Except.pure, List.nil_append]

/-- A message in three pieces, one of them empty, in counter mode. -/
theorem encryptPieces_eq_encrypt_counted :
    ∃ context, Context.withCipher Loki97.new (List.replicate 16 1) (List.replicate 16 2)
        (Config.parallel 4) = .ok context ∧
      ∃ ciphertext, ∀ source,
        encryptPieces context [[1, 2], [], [3]] source = .ok (ciphertext, source) ∧
        context.encrypt [1, 2, 3] source = .ok (ciphertext, source) := by
  have built : Context.withCipher Loki97.new (List.replicate 16 1) (List.replicate 16 2)
      (Config.parallel 4) = .ok _ := rfl
  have written : ([[1, 2], [], [3]] : List Bytes).flatten ≠ [] := by decide
  exact ⟨_, built,
    encryptPieces_eq_encrypt (fun _ => trivial) built (by decide) (by decide) written⟩

end RoomCipher.StreamEncryption
