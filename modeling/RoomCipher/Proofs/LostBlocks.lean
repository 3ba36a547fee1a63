import RoomCipher.Proofs.FailedParts
import RoomCipher.Proofs.GenuineCiphertexts
import RoomCipher.Proofs.KeylessDelta
import RoomCipher.Proofs.StreamCuts

/-! What a decryptor lets out that is not told to stop when it fails. Up to the first call that
fails it lets out the front of the plaintext, and some call does fail if a block cannot be
decrypted. But the blocks of that call are not pending any more. Whoever goes on has the next
ones decrypted as if there were nothing between them and what was let out before. -/
namespace RoomCipher.LostBlocks
open Chain ChainSteps FailedParts StreamDecryption StreamCuts

variable {C : Type} [BlockCipher C] {context : Context C}

/-- Block number `k` of a ciphertext is the first that cannot be decrypted, and those before it are
decrypted to `plain`. -/
structure FailsAt (context : Context C) (ciphertext : Bytes) (k : Nat) (plain : Bytes) : Prop where
  within : (k + 1) * context.blockSize ≤ (body context ciphertext).length
  before : decryptFront context ciphertext (k * context.blockSize) = .ok plain
  fails : ∃ e, decryptFront context ciphertext ((k + 1) * context.blockSize) = .error e

/-- What a decryptor answers to every piece of a ciphertext and at the end, whatever it answered
before. -/
def answers : Decryptor C → List Bytes → List (Except Error Bytes)
  | state, [] => [state.finalize]
  | state, piece :: rest => (state.update piece).2 :: answers (state.update piece).1 rest

/-- All that was let out. -/
def released (answers : List (Except Error Bytes)) : Bytes :=
  (answers.filterMap Except.toOption).flatten

theorem released_ok (outs : List Bytes) : released (outs.map .ok) = outs.flatten := by
  simp only [released, List.filterMap_map]
  congr 1
  exact List.filterMap_some

theorem released_append (front back : List (Except Error Bytes)) :
    released (front ++ back) = released front ++ released back := by
  simp only [released, List.filterMap_append, List.flatten_append]

theorem released_error (e : Error) (rest : List (Except Error Bytes)) :
    released (.error e :: rest) = released rest := rfl

/-! ### Which fronts can be decrypted -/

/-- A front of blocks goes through if all does, and to the front of what all comes to. -/
theorem advance_front {chain last : Chain} {direction : Direction} {cipher : C}
    (positive : 0 < chain.blockSize) (fits : DeltaFits chain) (front : part <+: data)
    (partAligned : chain.blockSize ∣ part.length) (aligned : chain.blockSize ∣ data.length)
    (taken : chain.advance direction cipher data workers = (last, .ok out)) :
    ∃ middle first, chain.advance direction cipher part workers = (middle, .ok first) ∧
      first <+: out := by
  obtain ⟨rest, rfl⟩ := front
  rw [List.length_append] at aligned
  have restAligned := (Nat.dvd_add_right partAligned).mp aligned
  obtain ⟨middle, first, second, through, _, rfl⟩ :=
    (advance_append_eq_ok positive fits partAligned restAligned workers).mp taken
  exact ⟨middle, first, through, List.prefix_append first second⟩

/-- After a front of blocks that went through, the rest goes through or fails as it does behind that
front. -/
theorem advance_resumed {chain middle : Chain} {direction : Direction} {cipher : C}
    (positive : 0 < chain.blockSize) (fits : DeltaFits chain)
    (frontAligned : chain.blockSize ∣ front.length) (backAligned : chain.blockSize ∣ back.length)
    (first : chain.advance direction cipher front workers = (middle, .ok out)) :
    (∃ last more, middle.advance direction cipher back workers = (last, .ok more) ∧
      chain.advance direction cipher (front ++ back) workers = (last, .ok (out ++ more))) ∨
    ∃ left e last cause, middle.advance direction cipher back workers = (left, .error e) ∧
      chain.advance direction cipher (front ++ back) workers = (last, .error cause) := by
  cases second : middle.advance direction cipher back workers with
  | mk left result =>
    cases result with
    | ok more =>
      refine .inl ⟨left, more, rfl, ?_⟩
      apply (advance_append_eq_ok positive fits frontAligned backAligned workers).mpr
      exact ⟨middle, out, more, first, second, rfl⟩
    | error e =>
      cases together : chain.advance direction cipher (front ++ back) workers with
      | mk last outcome =>
        cases outcome with
        | error cause => exact .inr ⟨left, e, last, cause, rfl, rfl⟩
        | ok all =>
          obtain ⟨_, _, _, through, later, _⟩ :=
            (advance_append_eq_ok positive fits frontAligned backAligned workers).mp together
          cases first.symm.trans through
          cases second.symm.trans later

namespace FailsAt

variable {ciphertext plain : Bytes} {k : Nat}

theorem positive (fails : FailsAt context ciphertext k plain) : 0 < context.blockSize := by
  have accepted := checkAligned_eq_ok.mp (checkAligned_of_ok fails.before)
  rw [ChainParts.beginDecrypt_fixed] at accepted
  exact accepted.1

/-- The mode without a cipher fails on no block. -/
theorem plain_mode (fails : FailsAt context ciphertext k plain) :
    context.config.mode ≠ .randomDelta := by
  intro drawn
  obtain ⟨e, failed⟩ := fails.fails
  have aligned : context.blockSize ∣
      ((body context ciphertext).take ((k + 1) * context.blockSize)).length := by
    rw [List.length_take_of_le fails.within]
    exact Nat.dvd_mul_left _ _
  rw [decryptFront, ChainParts.beginDecrypt_fixed] at failed
  generalize (context.newChain.beginDecrypt _).1.delta = delta at failed
  have blended := KeylessDelta.advance_blend { context.newChain with delta := delta } drawn
    fails.positive .decrypt context.cipher aligned context.config.workers
  cases failed.symm.trans blended

/-- There is no header, so the blocks are cut from the ciphertext itself. -/
theorem body_eq (fails : FailsAt context ciphertext k plain) :
    body context ciphertext = ciphertext := by
  rw [body, ContextRoundTrip.headerLength_plain fails.plain_mode, List.drop_zero]

theorem decryptFront_eq (fails : FailsAt context ciphertext k plain) (count : Nat) :
    decryptFront context ciphertext count =
      (context.newChain.decrypt context.cipher (ciphertext.take count)
        context.config.workers).2 := by
  have begun : context.newChain.beginDecrypt
      (ciphertext.take context.newChain.headerLength) = (context.newChain, .ok ()) := by
    rw [ContextRoundTrip.headerLength_plain fails.plain_mode, List.take_zero,
      Chain.beginDecrypt, ContextRoundTrip.headerLength_plain fails.plain_mode]
    exact if_neg fails.plain_mode
  rw [decryptFront, begun, fails.body_eq]

theorem reaches (fails : FailsAt context ciphertext k plain) :
    (k + 1) * context.blockSize ≤ ciphertext.length := by
  rw [← fails.body_eq]
  exact fails.within

/-- A front that takes in block `k` is not one of those before it. -/
theorem not_short (fails : FailsAt context ciphertext k plain)
    (beyond : (k + 1) * context.blockSize ≤ length) : ¬ length ≤ k * context.blockSize := by
  have positive := fails.positive
  rw [Nat.succ_mul] at beyond
  omega

theorem decrypt_before (fails : FailsAt context ciphertext k plain) :
    ∃ last, context.newChain.decrypt context.cipher (ciphertext.take (k * context.blockSize))
      context.config.workers = (last, .ok plain) :=
  ⟨_, Prod.ext rfl ((fails.decryptFront_eq _).symm.trans fails.before)⟩

/-- A front of blocks is decrypted to a front of the plaintext if it ends before block `k`, and is
refused if it takes that block in. -/
theorem front_outcome (fails : FailsAt context ciphertext k plain) (front : part <+: ciphertext)
    (aligned : context.blockSize ∣ part.length) :
    (part.length ≤ k * context.blockSize ∧ ∃ chain out, out <+: plain ∧
      context.newChain.decrypt context.cipher part context.config.workers = (chain, .ok out)) ∨
    ((k + 1) * context.blockSize ≤ part.length ∧ ∃ chain e,
      context.newChain.decrypt context.cipher part context.config.workers = (chain, .error e)) := by
  have within := fails.reaches
  have cut (count : Nat) (short : count * context.blockSize ≤ ciphertext.length) :
      context.blockSize ∣ (ciphertext.take (count * context.blockSize)).length := by
    rw [List.length_take_of_le short]
    exact Nat.dvd_mul_left _ _
  by_cases short : part.length ≤ k * context.blockSize
  · obtain ⟨last, before⟩ := fails.decrypt_before
    have part_front : part <+: ciphertext.take (k * context.blockSize) :=
      List.prefix_take_iff.mpr ⟨front, short⟩
    obtain ⟨middle, first, through, first_front⟩ := advance_front fails.positive (.inl rfl)
      part_front aligned (cut k (Nat.le_trans (Nat.mul_le_mul_right _ k.le_succ) within)) before
    exact .inl ⟨short, middle, first, first_front, through⟩
  · have beyond : (k + 1) * context.blockSize ≤ part.length := by
      obtain ⟨count, length⟩ := aligned
      have long := Nat.lt_of_not_le short
      rw [length, Nat.mul_comm _ count] at long ⊢
      exact Nat.mul_le_mul_right _ (Nat.lt_of_mul_lt_mul_right long)
    refine .inr ⟨beyond, ?_⟩
    have block_front : ciphertext.take ((k + 1) * context.blockSize) <+: part := by
      refine List.prefix_of_prefix_length_le (List.take_prefix _ _) front ?_
      rw [List.length_take_of_le within]
      exact beyond
    cases outcome : context.newChain.decrypt context.cipher part context.config.workers with
    | mk chain result =>
      cases result with
      | error e => exact ⟨chain, e, rfl⟩
      | ok out =>
        obtain ⟨_, _, through, _⟩ := advance_front fails.positive (.inl rfl) block_front
          (cut (k + 1) within) aligned outcome
        obtain ⟨e, failed⟩ := fails.fails
        rw [fails.decryptFront_eq] at failed
        cases failed.symm.trans (congrArg Prod.snd through)

theorem of_ok (fails : FailsAt context ciphertext k plain) (front : part <+: ciphertext)
    (aligned : context.blockSize ∣ part.length)
    (through : context.newChain.decrypt context.cipher part context.config.workers =
      (chain, .ok out)) : part.length ≤ k * context.blockSize ∧ out <+: plain := by
  rcases fails.front_outcome front aligned with ⟨short, _, _, out_front, again⟩ |
    ⟨_, _, _, refused⟩
  · cases through.symm.trans again
    exact ⟨short, out_front⟩
  · cases through.symm.trans refused

theorem of_error (fails : FailsAt context ciphertext k plain) (front : part <+: ciphertext)
    (aligned : context.blockSize ∣ part.length)
    (refused : context.newChain.decrypt context.cipher part context.config.workers =
      (chain, .error e)) : (k + 1) * context.blockSize ≤ part.length := by
  rcases fails.front_outcome front aligned with ⟨_, _, _, _, through⟩ | ⟨beyond, _⟩
  · cases refused.symm.trans through
  · exact beyond

end FailsAt

/-! ### From call to call -/

/-- A decryptor without a header on which nothing has failed yet: of what has arrived, some blocks
have been decrypted to `out`, and the rest is pending. -/
structure Clean (context : Context C) (state : Decryptor C) (seen out : Bytes) : Prop where
  context_eq : state.context = context
  headerRead : state.headerRead = true
  reached : ∃ done, seen = done ++ state.pending ∧ context.blockSize ∣ done.length ∧
    context.newChain.decrypt context.cipher done context.config.workers = (state.chain, .ok out)

/-- A decryptor right after the call that failed. Of what has arrived, `done` had been decrypted to
`out`, and the chain still counts no more than that. What is pending comes after the blocks of
`gap`, and block number `k` is one of these. -/
structure Skipped (context : Context C) (k : Nat) (state : Decryptor C)
    (seen out done gap : Bytes) : Prop where
  context_eq : state.context = context
  headerRead : state.headerRead = true
  seen_eq : seen = (done ++ gap) ++ state.pending
  aligned : context.blockSize ∣ done.length ∧ context.blockSize ∣ gap.length
  reached : ∃ chain,
    context.newChain.decrypt context.cipher done context.config.workers = (chain, .ok out) ∧
      state.chain = { chain with feedback := state.chain.feedback }
  within : done.length ≤ k * context.blockSize
  beyond : (k + 1) * context.blockSize ≤ (done ++ gap).length

theorem start_clean (positive : 0 < context.blockSize)
    (plain : context.config.mode ≠ .randomDelta) :
    Clean context (Decryptor.start context) [] [] := by
  refine ⟨rfl, ?_, [], rfl, Nat.dvd_zero _, advance_nil _ .decrypt positive (.inl rfl) _⟩
  simp only [Decryptor.start, ContextRoundTrip.headerLength_plain plain, BEq.rfl]

/-- All that has come out is the front of the plaintext. -/
theorem Clean.front {state : Decryptor C} (clean : Clean context state seen out)
    (fails : FailsAt context ciphertext k plain) (arrived : seen <+: ciphertext) :
    out <+: plain := by
  obtain ⟨_, _, done, rfl, aligned, so_far⟩ := clean
  exact (fails.of_ok ((List.prefix_append done _).trans arrived) aligned so_far).2

/-- Whole blocks at the front of what is pending are handed to the chain, and whatever comes of that,
only the rest stays. -/
theorem release_cut (state : Decryptor C) :
    ∃ blocks rest, state.pending = blocks ++ rest ∧ state.context.blockSize ∣ blocks.length ∧
      ∀ last result, state.chain.decrypt state.context.cipher blocks state.context.config.workers =
        (last, result) → release state = ({ state with chain := last, pending := rest }, result) := by
  generalize count : (state.pending.length - 2 * state.context.blockSize) /
    state.context.blockSize * state.context.blockSize = ready
  have within : ready ≤ state.pending.length :=
    count ▸ Nat.le_trans (Nat.div_mul_le_self _ _) (Nat.sub_le _ _)
  refine ⟨state.pending.take ready, state.pending.drop ready, (List.take_append_drop _ _).symm, ?_,
    ?_⟩
  · rw [List.length_take_of_le within, ← count]
    exact Nat.dvd_mul_left _ _
  · intro last result handed
    simp only [release, count, handed]

/-- One more piece adds to what has been decrypted, or else the blocks that were to be decrypted now
are not pending any more, though they have not been decrypted. -/
theorem Clean.update {state : Decryptor C} (clean : Clean context state seen out)
    (fails : FailsAt context ciphertext k plain) (arrived : seen ++ piece <+: ciphertext) :
    (∃ next more, state.update piece = (next, .ok more) ∧
      Clean context next (seen ++ piece) (out ++ more)) ∨
    ∃ next e done gap, state.update piece = (next, .error e) ∧
      Skipped context k next (seen ++ piece) out done gap := by
  obtain ⟨rfl, read, done, rfl, aligned, so_far⟩ := clean
  obtain ⟨blocks, rest, cut, whole, released⟩ :=
    release_cut { state with pending := state.pending ++ piece }
  rw [update_arrived (readHeader_done read) read]
  have split : done ++ state.pending ++ piece = (done ++ blocks) ++ rest := by
    rw [List.append_assoc, List.append_assoc]
    exact congrArg (done ++ ·) cut
  have both : state.context.blockSize ∣ (done ++ blocks).length := by
    rw [List.length_append]
    exact Nat.dvd_add aligned whole
  have handed_front : done ++ blocks <+: ciphertext :=
    (List.prefix_append _ rest).trans (split ▸ arrived)
  have done_front : done <+: ciphertext := (List.prefix_append done blocks).trans handed_front
  rcases advance_resumed fails.positive (.inl rfl) aligned whole so_far with
    ⟨last, more, forth, together⟩ | ⟨left, e, last, cause, failed, together⟩
  · exact .inl ⟨_, more, released _ _ forth, rfl, read, _, split, both, together⟩
  · refine .inr ⟨_, e, done, blocks, released _ _ failed, rfl, read, split, ⟨aligned, whole⟩,
      ⟨_, so_far, (advance_error failed).1⟩, ?_, ?_⟩
    · exact (fails.of_ok done_front aligned so_far).1
    · exact fails.of_error handed_front both together

/-- A ciphertext that cannot be decrypted does not end well. -/
theorem Clean.finalize {state : Decryptor C} (clean : Clean context state ciphertext out)
    (fails : FailsAt context ciphertext k plain) : ∃ e, state.finalize = .error e := by
  obtain ⟨rfl, read, done, rfl, aligned, so_far⟩ := clean
  by_cases even : state.pending.length % state.context.blockSize = 0
  · have rest := Nat.dvd_of_mod_eq_zero even
    have all : state.context.blockSize ∣ (done ++ state.pending).length := by
      rw [List.length_append]
      exact Nat.dvd_add aligned rest
    rcases advance_resumed fails.positive (.inl rfl) aligned rest so_far with
      ⟨last, more, _, together⟩ | ⟨left, e, _, _, failed, _⟩
    · have short := (fails.of_ok (List.prefix_refl _) all together).1
      exact absurd short (fails.not_short fails.reaches)
    · refine ⟨e, ?_⟩
      rw [Decryptor.finalize, readHeader_done read]
      simp only [read, not_true_eq_false, ↓reduceIte, even, ne_eq, Chain.decrypt, failed, bind,
        Except.bind]
  · exact ⟨_, finalize_misaligned read even⟩

/-! ### All answers -/

/-- A ciphertext that cannot be decrypted is answered with the front of the plaintext and a failure,
and what comes after that is answered by a decryptor that has skipped the block that failed. -/
theorem answers_split (fails : FailsAt context ciphertext k plain) {state : Decryptor C}
    (clean : Clean context state seen out) (all : seen ++ pieces.flatten = ciphertext) :
    ∃ (before : List Bytes) (e : Error) (after : List (Except Error Bytes)),
      answers state pieces = before.map .ok ++ .error e :: after ∧
      out ++ before.flatten <+: plain ∧
      (after = [] ∨ ∃ next done gap,
        after = answers next (pieces.drop (before.length + 1)) ∧
        Skipped context k next (seen ++ (pieces.take (before.length + 1)).flatten)
          (out ++ before.flatten) done gap) := by
  induction pieces generalizing state seen out with
  | nil =>
    rw [List.flatten_nil, List.append_nil] at all
    obtain ⟨e, ended⟩ := (all ▸ clean).finalize fails
    refine ⟨[], e, [], ?_, ?_, .inl rfl⟩
    · simp only [answers, ended, List.map_nil, List.nil_append]
    · rw [List.flatten_nil, List.append_nil]
      exact clean.front fails (all ▸ List.prefix_refl _)
  | cons piece rest ih =>
    rw [List.flatten_cons, ← List.append_assoc] at all
    have arrived : seen ++ piece <+: ciphertext := all ▸ List.prefix_append _ _
    rcases clean.update fails arrived with ⟨next, more, taken, still⟩ |
      ⟨next, e, done, gap, failed, skipped⟩
    · obtain ⟨before, e, after, answered, front, later⟩ := ih still all
      refine ⟨more :: before, e, after, ?_, ?_, ?_⟩
      · simp only [answers, taken, answered, List.map_cons, List.cons_append]
      · rw [List.flatten_cons, ← List.append_assoc]
        exact front
      · simpa only [List.length_cons, List.drop_succ_cons, List.take_succ_cons, List.flatten_cons,
          List.append_assoc] using later
    · refine ⟨[], e, answers next rest, ?_, ?_, .inr ⟨next, done, gap, rfl, ?_⟩⟩
      · simp only [answers, failed, List.map_nil, List.nil_append]
      · rw [List.flatten_nil, List.append_nil]
        exact clean.front fails ((List.prefix_append _ _).trans arrived)
      · simpa using skipped

/-- If a block of a ciphertext cannot be decrypted, some call fails, and what is let out before it
is the front of what the blocks before that one are decrypted to. If more calls follow, they are
answered by a decryptor that has let go of the block and goes on behind it. So all that is let out
is a front of that plaintext only if what they let out happens to be what is missing. -/
theorem released_prefix_iff (fails : FailsAt context pieces.flatten k plain) :
    ∃ (before : List Bytes) (e : Error) (after : List (Except Error Bytes)) (lost : Bytes),
      answers (Decryptor.start context) pieces = before.map .ok ++ .error e :: after ∧
      plain = before.flatten ++ lost ∧
      (after = [] ∨ ∃ state done gap,
        after = answers state (pieces.drop (before.length + 1)) ∧
        Skipped context k state (pieces.take (before.length + 1)).flatten before.flatten
          done gap) ∧
      (released (answers (Decryptor.start context) pieces) <+: plain ↔
        released after <+: lost) := by
  have start := start_clean fails.positive fails.plain_mode
  obtain ⟨before, e, after, answered, ⟨lost, rfl⟩, later⟩ :=
    answers_split fails start (List.nil_append _)
  refine ⟨before, e, after, lost, answered, rfl, later, ?_⟩
  rw [answered, released_append, released_ok, released_error, List.nil_append]
  exact List.prefix_append_right_inj _

/-- Blocks of one byte, each on its own, with no byte 255 among them. -/
def small : Context Picky where
  cipher := ⟨1, 255⟩
  key := [0]
  iv := []
  config := { zeroConfig with blockSize := 1 }

theorem small_built :
    Context.withCipher (⟨1, 255⟩ : Picky) [0] [] { zeroConfig with blockSize := 1 } = .ok small :=
  rfl

/-- The third block cannot be decrypted. The call that comes to it takes the block before it along,
and only the end of the message lets anything out after that. -/
theorem released_prefix_iff_third :
    FailsAt small [[5, 1, 255], [7, 8, 9]].flatten 2 [5, 1] ∧
      ∃ (before : List Bytes) (e : Error) (after : List (Except Error Bytes)) (lost : Bytes),
        answers (Decryptor.start small) [[5, 1, 255], [7, 8, 9]] =
          before.map .ok ++ .error e :: after ∧
        [5, 1] = before.flatten ++ lost ∧
        (released (answers (Decryptor.start small) [[5, 1, 255], [7, 8, 9]]) <+: [5, 1] ↔
          released after <+: lost) ∧
        answers (Decryptor.start small) [[5, 1, 255], [7, 8, 9]] =
          [.ok [5], .error (.worker 1 (.internal "rejected block")), .ok [8, 9]] := by
  have fails : FailsAt small [[5, 1, 255], [7, 8, 9]].flatten 2 [5, 1] :=
    ⟨by decide, by decide +kernel, .worker 2 (.internal "rejected block"), by decide +kernel⟩
  obtain ⟨before, e, after, lost, answered, whole, _, agree⟩ := released_prefix_iff fails
  refine ⟨fails, before, e, after, lost, answered, whole, agree, ?_⟩
  decide +kernel

/-- The first block is refused by the first call. The second call and the end of the message let out
the blocks behind it, as if it had never been there. -/
theorem answers_without_block :
    Context.withCipher (⟨1, 255⟩ : Picky) [0] [] { zeroConfig with blockSize := 1 } = .ok small ∧
      FailsAt small [[255, 1, 2], [3]].flatten 0 [] ∧
      answers (Decryptor.start small) [[255, 1, 2], [3]] =
        [.error (.worker 0 (.internal "rejected block")), .ok [1], .ok [2, 3]] ∧
      ¬ released (answers (Decryptor.start small) [[255, 1, 2], [3]]) <+: [] := by
  have fails : FailsAt small [[255, 1, 2], [3]].flatten 0 [] :=
    ⟨by decide, by decide +kernel, .worker 0 (.internal "rejected block"), by decide +kernel⟩
  have answered : answers (Decryptor.start small) [[255, 1, 2], [3]] =
      [.error (.worker 0 (.internal "rejected block")), .ok [1], .ok [2, 3]] := by
    decide +kernel
  refine ⟨small_built, fails, answered, ?_⟩
  rw [answered]
  decide

end RoomCipher.LostBlocks
