import RoomCipher.Proofs.ChainSteps
import RoomCipher.Proofs.CipherPermutation

/-! Encryption and decryption are the same walk taken in opposite directions. Two
chains that start alike stay alike: whatever block goes into the one, its output
goes into the other, gives the block back and leaves the same register behind. So
what a chain makes of a whole message is undone by the chain that starts where it
started, in either direction and in every mode. -/
namespace RoomCipher.ChainInversion
open Chain ByteLaws ChainSteps CipherPermutation

def opposite : Direction → Direction
  | .encrypt => .decrypt
  | .decrypt => .encrypt

variable {C : Type} [BlockCipher C] {cipher : C} {size : Nat}

/-- A chain that lacks nothing its mode works with. -/
structure Ready (cipher : C) (chain : Chain) : Prop where
  permutes : chain.mode ≠ .randomDelta → Permutes cipher chain.blockSize
  positive : 0 < chain.blockSize
  register_full : chain.mode.requiresIv → chain.feedback.length = chain.blockSize
  counter_full : chain.mode.requiresIv → chain.iv.length = chain.blockSize
  delta_fits : DeltaFits chain
  delta_full : chain.mode = .randomDelta → chain.delta.length = chain.blockSize

/-! ### One block -/

/-- The step of a mode that keeps a register is taken back by the opposite step on its output,
and both leave the same register. -/
theorem feedback_undone (permutes : Permutes cipher size) (mode : Feedback) (direction : Direction)
    (register_full : register.length = size) (full : block.length = size) :
    ∃ next out, mode.step cipher direction register block = (next, .ok out) ∧
      next.length = size ∧ out.length = size ∧
      mode.step cipher (opposite direction) register out = (next, .ok block) := by
  obtain ⟨mask, masked, mask_full, _⟩ := permutes.encrypts register register_full
  obtain ⟨covered, cover, covered_full, uncover⟩ := xor_undone (full.trans mask_full.symm)
  obtain ⟨mixed, mix, mixed_full, unmix⟩ := xor_undone (full.trans register_full.symm)
  obtain ⟨locked, lock, locked_full, unlock⟩ := permutes.encrypts mixed (mixed_full.trans full)
  obtain ⟨bare, unwrap, bare_full, rewrap⟩ := permutes.decrypts block full
  obtain ⟨clear, unveil, clear_full, veil⟩ := xor_undone (bare_full.trans register_full.symm)
  have step_ok {register next out : Bytes} {result : Except Error (Bytes × Bytes)}
      (done : result = .ok (next, out)) : Feedback.keeping register result = (next, .ok out) := by
    rw [done]
    rfl
  cases mode with
  | cbc =>
    cases direction with
    | encrypt =>
      refine ⟨locked, locked, step_ok ?_, locked_full, locked_full, step_ok ?_⟩
      · simp [mix, lock, bind, Except.bind, pure, Except.pure]
      · simp [unlock, unmix, bind, Except.bind, pure, Except.pure]
    | decrypt =>
      refine ⟨block, clear, step_ok ?_, full, clear_full.trans bare_full, step_ok ?_⟩
      · simp [unwrap, unveil, bind, Except.bind, pure, Except.pure]
      · simp [veil, rewrap, bind, Except.bind, pure, Except.pure]
  | pcbc =>
    cases direction with
    | encrypt =>
      obtain ⟨next, carry, next_full, _⟩ := xor_undone (full.trans locked_full.symm)
      refine ⟨next, locked, step_ok ?_, next_full.trans full, locked_full, step_ok ?_⟩
      · simp [mix, lock, carry, bind, Except.bind, pure, Except.pure]
      · simp [unlock, unmix, carry, bind, Except.bind, pure, Except.pure]
    | decrypt =>
      have out_full := clear_full.trans bare_full
      obtain ⟨next, carry, next_full, _⟩ := xor_undone (out_full.trans full.symm)
      refine ⟨next, clear, step_ok ?_, next_full.trans out_full, out_full, step_ok ?_⟩
      · simp [unwrap, unveil, carry, bind, Except.bind, pure, Except.pure]
      · simp [veil, rewrap, carry, bind, Except.bind, pure, Except.pure]
  | cfb =>
    cases direction with
    | encrypt =>
      refine ⟨covered, covered, step_ok ?_, covered_full.trans full, covered_full.trans full,
        step_ok ?_⟩
      · simp [masked, cover, bind, Except.bind, pure, Except.pure]
      · simp [masked, uncover, bind, Except.bind, pure, Except.pure]
    | decrypt =>
      refine ⟨block, covered, step_ok ?_, full, covered_full.trans full, step_ok ?_⟩
      · simp [masked, cover, bind, Except.bind, pure, Except.pure]
      · simp [masked, uncover, bind, Except.bind, pure, Except.pure]
  | ofb =>
    refine ⟨mask, covered, ?_, mask_full, covered_full.trans full, ?_⟩
    · simp [Feedback.step, masked, cover]
    · simp [Feedback.step, masked, uncover]

@[simp] theorem length_addCounter (counter : Bytes) (index : UInt64) :
    (Bytes.addCounter counter index).length = counter.length := by
  rw [Bytes.addCounter]
  induction counter with
  | nil => rfl
  | cons x xs ih => simp [Bytes.addAmount, ih]

/-- What was combined with the delta is taken apart again. -/
theorem withDelta_undone {delta : Bytes} (present : delta ≠ [])
    {combine separate : UInt8 → UInt8 → UInt8} (undo : ∀ b d, separate (combine b d) d = b)
    (data : Bytes) :
    (withDelta combine delta data).length = data.length ∧
      withDelta separate delta (withDelta combine delta data) = data := by
  simp only [withDelta, present, ↓reduceIte, List.length_mapIdx, true_and]
  apply List.ext_getElem?
  intro i
  simp only [List.getElem?_mapIdx, Option.map_map, Function.comp_def, undo, Option.map_id']

/-- What a block contributes to the mode's outcome, as a step that succeeds. -/
theorem stepBlock_ok {direction : Direction} {chain : Chain}
    (outcome : blockOutcome cipher direction chain block = (register, .ok out)) :
    stepBlock cipher direction chain block =
      some ({ chain with feedback := register, position := chain.position + 1 }, out) := by
  rw [stepBlock, outcome]
  rfl

/-- A ready chain takes every block, is ready again, and the opposite step takes it back. -/
theorem blockOutcome_undone {chain : Chain} (ready : Ready cipher chain) (direction : Direction)
    (full : block.length = chain.blockSize) :
    ∃ register out, blockOutcome cipher direction chain block = (register, .ok out) ∧
      (chain.mode.requiresIv → register.length = chain.blockSize) ∧
      out.length = chain.blockSize ∧
      blockOutcome cipher (opposite direction) chain out = (register, .ok block) := by
  have applied {f : Bytes → Except Error Bytes} {given taken : Bytes} (answer : f given = .ok taken)
      (same : taken.length = given.length) : Workers.apply (fun _ => f) 0 given = .ok taken := by
    simp [Workers.apply, answer, same]
  obtain ⟨mode, size, iv, feedback, position, delta⟩ := chain
  obtain ⟨permutes, positive, register_full, counter_full, _, delta_full⟩ := ready
  simp only at full permutes positive register_full counter_full delta_full ⊢
  have feedback_step (kept : Feedback) (required : mode.requiresIv) (coded : mode ≠ .randomDelta) :=
    feedback_undone (permutes coded) kept direction (register_full required) full
  cases mode with
  | ecb =>
    refine ⟨feedback, ?_⟩
    cases direction with
    | encrypt =>
      obtain ⟨out, forth, out_full, back⟩ := (permutes (by decide)).encrypts block full
      exact ⟨out, congrArg _ (applied forth (out_full.trans full.symm)), register_full, out_full,
        congrArg _ (applied back (full.trans out_full.symm))⟩
    | decrypt =>
      obtain ⟨out, forth, out_full, back⟩ := (permutes (by decide)).decrypts block full
      exact ⟨out, congrArg _ (applied forth (out_full.trans full.symm)), register_full, out_full,
        congrArg _ (applied back (full.trans out_full.symm))⟩
  | ctr =>
    have counted : (Bytes.addCounter iv position).length = size := by
      rw [length_addCounter]
      exact counter_full rfl
    obtain ⟨mask, masked, mask_full, _⟩ := (permutes (by decide)).encrypts _ counted
    obtain ⟨out, cover, out_full, uncover⟩ := xor_undone (full.trans mask_full.symm)
    refine ⟨feedback, out, ?_, register_full, out_full.trans full, ?_⟩
    · simp [blockOutcome, masked, cover, bind, Except.bind]
    · simp [blockOutcome, masked, uncover, bind, Except.bind]
  | randomDelta =>
    have present : delta ≠ [] := by
      intro nothing
      rw [nothing, List.length_nil] at delta_full
      exact Nat.ne_of_gt positive (delta_full rfl).symm
    refine ⟨feedback, ?_⟩
    cases direction with
    | encrypt =>
      obtain ⟨same, back⟩ := withDelta_undone present UInt8.add_sub_cancel block
      exact ⟨_, rfl, register_full, same.trans full,
        congrArg (fun out => (feedback, Except.ok out)) back⟩
    | decrypt =>
      obtain ⟨same, back⟩ := withDelta_undone present UInt8.sub_add_cancel block
      exact ⟨_, rfl, register_full, same.trans full,
        congrArg (fun out => (feedback, Except.ok out)) back⟩
  | cbc =>
    obtain ⟨next, out, forth, next_full, out_full, back⟩ := feedback_step .cbc rfl (by decide)
    exact ⟨next, out, forth, fun _ => next_full, out_full, back⟩
  | pcbc =>
    obtain ⟨next, out, forth, next_full, out_full, back⟩ := feedback_step .pcbc rfl (by decide)
    exact ⟨next, out, forth, fun _ => next_full, out_full, back⟩
  | cfb =>
    obtain ⟨next, out, forth, next_full, out_full, back⟩ := feedback_step .cfb rfl (by decide)
    exact ⟨next, out, forth, fun _ => next_full, out_full, back⟩
  | ofb =>
    obtain ⟨next, out, forth, next_full, out_full, back⟩ := feedback_step .ofb rfl (by decide)
    exact ⟨next, out, forth, fun _ => next_full, out_full, back⟩

theorem stepBlock_undone {chain : Chain} (ready : Ready cipher chain) (direction : Direction)
    (full : block.length = chain.blockSize) :
    ∃ next out, stepBlock cipher direction chain block = some (next, out) ∧
      next.blockSize = chain.blockSize ∧ Ready cipher next ∧ out.length = chain.blockSize ∧
      stepBlock cipher (opposite direction) chain out = some (next, block) := by
  obtain ⟨register, out, forth, register_full, out_full, back⟩ :=
    blockOutcome_undone ready direction full
  refine ⟨_, out, stepBlock_ok forth, rfl, ?_, out_full, stepBlock_ok back⟩
  exact { ready with register_full := register_full }

/-! ### Whole messages -/

/-- Block after block, the opposite walk goes through the same chains. -/
theorem follow_undone {chain : Chain} (ready : Ready cipher chain) (direction : Direction)
    (blocks : List Bytes) (full : ∀ block ∈ blocks, block.length = chain.blockSize) :
    ∃ last outs, follow cipher direction chain blocks = some (last, outs.flatten) ∧
      Ready cipher last ∧ last.blockSize = chain.blockSize ∧ outs.length = blocks.length ∧
      (∀ out ∈ outs, out.length = chain.blockSize) ∧
      follow cipher (opposite direction) chain outs = some (last, blocks.flatten) := by
  induction blocks generalizing chain with
  | nil => exact ⟨chain, [], rfl, ready, rfl, rfl, by simp, rfl⟩
  | cons block rest ih =>
    obtain ⟨next, out, forth, size, next_ready, out_full, back⟩ :=
      stepBlock_undone ready direction (full block (by simp))
    obtain ⟨last, outs, later, last_ready, last_size, count, outs_full, earlier⟩ := ih next_ready
      fun other member => size.symm ▸ full other (by simp [member])
    refine ⟨last, out :: outs, ?_, last_ready, last_size.trans size, by simp [count], ?_, ?_⟩
    · simp [follow, forth, later, bind, pure]
    · intro other member
      rcases List.mem_cons.mp member with rfl | member
      · exact out_full
      · exact size ▸ outs_full other member
    · simp [follow, back, earlier, bind, pure]

/-- A ready chain takes every part that consists of blocks, whatever the workers, is ready for the
next one, and the chain it started as takes the output back to where it came from. -/
theorem advance_undone {chain : Chain} (ready : Ready cipher chain) (direction : Direction)
    (aligned : chain.blockSize ∣ data.length) :
    ∃ last out, (∀ workers, chain.advance direction cipher data workers = (last, .ok out)) ∧
      Ready cipher last ∧ last.blockSize = chain.blockSize ∧ out.length = data.length ∧
      ∀ workers, chain.advance (opposite direction) cipher out workers = (last, .ok data) := by
  obtain ⟨blocks, rfl, full⟩ := exists_blocks aligned
  obtain ⟨last, outs, forth, last_ready, size, count, outs_full, back⟩ :=
    follow_undone ready direction blocks full
  have length : outs.flatten.length = blocks.flatten.length := by
    rw [length_flatten outs_full, length_flatten full, count]
  refine ⟨last, outs.flatten, ?_, last_ready, size, length, ?_⟩
  · intro workers
    apply delivered_eq_some.mp
    rw [advance_follows cipher direction chain _ workers ready.positive ready.delta_fits aligned,
      pieces_flatten ready.positive full, forth]
  · intro workers
    apply delivered_eq_some.mp
    rw [advance_follows cipher (opposite direction) chain _ workers ready.positive ready.delta_fits
      (length ▸ aligned), pieces_flatten ready.positive outs_full, back]

/-- Where a first part ends, a second one may go on, as if the two had come together. -/
theorem advance_continued {chain middle : Chain} {direction : Direction}
    (ready : Ready cipher chain)
    (first : ∀ workers, chain.advance direction cipher front workers = (middle, .ok out))
    (second : ∀ workers, middle.advance direction cipher back workers = (last, .ok rest))
    (frontAligned : chain.blockSize ∣ front.length) (backAligned : chain.blockSize ∣ back.length)
    (workers : Nat) :
    chain.advance direction cipher (front ++ back) workers = (last, .ok (out ++ rest)) := by
  apply (advance_append_eq_ok ready.positive ready.delta_fits frontAligned backAligned workers).mpr
  exact ⟨middle, out, rest, first workers, second workers, rfl⟩

end RoomCipher.ChainInversion
