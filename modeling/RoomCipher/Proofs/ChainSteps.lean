import RoomCipher.Chain
import RoomCipher.Proofs.WorkerEquivalence

/-! A chain takes a message block by block. Whatever the parts in which the message
arrives and however many workers share a part, what comes out is one step per block,
and the only thing that passes from a block to the next is the register and the
count of the mode. Cutting a message between blocks therefore changes nothing. -/
namespace RoomCipher.ChainSteps
open Chain ByteLaws WorkerEquivalence

variable {C : Type} [BlockCipher C]

/-- The outcome of a part of a message that succeeded: the chain after it and the output. -/
def delivered (result : Chain × Except Error Bytes) : Option (Chain × Bytes) :=
  result.2.toOption.map fun out => (result.1, out)

/-- What the mode makes of one block: the register after it, and the output. -/
def blockOutcome (cipher : C) (direction : Direction) (chain : Chain) (block : Bytes) :
    Bytes × Except Error Bytes :=
  match chain.mode, direction with
  | .ecb, .encrypt => (chain.feedback,
      Workers.apply (fun _ => BlockCipher.encryptBlock cipher) 0 block)
  | .ecb, .decrypt => (chain.feedback,
      Workers.apply (fun _ => BlockCipher.decryptBlock cipher) 0 block)
  | .ctr, _ => (chain.feedback, do
      Bytes.xor block
        (← BlockCipher.encryptBlock cipher (Bytes.addCounter chain.iv chain.position)))
  | .randomDelta, .encrypt => (chain.feedback, .ok (withDelta (· + ·) chain.delta block))
  | .randomDelta, .decrypt => (chain.feedback, .ok (withDelta (· - ·) chain.delta block))
  | .cbc, _ => Feedback.cbc.step cipher direction chain.feedback block
  | .pcbc, _ => Feedback.pcbc.step cipher direction chain.feedback block
  | .cfb, _ => Feedback.cfb.step cipher direction chain.feedback block
  | .ofb, _ => Feedback.ofb.step cipher direction chain.feedback block

/-- One block that succeeds, with the chain one block further on. -/
def stepBlock (cipher : C) (direction : Direction) (chain : Chain) (block : Bytes) :
    Option (Chain × Bytes) :=
  let (register, result) := blockOutcome cipher direction chain block
  result.toOption.map fun out =>
    ({ chain with feedback := register, position := chain.position + 1 }, out)

/-- The blocks one after the other, until one fails. -/
def follow (cipher : C) (direction : Direction) : Chain → List Bytes → Option (Chain × Bytes)
  | chain, [] => some (chain, [])
  | chain, block :: rest => do
    let (next, out) ← stepBlock cipher direction chain block
    let (last, outs) ← follow cipher direction next rest
    return (last, out ++ outs)

theorem follow_append (cipher : C) (direction : Direction) (chain : Chain)
    (front back : List Bytes) :
    follow cipher direction chain (front ++ back) = (do
      let (middle, out) ← follow cipher direction chain front
      let (last, rest) ← follow cipher direction middle back
      return (last, out ++ rest)) := by
  induction front generalizing chain with
  | nil =>
    cases rest : follow cipher direction chain back <;> simp [follow, rest]
  | cons block front ih =>
    simp only [List.cons_append, follow, ih, bind, Option.bind_assoc]
    congr 1
    funext step
    simp [pure, List.append_assoc]

/-- A step changes nothing but the register and the count. -/
theorem stepBlock_fixed {cipher : C} {direction : Direction} {chain next : Chain}
    (step : stepBlock cipher direction chain block = some (next, out)) :
    next = { chain with feedback := next.feedback, position := chain.position + 1 } := by
  simp only [stepBlock, Option.map_eq_some_iff, Prod.mk.injEq] at step
  obtain ⟨_, _, rfl, _⟩ := step
  rfl

theorem follow_fixed {cipher : C} {direction : Direction} {chain last : Chain}
    (run : follow cipher direction chain blocks = some (last, out)) :
    last = { chain with feedback := last.feedback, position := last.position } := by
  induction blocks generalizing chain out with
  | nil =>
    simp only [follow, Option.some.injEq, Prod.mk.injEq] at run
    rw [← run.1]
  | cons block rest ih =>
    simp only [follow, bind, Option.bind_eq_some_iff, pure, Option.some.injEq, Prod.mk.injEq] at run
    obtain ⟨⟨next, front⟩, step, ⟨final, back⟩, later, rfl, _⟩ := run
    rw [ih later, stepBlock_fixed step]

/-! ### The parts of a message -/

/-- The delta of a chain, once there is one, is one block long. -/
def DeltaFits (chain : Chain) : Prop :=
  chain.delta = [] ∨ chain.delta.length = chain.blockSize

theorem checkAligned_eq_ok {chain : Chain} :
    chain.checkAligned data = .ok () ↔ 0 < chain.blockSize ∧ chain.blockSize ∣ data.length := by
  unfold Chain.checkAligned
  split
  next zero => simp [zero]
  next positive =>
    split
    next uneven =>
      exact ⟨nofun, fun whole => absurd (Nat.mod_eq_zero_of_dvd whole.2) uneven⟩
    next even =>
      have whole := Nat.dvd_of_mod_eq_zero (Decidable.not_not.mp even)
      exact ⟨fun _ => ⟨Nat.pos_of_ne_zero positive, whole⟩, fun _ => rfl⟩

/-- Only blocks are ever taken. -/
theorem checkAligned_of_ok {chain : Chain} {direction : Direction} {cipher : C}
    (answer : (chain.advance direction cipher data workers).2 = .ok out) :
    chain.checkAligned data = .ok () := by
  cases accepted : chain.checkAligned data with
  | error e =>
    simp only [advance, accepted] at answer
    cases answer
  | ok _ => rfl

theorem position_succ (position : UInt64) (count : Nat) :
    position + 1 + UInt64.ofNat count = position + UInt64.ofNat (count + 1) := by
  rw [UInt64.ofNat_add, UInt64.add_assoc, UInt64.add_comm 1]
  rfl

private theorem follow_feedback {cipher : C} {direction : Direction} (mode : Feedback)
    (chain : Chain) (chained : ∀ register position block,
      blockOutcome cipher direction
          { chain with feedback := register, position := position } block =
        mode.step cipher direction register block) (blocks : List Bytes) :
    follow cipher direction chain blocks =
      (Feedback.run (mode.step cipher direction) chain.feedback blocks).2.toOption.map fun out =>
        ({ chain with
            feedback := (Feedback.run (mode.step cipher direction) chain.feedback blocks).1
            position := chain.position + UInt64.ofNat blocks.length }, out) := by
  induction blocks generalizing chain with
  | nil => simp [follow, Feedback.run, Except.toOption]
  | cons block rest ih =>
    have first := chained chain.feedback chain.position block
    simp only [follow, Feedback.run, stepBlock]
    rw [first]
    obtain ⟨register, result⟩ := mode.step cipher direction chain.feedback block
    cases result with
    | error e => rfl
    | ok out =>
      have later := ih { chain with feedback := register, position := chain.position + 1 }
        fun register position block => chained register position block
      simp only [Except.toOption, Option.map_some, bind, Option.bind_some, later]
      cases (Feedback.run (mode.step cipher direction) register rest).2 with
      | error e => rfl
      | ok outs => simp [Except.map, pure, position_succ]

theorem apply_toOption (f : Workers.BlockFunction) (number : Nat) (block : Bytes) :
    (Workers.apply f number block).toOption =
      (f number block).toOption.filter (·.length == block.length) := by
  rw [Workers.apply]
  cases f number block with
  | error e => cases e <;> rfl
  | ok out =>
    by_cases same : out.length = block.length <;> simp [same, Except.toOption, Option.filter]

private theorem follow_numbered {cipher : C} {direction : Direction} (chain : Chain)
    (f : Workers.BlockFunction) (start : UInt64)
    (alike : ∀ number block,
      stepBlock cipher direction { chain with position := start + UInt64.ofNat number } block =
        (Workers.apply f number block).toOption.map fun out =>
          ({ chain with position := start + UInt64.ofNat number + 1 }, out))
    (number : Nat) (blocks : List Bytes) :
    follow cipher direction { chain with position := start + UInt64.ofNat number } blocks =
      (Workers.run f number blocks).toOption.map fun out =>
        ({ chain with position := start + UInt64.ofNat (number + blocks.length) }, out) := by
  induction blocks generalizing number with
  | nil => simp [follow, Workers.run, Except.toOption]
  | cons block rest ih =>
    have next : start + UInt64.ofNat number + 1 = start + UInt64.ofNat (number + 1) := by
      rw [UInt64.ofNat_add, UInt64.add_assoc]
      rfl
    simp only [follow, Workers.run, alike, next]
    cases Workers.apply f number block with
    | error e => rfl
    | ok out =>
      simp only [Except.toOption, Option.map_some, bind, Option.bind_some, Except.bind]
      rw [ih]
      cases Workers.run f (number + 1) rest with
      | error e => rfl
      | ok outs => simp [Except.toOption, pure, Except.pure, Nat.add_assoc, Nat.add_comm 1]

private theorem follow_workers {cipher : C} {direction : Direction} (chain : Chain)
    (f : Workers.BlockFunction) (start : UInt64)
    (alike : ∀ number block,
      stepBlock cipher direction { chain with position := start + UInt64.ofNat number } block =
        (Workers.apply f number block).toOption.map fun out =>
          ({ chain with position := start + UInt64.ofNat number + 1 }, out))
    (blocks : List Bytes) :
    follow cipher direction { chain with position := start } blocks =
      (Workers.run f 0 blocks).toOption.map fun out =>
        ({ chain with position := start + UInt64.ofNat blocks.length }, out) := by
  have run := follow_numbered chain f start alike 0 blocks
  simpa using run

private theorem xor_toOption (block mask : Bytes) :
    (Bytes.xor block mask).toOption.filter (·.length == block.length) =
      (Bytes.xor block mask).toOption := by
  by_cases same : block.length = mask.length
  · obtain ⟨out, combined, length, _⟩ := xor_undone same
    simp [combined, Except.toOption, length]
  · simp [Bytes.xor, Bytes.checkLengths, same, bind, Except.bind, Except.toOption]

/-- Combining with a delta that fits goes block by block. -/
theorem withDelta_append (combine : UInt8 → UInt8 → UInt8) (delta block rest : Bytes)
    (fits : delta = [] ∨ delta.length = block.length) :
    withDelta combine delta (block ++ rest) =
      withDelta combine delta block ++ withDelta combine delta rest := by
  rcases fits with rfl | width
  · rfl
  · simp only [withDelta]
    split
    · rfl
    · rw [List.mapIdx_append]
      congr 1
      apply List.mapIdx_eq_mapIdx_iff.mpr
      intro i bound
      simp [width]

private theorem follow_delta {cipher : C} {direction : Direction} (chain : Chain)
    (combine : UInt8 → UInt8 → UInt8) (fits : DeltaFits chain)
    (alike : ∀ position block,
      stepBlock cipher direction { chain with position := position } block =
        some ({ chain with position := position + 1 }, withDelta combine chain.delta block))
    (blocks : List Bytes) (full : ∀ block ∈ blocks, block.length = chain.blockSize)
    (position : UInt64) :
    follow cipher direction { chain with position := position } blocks =
      some ({ chain with position := position + UInt64.ofNat blocks.length },
        withDelta combine chain.delta blocks.flatten) := by
  induction blocks generalizing position with
  | nil => simp [follow, withDelta]
  | cons block rest ih =>
    have width : chain.delta = [] ∨ chain.delta.length = block.length := by
      rw [full block (by simp)]
      exact fits
    simp only [follow, alike, bind, Option.bind_some,
      ih (fun other member => full other (by simp [member]))]
    simp [pure, position_succ, withDelta_append _ _ _ _ width]

private theorem advance_delivered (cipher : C) (direction : Direction) (chain : Chain)
    (workers : Nat) (blocks : List Bytes) (positive : 0 < chain.blockSize)
    (full : ∀ block ∈ blocks, block.length = chain.blockSize) :
    delivered (chain.advance direction cipher blocks.flatten workers) =
      (chain.transform direction cipher blocks.flatten workers).2.toOption.map fun out =>
        ({ chain with
            feedback := (chain.transform direction cipher blocks.flatten workers).1
            position := chain.position + UInt64.ofNat blocks.length }, out) := by
  have length := length_flatten full
  have accepted : chain.checkAligned blocks.flatten = .ok () := by
    simp [checkAligned, length, Nat.ne_of_gt positive]
  simp only [delivered, advance, accepted]
  rw [length, Nat.mul_div_cancel _ positive]
  obtain ⟨register, result⟩ := chain.transform direction cipher blocks.flatten workers
  cases result <;> rfl

/-- A part of a message is the sequence of its blocks, however many workers share it. Whether the
delta fits matters to its own mode alone. -/
theorem advance_blocks (cipher : C) (direction : Direction) (chain : Chain) (data : Bytes)
    (workers : Nat) (positive : 0 < chain.blockSize)
    (fits : chain.mode = .randomDelta → DeltaFits chain) (aligned : chain.blockSize ∣ data.length) :
    delivered (chain.advance direction cipher data workers) =
      follow cipher direction chain (Bytes.pieces chain.blockSize data) := by
  have shared (f : Workers.BlockFunction) := processBlocks_toOption f workers positive aligned
  obtain ⟨blocks, rfl, full⟩ := exists_blocks aligned
  rw [advance_delivered cipher direction chain workers blocks positive full,
    pieces_flatten positive full]
  rw [pieces_flatten positive full] at shared
  have pieces := pieces_flatten positive full
  obtain ⟨mode, blockSize, iv, feedback, position, delta⟩ := chain
  cases mode with
  | ecb =>
    cases direction with
    | encrypt =>
      simp only [transform, shared]
      exact (follow_workers ⟨.ecb, blockSize, iv, feedback, position, delta⟩ _ position
        (fun number block => by simp only [stepBlock, blockOutcome, apply_toOption]) blocks).symm
    | decrypt =>
      simp only [transform, shared]
      exact (follow_workers ⟨.ecb, blockSize, iv, feedback, position, delta⟩ _ position
        (fun number block => by simp only [stepBlock, blockOutcome, apply_toOption]) blocks).symm
  | ctr =>
    simp only [transform, counterMode, shared]
    refine (follow_workers ⟨.ctr, blockSize, iv, feedback, position, delta⟩ _ position
      (fun number block => ?_) blocks).symm
    simp only [stepBlock, blockOutcome, apply_toOption]
    cases BlockCipher.encryptBlock cipher
        (Bytes.addCounter iv (position + UInt64.ofNat number)) with
    | error e => rfl
    | ok mask => exact congrArg _ (xor_toOption block mask).symm
  | randomDelta =>
    cases direction with
    | encrypt =>
      exact (follow_delta ⟨.randomDelta, blockSize, iv, feedback, position, delta⟩ (· + ·)
        (fits rfl) (fun _ _ => rfl) blocks full position).symm
    | decrypt =>
      exact (follow_delta ⟨.randomDelta, blockSize, iv, feedback, position, delta⟩ (· - ·)
        (fits rfl) (fun _ _ => rfl) blocks full position).symm
  | cbc =>
    simp only [transform, pieces]
    exact (follow_feedback .cbc ⟨.cbc, blockSize, iv, feedback, position, delta⟩
      (fun _ _ _ => rfl) blocks).symm
  | pcbc =>
    simp only [transform, pieces]
    exact (follow_feedback .pcbc ⟨.pcbc, blockSize, iv, feedback, position, delta⟩
      (fun _ _ _ => rfl) blocks).symm
  | cfb =>
    simp only [transform, pieces]
    exact (follow_feedback .cfb ⟨.cfb, blockSize, iv, feedback, position, delta⟩
      (fun _ _ _ => rfl) blocks).symm
  | ofb =>
    simp only [transform, pieces]
    exact (follow_feedback .ofb ⟨.ofb, blockSize, iv, feedback, position, delta⟩
      (fun _ _ _ => rfl) blocks).symm

theorem advance_follows (cipher : C) (direction : Direction) (chain : Chain) (data : Bytes)
    (workers : Nat) (positive : 0 < chain.blockSize) (fits : DeltaFits chain)
    (aligned : chain.blockSize ∣ data.length) :
    delivered (chain.advance direction cipher data workers) =
      follow cipher direction chain (Bytes.pieces chain.blockSize data) :=
  advance_blocks cipher direction chain data workers positive (fun _ => fits) aligned

theorem delivered_eq_some {result : Chain × Except Error Bytes} :
    delivered result = some (last, out) ↔ result = (last, .ok out) := by
  obtain ⟨chain, outcome⟩ := result
  cases outcome <;> simp [delivered, Except.toOption]

/-- A part without blocks changes nothing. -/
theorem advance_nil (cipher : C) (direction : Direction) {chain : Chain}
    (positive : 0 < chain.blockSize) (fits : DeltaFits chain) (workers : Nat) :
    chain.advance direction cipher [] workers = (chain, .ok []) := by
  apply delivered_eq_some.mp
  rw [advance_follows cipher direction chain [] workers positive fits (Nat.dvd_zero _), pieces_nil]
  rfl

/-- A message may be cut between any two blocks, and each part have its own workers. -/
theorem advance_append (cipher : C) (direction : Direction) (chain : Chain) (front back : Bytes)
    (workers first second : Nat) (positive : 0 < chain.blockSize) (fits : DeltaFits chain)
    (frontAligned : chain.blockSize ∣ front.length) (backAligned : chain.blockSize ∣ back.length) :
    delivered (chain.advance direction cipher (front ++ back) workers) = (do
      let (middle, out) ← delivered (chain.advance direction cipher front first)
      let (last, rest) ← delivered (middle.advance direction cipher back second)
      return (last, out ++ rest)) := by
  have aligned : chain.blockSize ∣ (front ++ back).length := by
    rw [List.length_append]
    exact Nat.dvd_add frontAligned backAligned
  rw [advance_follows cipher direction chain _ workers positive fits aligned,
    advance_follows cipher direction chain _ first positive fits frontAligned,
    pieces_append positive frontAligned, follow_append]
  cases run : follow cipher direction chain (Bytes.pieces chain.blockSize front) with
  | none => rfl
  | some result =>
    obtain ⟨middle, out⟩ := result
    have fixed := follow_fixed run
    have size : middle.blockSize = chain.blockSize := by rw [fixed]
    have delta : middle.delta = chain.delta := by rw [fixed]
    simp only [bind, Option.bind_some]
    rw [advance_follows cipher direction middle back second (size ▸ positive)
      (by rw [DeltaFits, size, delta]; exact fits) (size ▸ backAligned), size]

/-- Two parts go through as one exactly if the first does and then, from where that leads, the
second does. -/
theorem advance_append_eq_ok {cipher : C} {direction : Direction} {chain last : Chain}
    (positive : 0 < chain.blockSize) (fits : DeltaFits chain)
    (frontAligned : chain.blockSize ∣ front.length) (backAligned : chain.blockSize ∣ back.length)
    (workers : Nat) :
    chain.advance direction cipher (front ++ back) workers = (last, .ok out) ↔
      ∃ middle first second, chain.advance direction cipher front workers = (middle, .ok first) ∧
        middle.advance direction cipher back workers = (last, .ok second) ∧
        first ++ second = out := by
  rw [← delivered_eq_some, advance_append cipher direction chain front back workers workers workers
    positive fits frontAligned backAligned]
  simp only [bind, Option.bind_eq_some_iff, Prod.exists, delivered_eq_some, pure, Option.some.injEq,
    Prod.mk.injEq]
  constructor
  · rintro ⟨middle, first, taken, _, second, later, rfl, rfl⟩
    exact ⟨middle, first, second, taken, later, rfl⟩
  · rintro ⟨middle, first, second, taken, later, rfl⟩
    exact ⟨middle, first, taken, last, second, later, rfl, rfl⟩

end RoomCipher.ChainSteps
