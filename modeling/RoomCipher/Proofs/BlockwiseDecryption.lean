import RoomCipher.Proofs.Keystreams
import RoomCipher.Proofs.MagentaDifferences

/-! Decryption, one block at a time. Under a cipher that answers, a chain gives each block of a
ciphertext its plaintext and goes on to the next chain, and both are plain functions of the chain
and the block. Whatever is to be known of the decryption of a whole ciphertext is read off these
functions and the chain that the blocks in front lead to. -/
namespace RoomCipher.BlockwiseDecryption
open BlockCipher ByteLaws ChainSteps ChainInversion CipherPermutation
open Keystreams (scrambled)
open MagentaDifferences (blockXor length_blockXor)

/-! ### Differences of blocks -/

theorem xor_eq (same : a.length = b.length) : Bytes.xor a b = .ok (blockXor a b) := by
  simp only [Bytes.xor, Bytes.checkLengths, same, ↓reduceIte, bind, Except.bind, pure, Except.pure,
    blockXor]

theorem blockXor_comm (a b : Bytes) : blockXor a b = blockXor b a :=
  List.zipWith_comm_of_comm UInt8.xor_comm

theorem blockXor_assoc (a b c : Bytes) :
    blockXor (blockXor a b) c = blockXor a (blockXor b c) := by
  unfold blockXor
  apply List.ext_getElem
  · simp only [List.length_zipWith, Nat.min_assoc]
  · intro i _ _
    simp only [List.getElem_zipWith, UInt8.xor_assoc]

theorem blockXor_undone (same : a.length = b.length) : blockXor (blockXor a b) b = a := by
  obtain ⟨c, combined, length, back⟩ := xor_undone same
  cases combined.symm.trans (xor_eq same)
  exact Except.ok.inj ((xor_eq (length.trans same)).symm.trans back)

/-- What both blocks are combined with makes no difference. -/
theorem blockXor_masked (width : b.length = mask.length) :
    blockXor (blockXor a mask) (blockXor b mask) = blockXor a b := by
  rw [blockXor_assoc, blockXor_comm mask, blockXor_undone width]

variable {C : Type} [BlockCipher C] {cipher : C} {size : Nat}

/-! ### A cipher that answers -/

/-- Both block functions answer every block of `size` bytes with one. -/
structure Answers (cipher : C) (size : Nat) : Prop where
  encrypts : ∀ block, block.length = size →
    ∃ out, encryptBlock cipher block = .ok out ∧ out.length = size
  decrypts : ∀ block, block.length = size →
    ∃ out, decryptBlock cipher block = .ok out ∧ out.length = size

theorem Answers.of_permutes (permutes : Permutes cipher size) : Answers cipher size where
  encrypts block full := by
    obtain ⟨out, answer, length, _⟩ := permutes.encrypts block full
    exact ⟨out, answer, length⟩
  decrypts block full := by
    obtain ⟨out, answer, length, _⟩ := permutes.decrypts block full
    exact ⟨out, answer, length⟩

/-- What the cipher makes of a block that it takes, the other way round. -/
def unscrambled (cipher : C) (block : Bytes) : Bytes :=
  (decryptBlock cipher block).toOption.getD []

theorem Answers.encryptBlock_eq (answers : Answers cipher size) (full : block.length = size) :
    encryptBlock cipher block = .ok (scrambled cipher block) ∧
      (scrambled cipher block).length = size :=
  Outcomes.ok_getD (answers.encrypts block full) []

theorem Answers.decryptBlock_eq (answers : Answers cipher size) (full : block.length = size) :
    decryptBlock cipher block = .ok (unscrambled cipher block) ∧
      (unscrambled cipher block).length = size :=
  Outcomes.ok_getD (answers.decrypts block full) []

/-! ### One block -/

/-- The register that a block of ciphertext leaves behind. -/
def nextRegister (cipher : C) (mode : Mode) (register block : Bytes) : Bytes :=
  match mode with
  | .cbc | .cfb => block
  | .pcbc => blockXor (blockXor (unscrambled cipher block) register) block
  | .ofb => scrambled cipher register
  | .ecb | .ctr | .randomDelta => register

/-- The chain behind a block of ciphertext. -/
def onward (cipher : C) (chain : Chain) (block : Bytes) : Chain :=
  { chain with
    feedback := nextRegister cipher chain.mode chain.feedback block
    position := chain.position + 1 }

/-- What a chain makes of a block of ciphertext. -/
def cleared (cipher : C) (chain : Chain) (block : Bytes) : Bytes :=
  match chain.mode with
  | .ecb => unscrambled cipher block
  | .cbc | .pcbc => blockXor (unscrambled cipher block) chain.feedback
  | .cfb => blockXor block (scrambled cipher chain.feedback)
  | .ofb => blockXor block (scrambled cipher chain.feedback)
  | .ctr => blockXor block (scrambled cipher (Bytes.addCounter chain.iv chain.position))
  | .randomDelta => Chain.withDelta (· - ·) chain.delta block

/-- A chain that has blocks to work with, under a cipher that answers them. -/
structure Fit (cipher : C) (chain : Chain) : Prop where
  answers : Answers cipher chain.blockSize
  register_full : chain.feedback.length = chain.blockSize
  counter_full : chain.mode = .ctr → chain.iv.length = chain.blockSize
  plain : chain.mode ≠ .randomDelta

theorem length_nextRegister (answers : Answers cipher size) (mode : Mode)
    (register_full : register.length = size) (full : block.length = size) :
    (nextRegister cipher mode register block).length = size := by
  cases mode with
  | cbc => exact full
  | cfb => exact full
  | pcbc =>
    have bare := (answers.decryptBlock_eq full).2
    exact length_blockXor (length_blockXor bare register_full) full
  | ofb => exact (answers.encryptBlock_eq register_full).2
  | ecb => exact register_full
  | ctr => exact register_full
  | randomDelta => exact register_full

/-- A chain that has what it needs still has it behind a block. -/
theorem onward_fit {chain : Chain} (fit : Fit cipher chain)
    (full : block.length = chain.blockSize) : Fit cipher (onward cipher chain block) where
  answers := fit.answers
  register_full := length_nextRegister fit.answers chain.mode fit.register_full full
  counter_full := fit.counter_full
  plain := fit.plain

/-- One block: the chain answers with the block that it makes of it, and goes on. -/
theorem Fit.stepBlock_eq {chain : Chain} (fit : Fit cipher chain)
    (full : block.length = chain.blockSize) :
    stepBlock cipher .decrypt chain block =
        some (onward cipher chain block, cleared cipher chain block) ∧
      (cleared cipher chain block).length = chain.blockSize := by
  obtain ⟨mode, size, iv, feedback, position, delta⟩ := chain
  obtain ⟨answers, register_full, counter_full, plain⟩ := fit
  simp only at full answers register_full counter_full plain ⊢
  obtain ⟨bare, bare_full⟩ := answers.decryptBlock_eq full
  obtain ⟨mask, mask_full⟩ := answers.encryptBlock_eq register_full
  have clear := xor_eq (bare_full.trans register_full.symm)
  have clear_full := length_blockXor bare_full register_full
  have uncover := xor_eq (full.trans mask_full.symm)
  have uncovered_full := length_blockXor full mask_full
  cases mode with
  | ecb =>
    refine ⟨stepBlock_ok (congrArg (Prod.mk feedback) ?_), bare_full⟩
    simp only [Workers.apply, bare, bare_full, full, ↓reduceIte, cleared]
  | cbc =>
    refine ⟨stepBlock_ok ?_, clear_full⟩
    simp only [blockOutcome, Feedback.step, bare, clear, bind, Except.bind, pure, Except.pure,
      Feedback.keeping, cleared, nextRegister]
  | pcbc =>
    have carry := xor_eq (clear_full.trans full.symm)
    refine ⟨stepBlock_ok ?_, clear_full⟩
    simp only [blockOutcome, Feedback.step, bare, clear, carry, bind, Except.bind, pure,
      Except.pure, Feedback.keeping, cleared, nextRegister]
  | cfb =>
    refine ⟨stepBlock_ok ?_, uncovered_full⟩
    simp only [blockOutcome, Feedback.step, mask, uncover, bind, Except.bind, pure, Except.pure,
      Feedback.keeping, cleared, nextRegister]
  | ofb =>
    refine ⟨stepBlock_ok ?_, uncovered_full⟩
    simp only [blockOutcome, Feedback.step, mask, uncover, cleared, nextRegister]
  | ctr =>
    have counted : (Bytes.addCounter iv position).length = size :=
      (length_addCounter iv position).trans (counter_full rfl)
    obtain ⟨count, count_full⟩ := answers.encryptBlock_eq counted
    refine ⟨stepBlock_ok (congrArg (Prod.mk feedback) ?_), length_blockXor full count_full⟩
    simp only [count, bind, Except.bind, xor_eq (full.trans count_full.symm), cleared]
  | randomDelta => exact absurd rfl plain

/-- These modes combine a block of ciphertext with one that it has no part in. -/
theorem cleared_covered {chain : Chain} (fit : Fit cipher chain)
    (covers : chain.mode = .cfb ∨ chain.mode = .ofb ∨ chain.mode = .ctr) :
    ∃ mask : Bytes, mask.length = chain.blockSize ∧
      ∀ block, cleared cipher chain block = blockXor block mask := by
  unfold cleared
  have turned := (fit.answers.encryptBlock_eq fit.register_full).2
  rcases covers with mode | mode | mode
  · rw [mode]
    exact ⟨_, turned, fun _ => rfl⟩
  · rw [mode]
    exact ⟨_, turned, fun _ => rfl⟩
  · have counted := (length_addCounter chain.iv chain.position).trans (fit.counter_full mode)
    rw [mode]
    exact ⟨_, (fit.answers.encryptBlock_eq counted).2, fun _ => rfl⟩

/-! ### A whole ciphertext -/

/-- The chain behind some blocks of ciphertext. -/
def reached (cipher : C) (chain : Chain) (blocks : List Bytes) : Chain :=
  blocks.foldl (onward cipher) chain

@[simp] theorem reached_nil (cipher : C) (chain : Chain) : reached cipher chain [] = chain := rfl

theorem reached_cons (cipher : C) (chain : Chain) (block : Bytes) (rest : List Bytes) :
    reached cipher chain (block :: rest) = reached cipher (onward cipher chain block) rest := rfl

theorem reached_append (cipher : C) (chain : Chain) (front back : List Bytes) :
    reached cipher chain (front ++ back) = reached cipher (reached cipher chain front) back :=
  List.foldl_append

/-- Blocks change nothing of a chain but its register and its count. -/
theorem reached_frame (cipher : C) (chain : Chain) (blocks : List Bytes) :
    reached cipher chain blocks =
      { chain with
        feedback := (reached cipher chain blocks).feedback
        position := chain.position + UInt64.ofNat blocks.length } := by
  induction blocks generalizing chain with
  | nil => simp [reached]
  | cons block rest ih =>
    rw [reached_cons, ih]
    simp only [onward, position_succ, List.length_cons]

theorem reached_fit {chain : Chain} (fit : Fit cipher chain) (blocks : List Bytes)
    (full : ∀ block ∈ blocks, block.length = chain.blockSize) :
    Fit cipher (reached cipher chain blocks) := by
  induction blocks generalizing chain with
  | nil => exact fit
  | cons block rest ih =>
    exact ih (onward_fit fit (full block List.mem_cons_self)) fun other member =>
      full other (List.mem_cons_of_mem _ member)

/-- What the blocks of a ciphertext come to, one after the other. -/
def clearedBlocks (cipher : C) : Chain → List Bytes → List Bytes
  | _, [] => []
  | chain, block :: rest =>
    cleared cipher chain block :: clearedBlocks cipher (onward cipher chain block) rest

/-- A block comes to what the chain makes of it that the blocks in front lead to. -/
theorem getElem?_clearedBlocks (cipher : C) (chain : Chain) (blocks : List Bytes) (i : Nat) :
    (clearedBlocks cipher chain blocks)[i]? =
      blocks[i]?.map (cleared cipher (reached cipher chain (blocks.take i))) := by
  induction blocks generalizing chain i with
  | nil => rfl
  | cons block rest ih =>
    cases i with
    | zero => rfl
    | succ i => exact ih (onward cipher chain block) i

@[simp] theorem length_clearedBlocks (cipher : C) (chain : Chain) (blocks : List Bytes) :
    (clearedBlocks cipher chain blocks).length = blocks.length := by
  induction blocks generalizing chain with
  | nil => rfl
  | cons block rest ih => rw [clearedBlocks, List.length_cons, ih, List.length_cons]

theorem clearedBlocks_append (cipher : C) (chain : Chain) (front back : List Bytes) :
    clearedBlocks cipher chain (front ++ back) =
      clearedBlocks cipher chain front ++ clearedBlocks cipher (reached cipher chain front) back := by
  induction front generalizing chain with
  | nil => rfl
  | cons block rest ih => rw [List.cons_append, clearedBlocks, clearedBlocks, ih]; rfl

/-- What blocks are decrypted to. -/
abbrev plaintext (cipher : C) (chain : Chain) (blocks : List Bytes) : Bytes :=
  (clearedBlocks cipher chain blocks).flatten

theorem plaintext_append (cipher : C) (chain : Chain) (front back : List Bytes) :
    plaintext cipher chain (front ++ back) =
      plaintext cipher chain front ++ plaintext cipher (reached cipher chain front) back := by
  unfold plaintext
  rw [clearedBlocks_append, List.flatten_append]

theorem Fit.follow_eq {chain : Chain} (fit : Fit cipher chain) (blocks : List Bytes)
    (full : ∀ block ∈ blocks, block.length = chain.blockSize) :
    follow cipher .decrypt chain blocks =
        some (reached cipher chain blocks, plaintext cipher chain blocks) ∧
      ∀ out ∈ clearedBlocks cipher chain blocks, out.length = chain.blockSize := by
  induction blocks generalizing chain with
  | nil => exact ⟨rfl, nofun⟩
  | cons block rest ih =>
    have width := full block List.mem_cons_self
    obtain ⟨step, out_full⟩ := fit.stepBlock_eq width
    obtain ⟨later, later_full⟩ := ih (onward_fit fit width) fun other member =>
      full other (List.mem_cons_of_mem _ member)
    constructor
    · simp only [follow, step, later, bind, Option.bind_some, pure, plaintext, clearedBlocks,
        List.flatten_cons, reached_cons]
    · intro out member
      rcases List.mem_cons.mp member with rfl | member
      · exact out_full
      · exact later_full out member

theorem length_plaintext {chain : Chain} (fit : Fit cipher chain) (blocks : List Bytes)
    (full : ∀ block ∈ blocks, block.length = chain.blockSize) :
    (plaintext cipher chain blocks).length = blocks.length * chain.blockSize := by
  rw [length_flatten (fit.follow_eq blocks full).2, length_clearedBlocks]

/-- Decryption is what happens to the blocks, however many workers share them. -/
theorem Fit.decrypt_eq {chain : Chain} (fit : Fit cipher chain) (positive : 0 < chain.blockSize)
    (blocks : List Bytes) (full : ∀ block ∈ blocks, block.length = chain.blockSize)
    (workers : Nat) :
    chain.decrypt cipher blocks.flatten workers =
      (reached cipher chain blocks, .ok (plaintext cipher chain blocks)) := by
  have aligned : chain.blockSize ∣ blocks.flatten.length := by
    rw [length_flatten full]
    exact Nat.dvd_mul_left _ _
  apply delivered_eq_some.mp
  rw [Chain.decrypt, advance_blocks cipher .decrypt chain _ workers positive
    (fun drawn => absurd drawn fit.plain) aligned, pieces_flatten positive full]
  exact (fit.follow_eq blocks full).1

end RoomCipher.BlockwiseDecryption
