import RoomCipher.Proofs.BlockwiseDecryption
import RoomCipher.Proofs.ChainParts
import RoomCipher.Proofs.ContextRoundTrip

/-! What PCBC keeps of the blocks it has decrypted. Each of them is combined into the register
together with what it was decrypted to, and that is all: blocks that trade places leave the same
register, and what comes behind them decrypts as if nothing had happened. -/
namespace RoomCipher.ForgottenOrder
open BlockCipher ByteLaws ChainSteps BlockwiseDecryption PaddingLaws ContextRoundTrip
open MagentaDifferences (blockXor)

variable {C : Type} [BlockCipher C] {cipher : C} {chain : Chain} {blocks front : List Bytes}

/-- A block of ciphertext, combined with what the cipher makes of it. -/
def trace (cipher : C) (block : Bytes) : Bytes :=
  blockXor (unscrambled cipher block) block

/-- A register with the traces of some blocks in it. -/
def gathered (cipher : C) (register : Bytes) (blocks : List Bytes) : Bytes :=
  blocks.foldl (fun register block => blockXor register (trace cipher block)) register

theorem gathered_perm (register : Bytes) (moved : front.Perm blocks) :
    gathered cipher register front = gathered cipher register blocks := by
  unfold gathered
  apply moved.foldl_eq'
  intro a _ b _ register
  rw [blockXor_assoc, blockXor_assoc, blockXor_comm (trace cipher a)]

theorem nextRegister_pcbc (register block : Bytes) :
    nextRegister cipher .pcbc register block = blockXor register (trace cipher block) := by
  unfold trace
  rw [← blockXor_assoc, blockXor_comm register]
  rfl

/-- Behind some blocks the register is the one in front of them with their traces in it. -/
theorem reached_pcbc (mode : chain.mode = .pcbc) (blocks : List Bytes) :
    reached cipher chain blocks =
      { chain with
        feedback := gathered cipher chain.feedback blocks
        position := chain.position + UInt64.ofNat blocks.length } := by
  -- The rest of the chain is known already; the register is what there is an induction for.
  suffices register : (reached cipher chain blocks).feedback =
      gathered cipher chain.feedback blocks by
    rw [reached_frame, register]
  induction blocks generalizing chain with
  | nil => rfl
  | cons block rest ih =>
    have still : (onward cipher chain block).mode = .pcbc := mode
    have step : (onward cipher chain block).feedback =
        blockXor chain.feedback (trace cipher block) := by
      rw [← nextRegister_pcbc, ← mode]
      rfl
    rw [reached_cons, ih still, step]
    rfl

theorem reached_perm (mode : chain.mode = .pcbc) (moved : front.Perm blocks) :
    reached cipher chain front = reached cipher chain blocks := by
  rw [reached_pcbc mode, reached_pcbc mode, gathered_perm _ moved, moved.length_eq]

/-! ### Whole messages -/

/-- A context gives a message that comes in blocks exactly if their plaintext has its padding. -/
theorem decrypt_eq_ok {context : Context C} (fit : Fit context.cipher context.newChain)
    (positive : 0 < context.newChain.blockSize)
    (full : ∀ block ∈ blocks, block.length = context.newChain.blockSize) :
    context.decrypt blocks.flatten = .ok message ↔
      context.config.padding.remove (plaintext context.cipher context.newChain blocks) =
        .ok message := by
  have length := length_flatten full
  by_cases written : blocks.flatten = []
  · rw [written, List.length_nil] at length
    have none : blocks = [] := by
      rcases Nat.mul_eq_zero.mp length.symm with none | zero
      · exact List.eq_nil_of_length_eq_zero none
      · exact absurd zero (Nat.ne_of_gt positive)
    subst none
    -- An empty ciphertext is refused as such, but there is no padding in nothing either.
    exact iff_of_false nofun nofun
  · have headless : ([] : Bytes).length = context.newChain.headerLength :=
      (headerLength_plain fit.plain).symm
    have aligned : context.blockSize ∣ blocks.flatten.length := length ▸ Nat.dvd_mul_left _ _
    have begun : context.newChain.beginDecrypt [] = (context.newChain, .ok ()) := by
      rw [Chain.beginDecrypt, if_neg (not_not_intro headless), if_neg fit.plain]
    have padded := decryptPadded_eq written headless aligned begun
    rw [fit.decrypt_eq positive blocks full, List.nil_append] at padded
    rw [Context.decrypt, padded]
    rfl

theorem full_of_perm (full : ∀ block ∈ blocks, block.length = size)
    (moved : front.Perm (blocks.take k)) :
    ∀ block ∈ front ++ blocks.drop k, block.length = size := by
  intro block member
  rcases List.mem_append.mp member with member | member
  · exact full block (List.mem_of_mem_take (moved.mem_iff.mp member))
  · exact full block (List.mem_of_mem_drop member)

/-- Behind any number of blocks the register of a PCBC chain is the one it began with, combined with
the traces of them all. So these blocks can come in any other order, and those behind them are
decrypted to the same tail of a plaintext; and whether a context finds its padding in the tail, and
what it leaves of it, is up to the tail alone. -/
theorem order_forgotten (answers : Answers cipher chain.blockSize) (positive : 0 < chain.blockSize)
    (mode : chain.mode = .pcbc) (register_full : chain.feedback.length = chain.blockSize)
    (full : ∀ block ∈ blocks, block.length = chain.blockSize) (k : Nat) :
    ∃ clear tail,
      (∀ workers, chain.decrypt cipher (blocks.take k).flatten workers =
        ({ chain with
            feedback := gathered cipher chain.feedback (blocks.take k)
            position := chain.position + UInt64.ofNat (blocks.take k).length }, .ok clear)) ∧
      (∀ workers, (chain.decrypt cipher blocks.flatten workers).2 = .ok (clear ++ tail)) ∧
      clear.length = (blocks.take k).length * chain.blockSize ∧
      ∀ front, front.Perm (blocks.take k) → ∃ moved,
        (∀ workers, (chain.decrypt cipher (front ++ blocks.drop k).flatten workers).2 =
          .ok (moved ++ tail)) ∧
        moved.length = clear.length ∧
        ∀ context : Context C, context.cipher = cipher → context.newChain = chain →
          ∀ rest, (context.config.padding = .zeros → rest ≠ []) →
            (context.decrypt blocks.flatten = .ok (clear ++ rest) ↔
              context.config.padding.remove tail = .ok rest) ∧
            (context.decrypt (front ++ blocks.drop k).flatten = .ok (moved ++ rest) ↔
              context.config.padding.remove tail = .ok rest) := by
  have fit : Fit cipher chain :=
    ⟨answers, register_full, by rw [mode]; nofun, by rw [mode]; nofun⟩
  have front_full (block : Bytes) (member : block ∈ blocks.take k) :=
    full block (List.mem_of_mem_take member)
  have front_length := length_plaintext fit _ front_full
  have whole := plaintext_append cipher chain (blocks.take k) (blocks.drop k)
  rw [List.take_append_drop] at whole
  refine ⟨plaintext cipher chain (blocks.take k),
    plaintext cipher (reached cipher chain (blocks.take k)) (blocks.drop k), ?_, ?_, front_length, ?_⟩
  · intro workers
    rw [fit.decrypt_eq positive _ front_full, reached_pcbc mode]
  · intro workers
    rw [fit.decrypt_eq positive blocks full, whole]
  · intro front perm
    have moved_full := full_of_perm full perm
    have moved_length := length_plaintext fit front fun block member =>
      front_full block (perm.mem_iff.mp member)
    have moved := plaintext_append cipher chain front (blocks.drop k)
    rw [reached_perm mode perm] at moved
    refine ⟨plaintext cipher chain front, ?_, ?_, ?_⟩
    · intro workers
      rw [fit.decrypt_eq positive _ moved_full, moved]
    · rw [moved_length, front_length, perm.length_eq]
    · rintro context rfl rfl rest kept
      rw [decrypt_eq_ok fit positive full, decrypt_eq_ok fit positive moved_full, whole, moved]
      exact ⟨remove_behind kept _ _, remove_behind kept _ _⟩

/-- Three blocks that a PCBC chain over MAGENTA decrypts, and what it is once the first two have
come the other way round. -/
theorem order_forgotten_swapped :
    Answers ChainParts.keyed 16 ∧ ∃ clear moved tail,
      ((Chain.start .pcbc (List.replicate 16 9) 16).decrypt ChainParts.keyed
        (List.replicate 16 1 ++ (List.replicate 16 2 ++ List.replicate 16 3)) 1).2 =
          .ok (clear ++ tail) ∧
      ((Chain.start .pcbc (List.replicate 16 9) 16).decrypt ChainParts.keyed
        (List.replicate 16 2 ++ (List.replicate 16 1 ++ List.replicate 16 3)) 1).2 =
          .ok (moved ++ tail) ∧
      clear.length = 32 ∧ moved.length = 32 := by
  have taken : BlockCipher.setKey Magenta.standard [1, 2, 3] = (ChainParts.keyed, .ok ()) := rfl
  have answers := Answers.of_permutes (KeyedContexts.KeyedCipher.permutes
    KeyedContexts.workable_magenta taken)
  have full : ∀ block ∈ [List.replicate 16 1, List.replicate 16 2, List.replicate 16 (3 : UInt8)],
      block.length = (Chain.start .pcbc (List.replicate 16 9) 16).blockSize := by
    simp [Chain.start]
  obtain ⟨clear, tail, _, decrypted, length, reordered⟩ :=
    order_forgotten answers (Nat.zero_lt_succ 15) rfl rfl full 2
  obtain ⟨moved, changed, same, _⟩ := reordered _ (List.Perm.swap _ _ _)
  exact ⟨answers, clear, moved, tail, decrypted 1, changed 1, length, same.trans length⟩

end RoomCipher.ForgottenOrder
