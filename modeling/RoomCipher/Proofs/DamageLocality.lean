import RoomCipher.Proofs.BlockwiseDecryption
import RoomCipher.Proofs.ChainParts

/-! What a damaged block of ciphertext does to the plaintext. Two ciphertexts that differ in one
block lead a chain through the same states but for a while: OFB, counter mode and single blocks pay
no heed to the ciphertext, while CBC and CFB keep the last block of it in the register and are back
in step one block later. The plaintexts differ where the chains or the blocks do, and wherever a
ciphertext is only combined with something, by just as much. -/
namespace RoomCipher.DamageLocality
open ByteLaws ChainSteps WorkerEquivalence BlockwiseDecryption
open MagentaDifferences (blockXor)

variable {C : Type} [BlockCipher C] {cipher : C} {chain : Chain} {size : Nat}
  {blocks others : List Bytes}

/-! ### Chains behind damaged ciphertexts -/

/-- Two ciphertexts, as blocks of one size, that are alike but for one block. -/
structure Garbled (size : Nat) (blocks others : List Bytes) (i : Nat) : Prop where
  full : ∀ block ∈ blocks, block.length = size
  others_full : ∀ block ∈ others, block.length = size
  length_eq : others.length = blocks.length
  elsewhere : ∀ j, j ≠ i → others[j]? = blocks[j]?

theorem reached_eq (length : others.length = blocks.length)
    (register : (reached cipher chain others).feedback = (reached cipher chain blocks).feedback) :
    reached cipher chain others = reached cipher chain blocks := by
  rw [reached_frame, reached_frame cipher chain blocks, length, register]

/-- In these modes the ciphertext has no part in what the chain becomes. -/
theorem reached_heedless (heedless : chain.mode = .ecb ∨ chain.mode = .ofb ∨ chain.mode = .ctr)
    (length : others.length = blocks.length) :
    reached cipher chain others = reached cipher chain blocks := by
  induction blocks generalizing chain others with
  | nil => rw [List.eq_nil_of_length_eq_zero length]
  | cons block rest ih =>
    obtain ⟨other, others, rfl⟩ := List.exists_cons_of_length_eq_add_one length
    have same : onward cipher chain other = onward cipher chain block := by
      unfold onward
      rcases heedless with mode | mode | mode <;> rw [mode] <;> rfl
    rw [reached_cons, reached_cons, same]
    apply ih
    · exact heedless
    · exact Nat.succ.inj length

/-- In these modes the register holds the last block of ciphertext. -/
theorem reached_copies (copies : chain.mode = .cbc ∨ chain.mode = .cfb)
    (last : blocks[j]? = some block) :
    (reached cipher chain (blocks.take (j + 1))).feedback = block := by
  have mode : (reached cipher chain (blocks.take j)).mode = chain.mode := by
    rw [reached_frame]
  rw [List.take_add_one, last, Option.toList_some, reached_append]
  simp only [reached_cons, reached_nil, onward, mode]
  rcases copies with copies | copies <;> rw [copies] <;> rfl

section Garbled

variable (garbled : Garbled size blocks others i)
include garbled

theorem Garbled.length_take (j : Nat) : (others.take j).length = (blocks.take j).length := by
  rw [List.length_take, List.length_take, garbled.length_eq]

/-- Up to the damage nothing has happened. -/
theorem Garbled.reached_before (before : j ≤ i) :
    reached cipher chain (others.take j) = reached cipher chain (blocks.take j) := by
  have same : others.take j = blocks.take j := by
    apply List.ext_getElem?
    intro k
    rw [List.getElem?_take, List.getElem?_take]
    split
    next earlier => exact garbled.elsewhere k (by omega)
    next => rfl
  rw [same]

/-- One block behind the damage the register holds a sound block again. -/
theorem Garbled.reached_after (copies : chain.mode = .cbc ∨ chain.mode = .cfb) (after : i + 1 < j)
    (inside : j < blocks.length) :
    reached cipher chain (others.take j) = reached cipher chain (blocks.take j) := by
  obtain ⟨k, rfl⟩ := Nat.exists_eq_add_of_lt (Nat.zero_lt_of_lt after)
  rw [Nat.zero_add] at after inside ⊢
  have sound : blocks[k]? = some blocks[k] := List.getElem?_eq_getElem (by omega)
  have same := garbled.elsewhere k (by omega)
  apply reached_eq (garbled.length_take (k + 1))
  rw [reached_copies copies sound, reached_copies copies (same.trans sound)]

end Garbled

/-! ### Plaintexts -/

/-- Data that agree in all blocks but perhaps some. -/
def AlikeBut (touched : Nat → Prop) (size : Nat) (a b : Bytes) : Prop :=
  ∀ j, ¬ touched j → blockAt a size j = blockAt b size j

/-- What two data differ by in one of their blocks. -/
def difference (size : Nat) (a b : Bytes) (j : Nat) : Bytes :=
  blockXor (blockAt a size j) (blockAt b size j)

theorem garbled_of_alikeBut (positive : 0 < size) (full : ∀ block ∈ blocks, block.length = size)
    (others_full : ∀ block ∈ others, block.length = size)
    (length : others.flatten.length = blocks.flatten.length)
    (elsewhere : AlikeBut (· = i) size blocks.flatten others.flatten) :
    Garbled size blocks others i := by
  rw [length_flatten others_full, length_flatten full] at length
  have same := Nat.eq_of_mul_eq_mul_right positive length
  refine ⟨full, others_full, same, ?_⟩
  intro j other
  by_cases inside : j < blocks.length
  · have place : blocks[j]? = some blocks[j] := List.getElem?_eq_getElem inside
    have within : j < others.length := same ▸ inside
    have garbled : others[j]? = some others[j] := List.getElem?_eq_getElem within
    have alike := elsewhere j other
    rw [blockAt_flatten positive full place, blockAt_flatten positive others_full garbled] at alike
    rw [place, garbled, alike]
  · rw [List.getElem?_eq_none (Nat.le_of_not_lt inside),
      List.getElem?_eq_none (same ▸ Nat.le_of_not_lt inside)]

/-- A block of plaintext is what the chain makes of the block of ciphertext in its place. -/
theorem blockAt_plaintext (fit : Fit cipher chain) (positive : 0 < chain.blockSize)
    (full : ∀ block ∈ blocks, block.length = chain.blockSize) (place : blocks[j]? = some block) :
    blockAt (plaintext cipher chain blocks) chain.blockSize j =
      cleared cipher (reached cipher chain (blocks.take j)) block := by
  apply blockAt_flatten positive (fit.follow_eq blocks full).2
  rw [getElem?_clearedBlocks, place, Option.map_some]

/-- The two blocks that arrived in place of each other. -/
theorem Garbled.exchanged (garbled : Garbled size blocks others i) (positive : 0 < size)
    (inside : i < blocks.length) :
    ∃ block other, blocks[i]? = some block ∧ others[i]? = some other ∧ other.length = size ∧
      difference size blocks.flatten others.flatten i = blockXor block other := by
  have within : i < others.length := garbled.length_eq ▸ inside
  have place : blocks[i]? = some blocks[i] := List.getElem?_eq_getElem inside
  have garbled_place : others[i]? = some others[i] := List.getElem?_eq_getElem within
  refine ⟨blocks[i], others[i], place, garbled_place,
    garbled.others_full _ (List.getElem_mem within), ?_⟩
  rw [difference, blockAt_flatten positive garbled.full place,
    blockAt_flatten positive garbled.others_full garbled_place]

section Plaintexts

variable (garbled : Garbled chain.blockSize blocks others i) (fit : Fit cipher chain)
  (positive : 0 < chain.blockSize)
include garbled fit positive

/-- The same chain in front of the same block makes the same of it. -/
theorem Garbled.alikeBut {touched : Nat → Prop} (hit : touched i)
    (steps : ∀ j < blocks.length, ¬ touched j →
      reached cipher chain (others.take j) = reached cipher chain (blocks.take j)) :
    AlikeBut touched chain.blockSize (plaintext cipher chain blocks)
      (plaintext cipher chain others) := by
  intro j untouched
  by_cases inside : j < blocks.length
  · have place : blocks[j]? = some blocks[j] := List.getElem?_eq_getElem inside
    have sound := (garbled.elsewhere j fun same => untouched (same ▸ hit)).trans place
    rw [blockAt_plaintext fit positive garbled.full place,
      blockAt_plaintext fit positive garbled.others_full sound, steps j inside untouched]
  · have beyond := Nat.mul_le_mul_right chain.blockSize (Nat.le_of_not_lt inside)
    rw [blockAt_beyond (length_plaintext fit blocks garbled.full ▸ beyond), blockAt_beyond]
    rw [length_plaintext fit others garbled.others_full, garbled.length_eq]
    exact beyond

theorem Garbled.alike_heedless (mode : chain.mode = .ecb ∨ chain.mode = .ofb ∨ chain.mode = .ctr) :
    AlikeBut (· = i) chain.blockSize (plaintext cipher chain blocks)
      (plaintext cipher chain others) := by
  refine garbled.alikeBut fit positive rfl ?_
  intro j _ _
  exact reached_heedless mode (garbled.length_take j)

theorem Garbled.alike_copies (mode : chain.mode = .cbc ∨ chain.mode = .cfb) :
    AlikeBut (fun j => j = i ∨ j = i + 1) chain.blockSize (plaintext cipher chain blocks)
      (plaintext cipher chain others) := by
  refine garbled.alikeBut fit positive (.inl rfl) ?_
  intro j inside untouched
  rcases Nat.lt_or_ge i j with after | before
  · exact garbled.reached_after mode (by omega) inside
  · exact garbled.reached_before before

/-- Where the ciphertext is combined with something that does not depend on it, the plaintexts
differ by as much as the ciphertexts. -/
theorem Garbled.difference_covered
    (covers : chain.mode = .cfb ∨ chain.mode = .ofb ∨ chain.mode = .ctr)
    (inside : i < blocks.length) :
    difference chain.blockSize (plaintext cipher chain blocks) (plaintext cipher chain others) i =
      difference chain.blockSize blocks.flatten others.flatten i := by
  obtain ⟨block, other, place, garbled_place, other_full, differs⟩ :=
    garbled.exchanged positive inside
  have front_full (block : Bytes) (member : block ∈ blocks.take i) :=
    garbled.full block (List.mem_of_mem_take member)
  obtain ⟨mask, width, mask_eq⟩ := cleared_covered (reached_fit fit _ front_full) (by
    rw [reached_frame]
    exact covers)
  rw [reached_frame] at width
  rw [differs, difference, blockAt_plaintext fit positive garbled.full place,
    blockAt_plaintext fit positive garbled.others_full garbled_place,
    garbled.reached_before (Nat.le_refl i), mask_eq, mask_eq]
  exact blockXor_masked (other_full.trans width.symm)

/-- CBC combines each block with the ciphertext in front of it. -/
theorem Garbled.difference_next (mode : chain.mode = .cbc) (inside : i + 1 < blocks.length) :
    difference chain.blockSize (plaintext cipher chain blocks) (plaintext cipher chain others)
        (i + 1) =
      difference chain.blockSize blocks.flatten others.flatten i := by
  obtain ⟨block, other, place, garbled_place, other_full, differs⟩ :=
    garbled.exchanged positive (Nat.lt_of_succ_lt inside)
  have next : blocks[i + 1]? = some blocks[i + 1] := List.getElem?_eq_getElem inside
  have sound := (garbled.elsewhere (i + 1) (Nat.succ_ne_self i)).trans next
  have bare := (fit.answers.decryptBlock_eq (garbled.full _ (List.mem_of_getElem? next))).2
  have combined (blocks : List Bytes) (block : Bytes) :
      cleared cipher (reached cipher chain blocks) block =
        blockXor (reached cipher chain blocks).feedback (unscrambled cipher block) := by
    rw [blockXor_comm, cleared, reached_frame, mode]
  rw [differs, difference, blockAt_plaintext fit positive garbled.full next,
    blockAt_plaintext fit positive garbled.others_full sound, combined, combined,
    reached_copies (.inl mode) place, reached_copies (.inl mode) garbled_place]
  exact blockXor_masked (other_full.trans bare.symm)

end Plaintexts

/-- Two ciphertexts of whole blocks that differ in a single one are decrypted, from the same chain
and by any number of workers, to plaintexts as long as they are. These differ in no other block
where each block stands alone, in OFB and in counter mode, and in CBC and CFB perhaps in the next
one too. In OFB, counter mode and CFB the block itself shows exactly what the ciphertexts differ by,
in CBC the next one does. -/
theorem damage_confined (answers : Answers cipher chain.blockSize)
    (iv_full : chain.iv.length = chain.blockSize)
    (register_full : chain.feedback.length = chain.blockSize) (plain : chain.mode ≠ .randomDelta)
    (aligned : chain.blockSize ∣ sent.length) (length : received.length = sent.length)
    (inside : i < sent.length / chain.blockSize)
    (elsewhere : AlikeBut (· = i) chain.blockSize sent received) (workers spread : Nat) :
    ∃ clear garbled,
      (chain.decrypt cipher sent workers).2 = .ok clear ∧
      (chain.decrypt cipher received spread).2 = .ok garbled ∧
      clear.length = sent.length ∧ garbled.length = sent.length ∧
      (chain.mode = .ecb → AlikeBut (· = i) chain.blockSize clear garbled) ∧
      (chain.mode = .cbc →
        AlikeBut (fun j => j = i ∨ j = i + 1) chain.blockSize clear garbled ∧
        (i + 1 < sent.length / chain.blockSize →
          difference chain.blockSize clear garbled (i + 1) =
            difference chain.blockSize sent received i)) ∧
      (chain.mode = .cfb →
        AlikeBut (fun j => j = i ∨ j = i + 1) chain.blockSize clear garbled ∧
        difference chain.blockSize clear garbled i = difference chain.blockSize sent received i) ∧
      (chain.mode = .ofb ∨ chain.mode = .ctr →
        AlikeBut (· = i) chain.blockSize clear garbled ∧
        difference chain.blockSize clear garbled i =
          difference chain.blockSize sent received i) := by
  have fit : Fit cipher chain := ⟨answers, register_full, fun _ => iv_full, plain⟩
  have positive : 0 < chain.blockSize := by
    by_contra zero
    rw [Nat.eq_zero_of_not_pos zero, Nat.div_zero] at inside
    exact absurd inside (Nat.not_lt_zero i)
  obtain ⟨blocks, rfl, full⟩ := exists_blocks aligned
  obtain ⟨others, rfl, others_full⟩ := exists_blocks (length.symm ▸ aligned)
  have garbled := garbled_of_alikeBut positive full others_full length elsewhere
  have count : blocks.flatten.length / chain.blockSize = blocks.length := by
    rw [length_flatten full, Nat.mul_div_cancel _ positive]
  rw [count] at inside ⊢
  refine ⟨plaintext cipher chain blocks, plaintext cipher chain others,
    congrArg Prod.snd (fit.decrypt_eq positive blocks full workers),
    congrArg Prod.snd (fit.decrypt_eq positive others others_full spread), ?_, ?_, ?_, ?_, ?_, ?_⟩
  · rw [length_plaintext fit blocks full, length_flatten full]
  · rw [length_plaintext fit others others_full, garbled.length_eq, length_flatten full]
  · intro mode
    exact garbled.alike_heedless fit positive (.inl mode)
  · intro mode
    exact ⟨garbled.alike_copies fit positive (.inl mode), garbled.difference_next fit positive mode⟩
  · intro mode
    exact ⟨garbled.alike_copies fit positive (.inr mode),
      garbled.difference_covered fit positive (.inl mode) inside⟩
  · intro mode
    exact ⟨garbled.alike_heedless fit positive (.inr mode),
      garbled.difference_covered fit positive (.inr mode) inside⟩

/-- A CBC chain over blocks of 16 bytes. -/
def chained : Chain := Chain.start .cbc (List.replicate 16 3) 16

/-- Three blocks. -/
def threeSent : Bytes := List.replicate 48 7

/-- The same, but for all bytes of the middle one. -/
def threeReceived : Bytes :=
  List.replicate 16 7 ++ (List.replicate 16 8 ++ List.replicate 16 7)

theorem alikeBut_middle : AlikeBut (· = 1) 16 threeSent threeReceived := by
  intro j other
  match j with
  | 0 => rfl
  | 1 => exact absurd rfl other
  | 2 => rfl
  | j + 3 =>
    have beyond : 48 ≤ (j + 3) * 16 := by omega
    rw [blockAt_beyond beyond, blockAt_beyond beyond]

/-- MAGENTA under a short key. The last block shows how the middle one was damaged. -/
theorem damage_confined_middle :
    Answers ChainParts.keyed 16 ∧ AlikeBut (· = 1) 16 threeSent threeReceived ∧
      ∃ clear garbled,
        (chained.decrypt ChainParts.keyed threeSent 1).2 = .ok clear ∧
        (chained.decrypt ChainParts.keyed threeReceived 1).2 = .ok garbled ∧
        AlikeBut (fun j => j = 1 ∨ j = 2) 16 clear garbled ∧
        difference 16 clear garbled 2 = List.replicate 16 15 := by
  have taken : BlockCipher.setKey Magenta.standard [1, 2, 3] = (ChainParts.keyed, .ok ()) := rfl
  have answers := Answers.of_permutes (KeyedContexts.KeyedCipher.permutes
    KeyedContexts.workable_magenta taken)
  have whole : chained.blockSize ∣ threeSent.length := ⟨3, rfl⟩
  have length : threeReceived.length = threeSent.length := rfl
  have inside : 1 < threeSent.length / chained.blockSize := Nat.lt_of_sub_eq_succ rfl
  have iv_full : chained.iv.length = chained.blockSize := rfl
  obtain ⟨clear, garbled, decrypted, misread, _, _, _, chain, _, _⟩ :=
    damage_confined answers iv_full rfl nofun whole length inside alikeBut_middle 1 1
  obtain ⟨elsewhere, next⟩ := chain rfl
  exact ⟨answers, alikeBut_middle, clear, garbled, decrypted, misread, elsewhere,
    next (Nat.lt_succ_self 2)⟩

end RoomCipher.DamageLocality
