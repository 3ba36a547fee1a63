import Mathlib.Algebra.Group.Nat.Defs
import RoomCipher.Cipher.Rc5
import RoomCipher.Proofs.ByteLaws
import RoomCipher.Proofs.CipherPermutation

/-! The inverse rounds of RC5 take back its rounds at every word size. A register
that fits its word is a machine word of that many bits (`lift`), and the masked
register operations are the operations of that machine: sums and differences
modulo a power of two, and rotations of the whole word. There the inverse of each
operation is known; it holds of the registers because they never outgrow the word. -/
namespace RoomCipher.Rc5Inversion
open Rc5 ByteLaws CipherPermutation

/-! ### Registers as words -/

/-- The machine word in a register. -/
def lift (word : WordSize) (x : UInt64) : BitVec word.bits := x.toBitVec.setWidth word.bits

/-- The register holds no more than a word. -/
def Fits (word : WordSize) (x : UInt64) : Prop := x.toNat < 2 ^ word.bits

variable {word : WordSize} {x y : UInt64}

theorem bits_pos (word : WordSize) : 0 < word.bits := by cases word <;> decide

theorem bytes_pos (word : WordSize) : 0 < word.bytes := by cases word <;> decide

theorem bits_le (word : WordSize) : word.bits ≤ 64 := by cases word <;> decide

theorem bytes_bits (word : WordSize) : 256 ^ word.bytes = 2 ^ word.bits := by
  cases word <;> rfl

theorem toNat_masked (word : WordSize) (x : UInt64) :
    (x &&& word.mask).toNat = x.toNat % 2 ^ word.bits := by
  have ones : word.mask.toNat = 2 ^ word.bits - 1 := by cases word <;> rfl
  rw [UInt64.toNat_and, ones, Nat.and_two_pow_sub_one_eq_mod]

theorem fits_masked (word : WordSize) (x : UInt64) : Fits word (x &&& word.mask) := by
  rw [Fits, toNat_masked]
  exact Nat.mod_lt _ (Nat.two_pow_pos _)

@[simp] theorem lift_masked (word : WordSize) (x : UInt64) :
    lift word (x &&& word.mask) = lift word x := by
  apply BitVec.eq_of_toNat_eq
  simp only [lift, BitVec.toNat_setWidth, UInt64.toNat_toBitVec, toNat_masked, Nat.mod_mod]

/-- Registers that fit are told apart by their words. -/
theorem lift_inj (small : Fits word x) (narrow : Fits word y) (same : lift word x = lift word y) :
    x = y := by
  have values := congrArg BitVec.toNat same
  simp only [lift, BitVec.toNat_setWidth, UInt64.toNat_toBitVec] at values
  rw [Nat.mod_eq_of_lt small, Nat.mod_eq_of_lt narrow] at values
  exact UInt64.toNat_inj.mp values

theorem fits_xor (small : Fits word x) (narrow : Fits word y) : Fits word (x ^^^ y) := by
  rw [Fits, UInt64.toNat_xor]
  exact Nat.xor_lt_two_pow small narrow

theorem fits_add : Fits word (word.add x y) := fits_masked word _

theorem fits_sub : Fits word (word.sub x y) := fits_masked word _

theorem fits_rotateLeft (small : Fits word x) : Fits word (word.rotateLeft x y) := by
  simp only [WordSize.rotateLeft]
  split
  · exact small
  · exact fits_masked word _

theorem fits_rotateRight (small : Fits word x) : Fits word (word.rotateRight x y) := by
  simp only [WordSize.rotateRight]
  split
  · exact small
  · exact fits_masked word _

theorem lift_add : lift word (word.add x y) = lift word x + lift word y := by
  rw [WordSize.add, lift_masked]
  exact BitVec.setWidth_add x.toBitVec y.toBitVec (bits_le word)

theorem lift_sub : lift word (word.sub x y) = lift word x - lift word y := by
  have sum : lift word (x - y) + lift word y = lift word x := by
    rw [← lift_add, WordSize.add, lift_masked, UInt64.sub_add_cancel]
  rw [WordSize.sub, lift_masked, ← sum, BitVec.add_sub_cancel]

/-! ### Rotations -/

private theorem amount_toNat (word : WordSize) (amount : UInt64) :
    (amount % UInt64.ofNat word.bits).toNat = amount.toNat % word.bits := by
  cases word <;> rfl

private theorem rest_toNat (word : WordSize) (amount : UInt64) (small : amount.toNat ≤ word.bits) :
    (UInt64.ofNat word.bits - amount).toNat = word.bits - amount.toNat := by
  have width : (UInt64.ofNat word.bits).toNat = word.bits := by cases word <;> rfl
  rw [UInt64.toNat_sub_of_le _ _ (by rw [UInt64.le_iff_toNat_le, width]; exact small), width]

theorem lift_shiftLeft (word : WordSize) (x amount : UInt64) (small : amount.toNat < 64) :
    lift word (x <<< amount) = lift word x <<< amount.toNat := by
  rw [lift, toBitVec_shiftLeft x amount small, BitVec.setWidth_shiftLeft_of_le (bits_le word)]
  rfl

private theorem lift_shiftRight (fits : Fits word x) (amount : UInt64)
    (small : amount.toNat < 64) : lift word (x >>> amount) = lift word x >>> amount.toNat := by
  have whole : x.toBitVec = (lift word x).setWidth 64 := by
    apply BitVec.eq_of_toNat_eq
    simp only [lift, BitVec.toNat_setWidth, UInt64.toNat_toBitVec]
    rw [Nat.mod_eq_of_lt fits, Nat.mod_eq_of_lt x.toNat_lt]
  rw [lift, toBitVec_shiftRight x amount small, whole, ← BitVec.setWidth_ushiftRight (bits_le word),
    BitVec.setWidth_setWidth_of_le _ (bits_le word), BitVec.setWidth_eq]

theorem lift_rotateLeft (fits : Fits word x) :
    lift word (word.rotateLeft x y) = (lift word x).rotateLeft y.toNat := by
  have turn := amount_toNat word y
  have below := Nat.mod_lt y.toNat (bits_pos word)
  have width := bits_le word
  rw [← BitVec.rotateLeft_mod_eq_rotateLeft, WordSize.rotateLeft]
  generalize y % UInt64.ofNat word.bits = amount at turn ⊢
  rw [← turn] at below ⊢
  by_cases still : amount = 0
  · simp [still, BitVec.rotateLeft_def, BitVec.ushiftRight_eq_zero]
  · have moved : amount.toNat ≠ 0 := fun zero => still (UInt64.toNat_inj.mp zero)
    have rest := rest_toNat word amount (Nat.le_of_lt below)
    simp only [still, ↓reduceIte, lift_masked]
    rw [BitVec.rotateLeft_def, Nat.mod_eq_of_lt below, ← rest,
      ← lift_shiftLeft word x amount (by omega), ← lift_shiftRight fits _ (by omega)]
    exact BitVec.setWidth_or

theorem lift_rotateRight (fits : Fits word x) :
    lift word (word.rotateRight x y) = (lift word x).rotateRight y.toNat := by
  have turn := amount_toNat word y
  have below := Nat.mod_lt y.toNat (bits_pos word)
  have width := bits_le word
  rw [← BitVec.rotateRight_mod_eq_rotateRight, WordSize.rotateRight]
  generalize y % UInt64.ofNat word.bits = amount at turn ⊢
  rw [← turn] at below ⊢
  by_cases still : amount = 0
  · simp [still, BitVec.rotateRight_def]
  · have moved : amount.toNat ≠ 0 := fun zero => still (UInt64.toNat_inj.mp zero)
    have rest := rest_toNat word amount (Nat.le_of_lt below)
    simp only [still, ↓reduceIte, lift_masked]
    rw [BitVec.rotateRight_def, Nat.mod_eq_of_lt below, ← rest,
      ← lift_shiftLeft word x _ (by omega), ← lift_shiftRight fits amount (by omega)]
    exact BitVec.setWidth_or

private theorem rotateRight_rotateLeft {width : Nat} (bits : BitVec width) (amount : Nat) :
    (bits.rotateLeft amount).rotateRight amount = bits := by
  apply BitVec.eq_of_getElem_eq
  intro i bound
  have below : amount % width < width := Nat.mod_lt _ (by omega)
  rw [BitVec.getElem_rotateRight]
  split <;> rw [BitVec.getElem_rotateLeft] <;> split <;> first | omega | (congr 1; omega)

private theorem rotateLeft_rotateRight {width : Nat} (bits : BitVec width) (amount : Nat) :
    (bits.rotateRight amount).rotateLeft amount = bits := by
  apply BitVec.eq_of_getElem_eq
  intro i bound
  have below : amount % width < width := Nat.mod_lt _ (by omega)
  rw [BitVec.getElem_rotateLeft]
  split <;> rw [BitVec.getElem_rotateRight] <;> split <;> first | omega | (congr 1; omega)

/-! ### Rounds -/

theorem sub_add (fits : Fits word x) : word.sub (word.add x y) y = x := by
  apply lift_inj fits_sub fits
  rw [lift_sub, lift_add, BitVec.add_sub_cancel]

theorem add_sub (fits : Fits word x) : word.add (word.sub x y) y = x := by
  apply lift_inj fits_add fits
  rw [lift_add, lift_sub, BitVec.sub_add_cancel]

theorem right_left (fits : Fits word x) : word.rotateRight (word.rotateLeft x y) y = x := by
  apply lift_inj (fits_rotateRight (fits_rotateLeft fits)) fits
  rw [lift_rotateRight (fits_rotateLeft fits), lift_rotateLeft fits, rotateRight_rotateLeft]

theorem left_right (fits : Fits word x) : word.rotateLeft (word.rotateRight x y) y = x := by
  apply lift_inj (fits_rotateLeft (fits_rotateRight fits)) fits
  rw [lift_rotateLeft (fits_rotateRight fits), lift_rotateRight fits, rotateLeft_rotateRight]

/-- Both registers of a block fit. -/
def BothFit (word : WordSize) (words : UInt64 × UInt64) : Prop :=
  Fits word words.1 ∧ Fits word words.2

theorem round_fits (words keys : UInt64 × UInt64) : BothFit word (round word words keys) :=
  ⟨fits_add, fits_add⟩

theorem unround_fits (keys words : UInt64 × UInt64) (fit : BothFit word words) :
    BothFit word (unround word keys words) := by
  have second := fits_xor (fits_rotateRight (y := words.1) (fits_sub (x := words.2) (y := keys.2)))
    fit.1
  exact ⟨fits_xor (fits_rotateRight fits_sub) second, second⟩

theorem unround_round (words keys : UInt64 × UInt64) (fit : BothFit word words) :
    unround word keys (round word words keys) = words := by
  obtain ⟨a, b⟩ := words
  obtain ⟨first, second⟩ := fit
  simp only [Rc5.round, unround]
  generalize built : word.add (word.rotateLeft (a ^^^ b) b) keys.1 = a'
  have left : Fits word a' := built ▸ fits_add
  rw [sub_add (fits_rotateLeft (fits_xor second left)), right_left (fits_xor second left),
    xor_twice, ← built, sub_add (fits_rotateLeft (fits_xor first second)),
    right_left (fits_xor first second), xor_twice]

theorem round_unround (keys words : UInt64 × UInt64) (fit : BothFit word words) :
    round word (unround word keys words) keys = words := by
  obtain ⟨a, b⟩ := words
  obtain ⟨first, second⟩ := fit
  simp only [Rc5.round, unround, xor_twice]
  rw [left_right fits_sub, add_sub first, xor_twice, left_right fits_sub, add_sub second]

theorem decryptWords_encryptWords (schedule : List UInt64) (words : UInt64 × UInt64)
    (fit : BothFit word words) :
    decryptWords word schedule (encryptWords word schedule words) = words := by
  simp only [decryptWords, encryptWords]
  cases pairs schedule with
  | nil => rfl
  | cons first keys =>
    have back := foldr_undo_foldl (BothFit word) id
      (fun state key _ => round_fits state key) (fun state key => unround_round state key) keys
      (word.add words.1 first.1, word.add words.2 first.2) ⟨fits_add, fits_add⟩
    simp only [id] at back
    simp only [back, sub_add fit.1, sub_add fit.2]

theorem encryptWords_decryptWords (schedule : List UInt64) (words : UInt64 × UInt64)
    (fit : BothFit word words) :
    encryptWords word schedule (decryptWords word schedule words) = words := by
  simp only [decryptWords, encryptWords]
  cases pairs schedule with
  | nil => rfl
  | cons first keys =>
    have held : BothFit word (keys.foldr (unround word) words) :=
      List.foldrRecOn keys _ fit fun state fit key _ => unround_fits key state fit
    have again := foldl_step_foldr (BothFit word) id unround_fits
      (fun key state => round_unround key state) keys words fit
    simp only [id] at again
    simp only [add_sub held.1, add_sub held.2]
    exact again

theorem encryptWords_fits (schedule : List UInt64) (words : UInt64 × UInt64)
    (fit : BothFit word words) : BothFit word (encryptWords word schedule words) := by
  simp only [encryptWords]
  cases pairs schedule with
  | nil => exact fit
  | cons first keys =>
    exact List.foldlRecOn keys _ ⟨fits_add, fits_add⟩ fun state _ key _ => round_fits state key

theorem decryptWords_fits (schedule : List UInt64) (words : UInt64 × UInt64)
    (fit : BothFit word words) : BothFit word (decryptWords word schedule words) := by
  simp only [decryptWords]
  cases pairs schedule with
  | nil => exact fit
  | cons first keys => exact ⟨fits_sub, fits_sub⟩

/-! ### Blocks -/

private theorem toNat_littleEndian (bytes : Bytes) (width : bytes.length = word.bytes) :
    (UInt64.ofNat (Bytes.littleEndian bytes)).toNat = Bytes.littleEndian bytes := by
  have bound := littleEndian_lt bytes
  have wide : 2 ^ word.bits ≤ 2 ^ 64 := Nat.pow_le_pow_right (by decide) (bits_le word)
  rw [width, bytes_bits] at bound
  exact Nat.mod_eq_of_lt (Nat.lt_of_lt_of_le bound wide)

private theorem halves (block : Bytes) (full : block.length = 2 * word.bytes) :
    (block.take word.bytes).length = word.bytes ∧ (block.drop word.bytes).length = word.bytes :=
  length_take_drop (full.trans (Nat.two_mul _))

/-- The bytes of two words that fit. -/
def bothBytes (word : WordSize) (words : UInt64 × UInt64) : Bytes :=
  Bytes.ofLittleEndian word.bytes words.1.toNat ++ Bytes.ofLittleEndian word.bytes words.2.toNat

/-- Words that fit are written out whole. -/
theorem join_fits (fit : BothFit word words) : join word words = .ok (bothBytes word words) := by
  obtain ⟨first, second⟩ := fit
  rw [Fits, ← bytes_bits] at first second
  simp only [join, writeLittleEndian_fits first, writeLittleEndian_fits second]
  rfl

/-- The two words of a block, each of which fits because it comes from no more than its bytes. -/
def layout (word : WordSize) : Layout (UInt64 × UInt64) (2 * word.bytes) where
  split := split word
  join := bothBytes word
  Fits := BothFit word
  split_fits := by
    intro block full
    obtain ⟨front, back⟩ := halves block full
    have first := littleEndian_lt (block.take word.bytes)
    have second := littleEndian_lt (block.drop word.bytes)
    rw [front, bytes_bits] at first
    rw [back, bytes_bits] at second
    refine ⟨?_, ?_⟩
    · rw [Fits, split, toNat_littleEndian _ front]
      exact first
    · rw [Fits, split, toNat_littleEndian _ back]
      exact second
  length_join words := by simp [bothBytes, Nat.two_mul]
  split_join := by
    rintro ⟨a, b⟩ fit
    have width : (Bytes.ofLittleEndian word.bytes a.toNat).length = word.bytes :=
      length_ofLittleEndian _ _
    simp only [split, bothBytes, List.take_left' width, List.drop_left' width,
      littleEndian_ofLittleEndian, bytes_bits]
    rw [Nat.mod_eq_of_lt fit.1, Nat.mod_eq_of_lt fit.2, UInt64.ofNat_toNat, UInt64.ofNat_toNat]
  join_split := by
    intro block full
    obtain ⟨front, back⟩ := halves block full
    have first := ofLittleEndian_littleEndian (block.take word.bytes)
    have second := ofLittleEndian_littleEndian (block.drop word.bytes)
    rw [front] at first
    rw [back] at second
    simp only [bothBytes, split, toNat_littleEndian _ front, toNat_littleEndian _ back, first, second,
      List.take_append_drop]

/-- Under any schedule at all RC5 permutes the blocks of two words. -/
theorem permutes {cipher : Rc5} {schedule : List UInt64} (keyed : cipher.schedule = some schedule) :
    Permutes cipher cipher.blockBytes := by
  have encrypts (block : Bytes) (full : block.length = cipher.blockBytes) :
      encryptBlock cipher block = .ok ((layout cipher.word).join
        (encryptWords cipher.word schedule ((layout cipher.word).split block))) := by
    have fit := encryptWords_fits schedule _ ((layout cipher.word).split_fits block full)
    simp only [encryptBlock, onBlock, keyed, full, ↓reduceIte]
    exact join_fits fit
  have decrypts (block : Bytes) (full : block.length = cipher.blockBytes) :
      decryptBlock cipher block = .ok ((layout cipher.word).join
        (decryptWords cipher.word schedule ((layout cipher.word).split block))) := by
    have fit := decryptWords_fits schedule _ ((layout cipher.word).split_fits block full)
    simp only [decryptBlock, onBlock, keyed, full, ↓reduceIte]
    exact join_fits fit
  exact (layout cipher.word).permutes (encryptWords cipher.word schedule)
    (decryptWords cipher.word schedule) encrypts decrypts (encryptWords_fits schedule)
    (decryptWords_fits schedule) (decryptWords_encryptWords schedule)
    (encryptWords_decryptWords schedule)

/-- A key of 1 to 255 bytes is expanded, whatever was there before. -/
theorem setKey_eq (cipher : Rc5) (written : key ≠ []) (short : key.length ≤ maxKeyBytes) :
    setKey cipher key =
      ({ cipher with schedule := some (expandKey cipher.word cipher.rounds key) }, .ok ()) := by
  rw [setKey, if_neg written, if_neg (Nat.not_lt.mpr short)]

/-- A key that is taken leaves a schedule behind and the parameters alone. -/
theorem setKey_keyed {cipher keyed : Rc5} (taken : setKey cipher key = (keyed, .ok ())) :
    keyed.word = cipher.word ∧ ∃ schedule, keyed.schedule = some schedule := by
  simp only [setKey] at taken
  split at taken
  · cases taken
  · split at taken
    · cases taken
    · cases taken
      exact ⟨rfl, _, rfl⟩

/-! ### Every choice of parameters -/

theorem ofBits?_bits (size : bits = 16 ∨ bits = 32 ∨ bits = 64) :
    ∃ word, WordSize.ofBits? bits = some word ∧ word.bits = bits := by
  rcases size with rfl | rfl | rfl
  · exact ⟨.w16, rfl, rfl⟩
  · exact ⟨.w32, rfl, rfl⟩
  · exact ⟨.w64, rfl, rfl⟩

theorem withParameters_made {rounds : Nat} (size : bits = 16 ∨ bits = 32 ∨ bits = 64)
    (few : rounds ≤ maxRounds) :
    ∃ cipher, withParameters bits rounds = .ok cipher ∧ cipher.word.bits = bits := by
  obtain ⟨word, known, width⟩ := ofBits?_bits size
  refine ⟨⟨word, rounds, none⟩, ?_, width⟩
  simp only [withParameters, known]
  exact if_neg (Nat.not_lt.mpr few)

theorem setKey_taken (cipher : Rc5) (written : key ≠ []) (short : key.length ≤ maxKeyBytes) :
    ∃ keyed, setKey cipher key = (keyed, .ok ()) :=
  ⟨_, setKey_eq cipher written short⟩

/-- No key changes the size of the words, be it taken or not. -/
theorem setKey_word (cipher : Rc5) (key : Bytes) : (setKey cipher key).1.word = cipher.word := by
  unfold setKey
  split
  · rfl
  · split <;> rfl

theorem setKeys_word (cipher : Rc5) (keys : List Bytes) :
    (BlockCipher.setKeys cipher keys).word = cipher.word := by
  induction keys generalizing cipher with
  | nil => rfl
  | cons key rest ih => exact (ih _).trans (setKey_word cipher key)

/-- For words of 16, 32 or 64 bits and any number of rounds up to 255 there is a cipher. It takes
every key of 1 to 255 bytes, whatever keys it was offered before, and permutes the blocks of two
words under it. -/
theorem withParameters_permutes {rounds : Nat} (size : bits = 16 ∨ bits = 32 ∨ bits = 64)
    (few : rounds ≤ 255) (written : key ≠ []) (short : key.length ≤ 255) :
    ∃ cipher, withParameters bits rounds = .ok cipher ∧
      ∀ earlier : List Bytes, ∃ keyed,
        setKey (BlockCipher.setKeys cipher earlier) key = (keyed, .ok ()) ∧
        Permutes keyed (2 * bits / 8) := by
  obtain ⟨cipher, made, width⟩ := withParameters_made size few
  refine ⟨cipher, made, fun earlier => ?_⟩
  obtain ⟨keyed, taken⟩ := setKey_taken (BlockCipher.setKeys cipher earlier) written short
  obtain ⟨word, schedule, scheduled⟩ := setKey_keyed taken
  have whole : keyed.blockBytes = 2 * bits / 8 := by
    rw [setKeys_word] at word
    rw [blockBytes, WordSize.bytes, word, width]
    rcases size with rfl | rfl | rfl <;> rfl
  exact ⟨keyed, taken, whole ▸ permutes scheduled⟩

/-- Words of 16 bits, three rounds, and a key as long as keys get. -/
theorem withParameters_permutes_brief :
    ∃ cipher, withParameters 16 3 = .ok cipher ∧
      ∀ earlier : List Bytes, ∃ keyed,
        setKey (BlockCipher.setKeys cipher earlier) (List.replicate 255 1) = (keyed, .ok ()) ∧
        Permutes keyed (2 * 16 / 8) :=
  withParameters_permutes (.inl rfl) (by decide) (List.cons_ne_nil 1 _)
    (Nat.le_of_eq List.length_replicate)

end RoomCipher.Rc5Inversion
