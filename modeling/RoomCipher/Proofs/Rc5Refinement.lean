import Mathlib.Analysis.Complex.ExponentialBounds
import RoomCipher.Proofs.Rc5Inversion
import RoomCipher.Proofs.Rc5Reference

/-! Masked registers compute what machine words of their width compute. Every word has
one register that holds it (`register`), and sums, xors and rotations of such registers
are the registers of the sums, xors and rotations. So whatever the words of the
reference go through, their registers go through it as well: the packing of the key,
the progression, each step of mixing and each round. -/
namespace RoomCipher.Rc5Refinement
open Rc5 ByteLaws CipherPermutation Rc5Inversion
open Rc5Reference (afterRounds eulerWord goldenWord keyWord keyWordCount nearestOdd tableWord)

variable {word : WordSize}

/-! ### Words in registers -/

/-- The register that holds a word. -/
def register {w : Nat} (x : BitVec w) : UInt64 := UInt64.ofNat x.toNat

theorem toNat_register (x : BitVec word.bits) : (register x).toNat = x.toNat := by
  have wide : 2 ^ word.bits ≤ 2 ^ 64 := Nat.pow_le_pow_right (by decide) (bits_le word)
  exact Nat.mod_eq_of_lt (Nat.lt_of_lt_of_le x.isLt wide)

theorem fits_register (x : BitVec word.bits) : Fits word (register x) := by
  rw [Fits, toNat_register]
  exact x.isLt

theorem lift_register (x : BitVec word.bits) : lift word (register x) = x := by
  apply BitVec.eq_of_toNat_eq
  rw [lift, BitVec.toNat_setWidth, UInt64.toNat_toBitVec, toNat_register, Nat.mod_eq_of_lt x.isLt]

theorem register_lift (fits : Fits word x) : register (lift word x) = x :=
  lift_inj (fits_register _) fits (lift_register _)

/-- A register that fits is the one that holds its word. -/
theorem eq_register {y : BitVec word.bits} (fits : Fits word x) (same : lift word x = y) :
    x = register y := by
  rw [← same, register_lift fits]

theorem add_register (x y : BitVec word.bits) :
    word.add (register x) (register y) = register (x + y) := by
  apply eq_register fits_add
  rw [lift_add, lift_register, lift_register]

theorem xor_register (x y : BitVec word.bits) : register x ^^^ register y = register (x ^^^ y) := by
  apply UInt64.toNat_inj.mp
  rw [UInt64.toNat_xor, toNat_register, toNat_register, toNat_register, BitVec.toNat_xor]

theorem rotateLeft_register (x : BitVec word.bits) (amount : UInt64) :
    word.rotateLeft (register x) amount = register (x.rotateLeft amount.toNat) := by
  apply eq_register (fits_rotateLeft (fits_register x))
  rw [lift_rotateLeft (fits_register x), lift_register]

/-- The registers of the first words of a table. -/
def registers {w : Nat} (count : Nat) (table : Nat → BitVec w) : List UInt64 :=
  (List.range count).map fun i => register (table i)

theorem length_registers (count : Nat) (table : Nat → BitVec word.bits) :
    (registers count table).length = count := by
  simp [registers]

theorem getD_registers (within : i < count) (table : Nat → BitVec word.bits) :
    (registers count table).getD i 0 = register (table i) := by
  simp [registers, within]

theorem registers_succ (count : Nat) (table : Nat → BitVec word.bits) :
    registers (count + 1) table =
      register (table 0) :: registers count fun i => table (i + 1) := by
  rw [registers, List.range_succ_eq_map, List.map_cons, List.map_map]
  rfl

/-- A word put into the table is put into its register. -/
theorem set_registers (count i : Nat) (table : Nat → BitVec word.bits) (x : BitVec word.bits) :
    (registers count table).set i (register x) = registers count (Function.update table i x) := by
  apply List.ext_getElem
  · simp [registers]
  · intro j _ _
    simp only [registers, List.getElem_set, List.getElem_map, List.getElem_range]
    by_cases same : i = j
    · rw [if_pos same, same, Function.update_self]
    · rw [if_neg same, Function.update_of_ne (Ne.symm same)]

/-! ### The two constants -/

/-- An odd number that fits into a word, found from the even ones beside a real number. -/
theorem register_nearestOdd {w : Nat} {x : ℝ} (half : Nat) (fits : 2 * half + 1 < 2 ^ w)
    (low : 2 * (half : ℝ) ≤ x) (high : x < 2 * (half : ℝ) + 2) :
    register (BitVec.ofInt w (nearestOdd x)) = UInt64.ofNat (2 * half + 1) := by
  have floor : ⌊x / 2⌋ = half := by
    rw [Int.floor_eq_iff, Int.cast_natCast]
    constructor <;> linarith
  have odd : nearestOdd x = (2 * half + 1 : Nat) := by
    rw [nearestOdd, floor]
    rfl
  rw [odd, BitVec.ofInt_natCast, register, BitVec.toNat_ofNat, Nat.mod_eq_of_lt fits]

theorem seed_register (word : WordSize) : word.seed = register (eulerWord word.bits) := by
  obtain ⟨low, high⟩ := abs_le.mp Real.exp_one_near_20
  cases word with
  | w16 =>
    refine (register_nearestOdd 0x5bf0 (by decide) ?_ ?_).symm <;>
      (push_cast [WordSize.bits]; linarith)
  | w32 =>
    refine (register_nearestOdd 0x5bf0a8b1 (by decide) ?_ ?_).symm <;>
      (push_cast [WordSize.bits]; linarith)
  | w64 =>
    refine (register_nearestOdd 0x5bf0a8b145769535 (by decide) ?_ ?_).symm <;>
      (push_cast [WordSize.bits]; linarith)

/-- The root of five to twenty places. -/
theorem sqrt_five_near : 2.23606797749978969640 < √5 ∧ √5 < 2.23606797749978969641 := by
  constructor
  · rw [Real.lt_sqrt (by norm_num)]
    norm_num
  · rw [Real.sqrt_lt' (by norm_num)]
    norm_num

theorem step_register (word : WordSize) : word.step = register (goldenWord word.bits) := by
  obtain ⟨low, high⟩ := sqrt_five_near
  cases word with
  | w16 =>
    refine (register_nearestOdd 0x4f1b (by decide) ?_ ?_).symm <;>
      (push_cast [WordSize.bits, Real.goldenRatio]; linarith)
  | w32 =>
    refine (register_nearestOdd 0x4f1bbcdc (by decide) ?_ ?_).symm <;>
      (push_cast [WordSize.bits, Real.goldenRatio]; linarith)
  | w64 =>
    refine (register_nearestOdd 0x4f1bbcdcbfa53e0a (by decide) ?_ ?_).symm <;>
      (push_cast [WordSize.bits, Real.goldenRatio]; linarith)

/-! ### The schedule -/

/-- The table is filled term by term. -/
theorem progression_registers (count : Nat) {p q : BitVec word.bits}
    (difference : word.step = register q) :
    progression word count (register p) = registers count (tableWord p q) := by
  have shifted (p : BitVec word.bits) (i : Nat) :
      tableWord p q (i + 1) = tableWord (p + q) q i := by
    induction i with
    | zero => rfl
    | succ i ih => rw [tableWord, ih, tableWord]
  induction count generalizing p with
  | zero => rfl
  | succ count ih =>
    rw [progression, difference, add_register, ih, registers_succ, funext (shifted p)]
    rfl

/-- Bytes shifted in from the last one on are the little-endian word. -/
theorem packed_register (bytes : Bytes) :
    bytes.foldr (fun b packed => word.add (packed <<< 8) b.toUInt64) 0 =
      register (BitVec.ofNat word.bits (Bytes.littleEndian bytes)) := by
  induction bytes with
  | nil =>
    apply UInt64.toNat_inj.mp
    rw [toNat_register]
    simp [Bytes.littleEndian]
  | cons b bytes ih =>
    apply eq_register fits_add
    rw [ih, lift_add, lift_shiftLeft word _ 8 (by decide), lift_register, Bytes.littleEndian]
    apply BitVec.eq_of_toNat_eq
    simp [lift, Nat.shiftLeft_eq, Nat.mul_comm, Nat.add_comm]

/-- A key that is not empty fills as many words as its bits take. -/
theorem keyWordCount_eq (written : key ≠ []) : keyWordCount word.bits key =
    (key.length + (word.bytes - 1)) / word.bytes := by
  have some_bytes := List.length_pos_iff.mpr written
  rw [keyWordCount]
  cases word <;> simp only [WordSize.bytes, WordSize.bits] <;> omega

theorem packKey_registers (written : key ≠ []) :
    packKey word key = registers (keyWordCount word.bits key) (keyWord word.bits key) := by
  rw [packKey, pieces_eq_map (bytes_pos word), List.map_map, keyWordCount_eq written, registers]
  refine List.map_congr_left fun j _ => ?_
  rw [Function.comp_apply, packed_register]
  rfl

/-- The registers of a table and a key that are mixed. -/
def held {w : Nat} (t c : Nat) (m : Rc5Reference.Mixing w) : Mixing where
  schedule := registers t m.table
  key := registers c m.key
  a := register m.a
  b := register m.b
  i := m.i
  j := m.j

/-- A step on the registers is a step on the words. -/
theorem step_held {m : Rc5Reference.Mixing word.bits} (table : m.i < t) (key : m.j < c) :
    Mixing.step word (held t c m) = held t c (m.step t c) := by
  have three : (3 : UInt64).toNat = 3 := rfl
  simp only [Mixing.step, held, Rc5Reference.Mixing.step, getD_registers table,
    getD_registers key, length_registers, add_register, rotateLeft_register, toNat_register,
    set_registers, three, BitVec.add_assoc]

/-- So is any number of steps. The places stay within the table and the key. -/
theorem repeat_held (steps : Nat) {m : Rc5Reference.Mixing word.bits} (table : m.i < t)
    (key : m.j < c) :
    Nat.repeat (Mixing.step word) steps (held t c m) =
        held t c (Nat.repeat (Rc5Reference.Mixing.step t c) steps m) ∧
      (Nat.repeat (Rc5Reference.Mixing.step t c) steps m).i < t ∧
      (Nat.repeat (Rc5Reference.Mixing.step t c) steps m).j < c := by
  induction steps with
  | zero => exact ⟨rfl, table, key⟩
  | succ steps ih =>
    obtain ⟨same, i, j⟩ := ih
    refine ⟨?_, Nat.mod_lt _ (Nat.zero_lt_of_lt table), Nat.mod_lt _ (Nat.zero_lt_of_lt key)⟩
    rw [Nat.repeat, same, step_held i j]
    rfl

/-- The schedule is made up of the registers of the reference's table. -/
theorem expandKey_registers (rounds : Nat) (written : key ≠ []) :
    expandKey word rounds key = registers (2 * (rounds + 1))
      (Rc5Reference.schedule (eulerWord word.bits) (goldenWord word.bits) rounds key) := by
  have count : 0 < keyWordCount word.bits key :=
    Nat.lt_of_lt_of_le Nat.zero_lt_one (Nat.le_max_left _ _)
  have start :
      (⟨progression word (2 * (rounds + 1)) word.seed, packKey word key, 0, 0, 0, 0⟩ : Mixing) =
        held (2 * (rounds + 1)) (keyWordCount word.bits key)
          ⟨tableWord (eulerWord word.bits) (goldenWord word.bits), keyWord word.bits key,
            0, 0, 0, 0⟩ := by
    have zero : register (0 : BitVec word.bits) = 0 := rfl
    rw [seed_register, progression_registers _ (step_register word), packKey_registers written,
      held, zero]
  rw [expandKey, packKey_registers written, length_registers, ← packKey_registers written]
  simp only [start]
  rw [(repeat_held _ (Nat.succ_pos _) count).1]
  rfl

/-! ### Blocks -/

theorem pairs_registers (count : Nat) (table : Nat → BitVec word.bits) :
    pairs (registers (2 * count) table) = (List.range count).map fun i =>
      (register (table (2 * i)), register (table (2 * i + 1))) := by
  induction count generalizing table with
  | zero => rfl
  | succ count ih =>
    rw [Nat.mul_succ, registers_succ, registers_succ, pairs, ih, List.range_succ_eq_map,
      List.map_cons, List.map_map]
    rfl

/-- The registers of two words. -/
def both {w : Nat} (words : BitVec w × BitVec w) : UInt64 × UInt64 :=
  (register words.1, register words.2)

theorem encryptWords_registers (rounds : Nat) (table : Nat → BitVec word.bits)
    (words : BitVec word.bits × BitVec word.bits) :
    encryptWords word (registers (2 * (rounds + 1)) table) (both words) =
      both (afterRounds table words rounds) := by
  simp only [encryptWords, pairs_registers, List.range_succ_eq_map, List.map_cons, List.map_map]
  induction rounds with
  | zero =>
    simp only [List.range_zero, List.map_nil, List.foldl_nil, afterRounds, both, add_register]
  | succ rounds ih =>
    rw [List.range_succ, List.map_append, List.foldl_append, ih]
    simp only [List.map_cons, List.map_nil, List.foldl_cons, List.foldl_nil, Function.comp_apply,
      both, Rc5.round, xor_register, rotateLeft_register, add_register, toNat_register, afterRounds]

/-- Bytes of the width of a word are read into its register. -/
theorem read_register {bytes : Bytes} (width : bytes.length = word.bytes) :
    UInt64.ofNat (Bytes.littleEndian bytes) =
      register (BitVec.ofNat word.bits (Bytes.littleEndian bytes)) := by
  have small := littleEndian_lt bytes
  rw [width, bytes_bits] at small
  rw [register, BitVec.toNat_ofNat, Nat.mod_eq_of_lt small]

theorem split_both {block : Bytes} (full : block.length = 2 * word.bytes) :
    split word block = both (BitVec.ofNat word.bits (Bytes.littleEndian (block.take word.bytes)),
      BitVec.ofNat word.bits (Bytes.littleEndian (block.drop word.bytes))) := by
  obtain ⟨front, back⟩ := length_take_drop (full.trans (Nat.two_mul _))
  rw [split, read_register front, read_register back, both]

theorem join_both (words : BitVec word.bits × BitVec word.bits) : join word (both words) =
    .ok (Bytes.ofLittleEndian word.bytes words.1.toNat ++
      Bytes.ofLittleEndian word.bytes words.2.toNat) := by
  have fit : BothFit word (both words) := ⟨fits_register words.1, fits_register words.2⟩
  rw [join_fits fit]
  simp only [bothBytes, both, toNat_register]

/-- Whatever the size of its words, its number of rounds and the keys it has had, the cipher takes
every key of 1 to 255 bytes, has the schedule of the reference, and encrypts as the reference. -/
theorem setKey_agrees (cipher : Rc5) (written : key ≠ []) (short : key.length ≤ maxKeyBytes) :
    ∃ keyed, setKey cipher key = (keyed, .ok ()) ∧
      keyed.schedule = some (registers (2 * (cipher.rounds + 1)) (Rc5Reference.schedule
        (eulerWord cipher.word.bits) (goldenWord cipher.word.bits) cipher.rounds key)) ∧
      ∀ block, block.length = 2 * cipher.word.bytes → encryptBlock keyed block =
        .ok (Rc5Reference.encrypt (eulerWord cipher.word.bits) (goldenWord cipher.word.bits)
          cipher.rounds key block) := by
  have taken := setKey_eq cipher written short
  rw [expandKey_registers cipher.rounds written] at taken
  refine ⟨_, taken, rfl, ?_⟩
  intro block full
  simp only [encryptBlock, onBlock, blockBytes, full, ↓reduceIte, split_both full,
    encryptWords_registers, join_both]
  rfl

/-! ### Every choice of parameters -/

theorem setKey_parameters (cipher : Rc5) (key : Bytes) :
    ∃ schedule, (setKey cipher key).1 = { cipher with schedule := schedule } := by
  unfold setKey
  split
  · exact ⟨_, rfl⟩
  · split
    · exact ⟨_, rfl⟩
    · exact ⟨_, rfl⟩

/-- Keys change the schedule and nothing else. -/
theorem setKeys_parameters (cipher : Rc5) (keys : List Bytes) :
    ∃ schedule, BlockCipher.setKeys cipher keys = { cipher with schedule := schedule } := by
  induction keys generalizing cipher with
  | nil => exact ⟨_, rfl⟩
  | cons key rest ih =>
    obtain ⟨first, once⟩ := setKey_parameters cipher key
    obtain ⟨schedule, all⟩ := ih (setKey cipher key).1
    rw [once] at all
    exact ⟨schedule, (congrArg (BlockCipher.setKeys · rest) once).trans all⟩

/-- For words of 16, 32 or 64 bits and any number of rounds up to 255 there is a cipher. It takes
every key of 1 to 255 bytes, whatever keys it was offered before. Its schedule then is the table of
the reference on words of so many bits, and it encrypts every block of two words as the reference
does. -/
theorem withParameters_refines {rounds : Nat} (size : bits = 16 ∨ bits = 32 ∨ bits = 64)
    (few : rounds ≤ 255) (written : key ≠ []) (short : key.length ≤ 255) :
    ∃ cipher, withParameters bits rounds = .ok cipher ∧
      ∀ earlier : List Bytes, ∃ keyed,
        setKey (BlockCipher.setKeys cipher earlier) key = (keyed, .ok ()) ∧
        keyed.schedule = some (registers (2 * (rounds + 1))
          (Rc5Reference.schedule (eulerWord bits) (goldenWord bits) rounds key)) ∧
        ∀ block, block.length = 2 * (bits / 8) → encryptBlock keyed block =
          .ok (Rc5Reference.encrypt (eulerWord bits) (goldenWord bits) rounds key block) := by
  obtain ⟨word, known, rfl⟩ := ofBits?_bits size
  have made : withParameters word.bits rounds = .ok ⟨word, rounds, none⟩ := by
    simp only [withParameters, known]
    exact if_neg (Nat.not_lt.mpr few)
  refine ⟨_, made, fun earlier => ?_⟩
  obtain ⟨schedule, same⟩ := setKeys_parameters ⟨word, rounds, none⟩ earlier
  rw [same]
  exact setKey_agrees ⟨word, rounds, schedule⟩ written short

/-- Words of 16 bits, and a key that does not fill its last word. -/
theorem withParameters_refines_narrow :
    ∃ cipher, withParameters 16 255 = .ok cipher ∧
      ∀ earlier : List Bytes, ∃ keyed,
        setKey (BlockCipher.setKeys cipher earlier) [1, 2, 3] = (keyed, .ok ()) ∧
        keyed.schedule = some (registers (2 * (255 + 1))
          (Rc5Reference.schedule (eulerWord 16) (goldenWord 16) 255 [1, 2, 3])) ∧
        ∀ block, block.length = 2 * (16 / 8) → encryptBlock keyed block =
          .ok (Rc5Reference.encrypt (eulerWord 16) (goldenWord 16) 255 [1, 2, 3] block) :=
  withParameters_refines (.inl rfl) (Nat.le_refl 255) (List.cons_ne_nil 1 _) (by decide)

/-- Twelve rounds on words of 32 bits, under a key of four words. -/
example : Rc5Reference.encrypt 0xb7e15163#32 0x9e3779b9#32 12
    [0x91, 0x5f, 0x46, 0x19, 0xbe, 0x41, 0xb2, 0x51, 0x63, 0x55, 0xa5, 0x01, 0x10, 0xa9, 0xce, 0x91]
    [0x21, 0xa5, 0xdb, 0xee, 0x15, 0x4b, 0x8f, 0x6d] =
    [0xf7, 0xc0, 0x13, 0xac, 0x5b, 0x2b, 0x89, 0x52] := by cbv

end RoomCipher.Rc5Refinement
