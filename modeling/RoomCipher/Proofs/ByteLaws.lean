import Mathlib.Algebra.Group.Nat.Defs
import RoomCipher.Bytes.Blocks

/-! Laws of byte strings on which every cipher and every mode rests: a xor with a
string of the same length can be taken back, a number of fixed width and its bytes
determine each other in either byte order, and data that is a whole number of blocks
long falls into exactly these blocks. -/
namespace RoomCipher.ByteLaws
open Bytes

/-- A xor with an equally long string succeeds, keeps the length and is its own inverse. -/
theorem xor_undone (same : a.length = b.length) :
    ∃ c, Bytes.xor a b = .ok c ∧ c.length = a.length ∧ Bytes.xor c b = .ok a := by
  have length : (List.zipWith (· ^^^ ·) a b).length = a.length := by simp [same]
  have cancel : List.zipWith (· ^^^ ·) (List.zipWith (· ^^^ ·) a b) b = a := by
    clear length
    induction a generalizing b with
    | nil => rfl
    | cons x xs ih =>
      cases b with
      | nil => simp at same
      | cons y ys =>
        have tail := ih (Nat.succ.inj same)
        have head : x ^^^ y ^^^ y = x := by
          rw [UInt8.xor_assoc, UInt8.xor_self, UInt8.xor_zero]
        simp only [List.zipWith_cons_cons, head, tail]
  refine ⟨_, ?_, length, ?_⟩
  · simp only [Bytes.xor, checkLengths, same, ↓reduceIte]
    rfl
  · simp only [Bytes.xor, checkLengths, length, same, ↓reduceIte, bind, Except.bind, pure,
      Except.pure, cancel]

/-- Only strings of one length have a xor, and it is as long. -/
theorem length_xor (combined : Bytes.xor a b = .ok c) : c.length = a.length := by
  by_cases same : a.length = b.length
  · obtain ⟨other, answer, length, _⟩ := xor_undone same
    cases combined.symm.trans answer
    exact length
  · simp [Bytes.xor, checkLengths, same, bind, Except.bind] at combined

/-- A buffer can be had up to the length that a signed number can count. -/
theorem checkRoom_eq_ok : checkRoom length = .ok () ↔ length ≤ maxLength := by
  rw [checkRoom]
  split
  next long =>
    constructor
    · intro room
      cases room
    · exact fun short => absurd long (Nat.not_lt.mpr short)
  next short => exact ⟨fun _ => Nat.le_of_not_lt short, fun _ => rfl⟩

theorem checkRoom_oversize (long : ¬ length ≤ maxLength) :
    checkRoom length = .error (.aborted .oversize) :=
  if_pos (Nat.lt_of_not_le long)

/-! ### Numbers of fixed width -/

@[simp] theorem length_ofLittleEndian (length n : Nat) :
    (ofLittleEndian length n).length = length := by
  induction length generalizing n with
  | zero => rfl
  | succ length ih => simp [ofLittleEndian, ih]

@[simp] theorem length_ofBigEndian (length n : Nat) :
    (ofBigEndian length n).length = length := by
  simp [ofBigEndian]

theorem littleEndian_lt (bytes : Bytes) : littleEndian bytes < 256 ^ bytes.length := by
  induction bytes with
  | nil => simp [littleEndian]
  | cons b bs ih =>
    have byte := b.toNat_lt
    rw [littleEndian, List.length_cons, Nat.pow_succ]
    omega

theorem littleEndian_ofLittleEndian (length n : Nat) :
    littleEndian (ofLittleEndian length n) = n % 256 ^ length := by
  induction length generalizing n with
  | zero => simp [ofLittleEndian, littleEndian, Nat.mod_one]
  | succ length ih =>
    rw [ofLittleEndian, littleEndian, ih, Nat.pow_succ', Nat.mod_mul]
    simp

/-- A number that its bytes can hold is written out. -/
theorem writeLittleEndian_fits (fits : n < 256 ^ length) :
    writeLittleEndian length n = .ok (ofLittleEndian length n) := by
  have limit : 1 <<< (8 * length) = 256 ^ length := by rw [Nat.one_shiftLeft, Nat.pow_mul]
  rw [writeLittleEndian, limit, if_pos fits]

theorem ofLittleEndian_littleEndian (bytes : Bytes) :
    ofLittleEndian bytes.length (littleEndian bytes) = bytes := by
  induction bytes with
  | nil => rfl
  | cons b bs ih =>
    have byte := b.toNat_lt
    have low : UInt8.ofNat (b.toNat + 256 * littleEndian bs) = b := by
      apply UInt8.toNat_inj.mp
      simp only [UInt8.toNat_ofNat']
      omega
    have high : (b.toNat + 256 * littleEndian bs) / 256 = littleEndian bs := by omega
    rw [littleEndian, List.length_cons, ofLittleEndian, low, high, ih]

/-- The bytes of a xor are the xors of the bytes. -/
theorem ofLittleEndian_xor (length m n : Nat) : ofLittleEndian length (m ^^^ n) =
    List.zipWith (· ^^^ ·) (ofLittleEndian length m) (ofLittleEndian length n) := by
  induction length generalizing m n with
  | zero => rfl
  | succ length ih =>
    have high : (m ^^^ n) / 256 = m / 256 ^^^ n / 256 := @Nat.xor_div_two_pow m n 8
    rw [ofLittleEndian, high, ih, UInt8.ofNat_xor]
    rfl

/-- Reading most significant byte first is reading the reversed string the other way. -/
theorem value_eq_littleEndian (bytes : Bytes) : value bytes = littleEndian bytes.reverse := by
  rw [value, List.foldl_eq_foldr_reverse]
  induction bytes.reverse with
  | nil => rfl
  | cons b bs ih =>
    rw [List.foldr_cons, ih, littleEndian]
    omega

theorem value_lt (bytes : Bytes) : value bytes < 256 ^ bytes.length := by
  rw [value_eq_littleEndian, ← List.length_reverse]
  exact littleEndian_lt bytes.reverse

theorem value_ofBigEndian (fits : n < 256 ^ length) : value (ofBigEndian length n) = n := by
  rw [ofBigEndian, value_eq_littleEndian, List.reverse_reverse, littleEndian_ofLittleEndian,
    Nat.mod_eq_of_lt fits]

theorem ofBigEndian_value (bytes : Bytes) : ofBigEndian bytes.length (value bytes) = bytes := by
  rw [ofBigEndian, value_eq_littleEndian, ← List.length_reverse, ofLittleEndian_littleEndian,
    List.reverse_reverse]

/-- What has been read before a byte string counts for more than all of it. -/
theorem foldl_value (bytes : Bytes) (before : Nat) :
    bytes.foldl (fun n b => n * 256 + b.toNat) before =
      value bytes + 256 ^ bytes.length * before := by
  induction bytes generalizing before with
  | nil => simp [value]
  | cons b bytes ih =>
    rw [value, List.foldl_cons, List.foldl_cons, ih, ih, List.length_cons, Nat.pow_succ]
    grind

theorem value_cons (b : UInt8) (bytes : Bytes) :
    value (b :: bytes) = value bytes + 256 ^ bytes.length * b.toNat := by
  rw [value, List.foldl_cons, foldl_value, Nat.zero_mul, Nat.zero_add]

/-- A 64-bit word survives a trip through its bytes. -/
theorem word_ofLittleEndian (word : UInt64) :
    UInt64.ofNat (littleEndian (ofLittleEndian 8 word.toNat)) = word := by
  rw [littleEndian_ofLittleEndian]
  have bound := word.toNat_lt
  rw [Nat.mod_eq_of_lt (by simpa using bound), UInt64.ofNat_toNat]

/-- Eight bytes survive a trip through the word that they denote. -/
theorem ofLittleEndian_word (bytes : Bytes) (width : bytes.length = 8) :
    ofLittleEndian 8 (UInt64.ofNat (littleEndian bytes)).toNat = bytes := by
  have bound := littleEndian_lt bytes
  rw [width] at bound
  rw [UInt64.toNat_ofNat', Nat.mod_eq_of_lt (by simpa using bound), ← width]
  exact ofLittleEndian_littleEndian bytes

theorem xor_twice (x y : UInt64) : x ^^^ y ^^^ y = x := by
  rw [UInt64.xor_assoc, UInt64.xor_self, UInt64.xor_zero]

theorem toBitVec_shiftLeft (x amount : UInt64) (small : amount.toNat < 64) :
    (x <<< amount).toBitVec = x.toBitVec <<< amount.toNat := by
  have places : (amount.toBitVec % 64).toNat = amount.toNat := Nat.mod_eq_of_lt small
  rw [UInt64.toBitVec_shiftLeft, BitVec.shiftLeft_eq', places]

theorem toBitVec_shiftRight (x amount : UInt64) (small : amount.toNat < 64) :
    (x >>> amount).toBitVec = x.toBitVec >>> amount.toNat := by
  have places : (amount.toBitVec % 64).toNat = amount.toNat := Nat.mod_eq_of_lt small
  rw [UInt64.toBitVec_shiftRight, BitVec.ushiftRight_eq', places]

/-- A string of two given widths is the first part followed by the second. -/
theorem length_take_drop {bytes : Bytes} (width : bytes.length = m + n) :
    (bytes.take m).length = m ∧ (bytes.drop m).length = n := by
  simp [width]

/-! ### Blocks -/

section Pieces

variable {α : Type} {size : Nat}

@[simp] theorem pieces_nil : pieces size ([] : List α) = [] := by
  cases size <;> simp [pieces]

/-- A full block at the front is the first piece. -/
theorem pieces_block_append {block rest : List α} (positive : 0 < size)
    (full : block.length = size) : pieces size (block ++ rest) = block :: pieces size rest := by
  cases block with
  | nil => exact absurd full (Nat.ne_of_lt positive)
  | cons x xs =>
    subst full
    simp [pieces]

/-- The first piece is what is taken, and the others are cut from the rest. -/
theorem pieces_written {data : List α} (positive : 0 < size) (written : data ≠ []) :
    pieces size data = data.take size :: pieces size (data.drop size) := by
  obtain ⟨count, rfl⟩ := Nat.exists_eq_succ_of_ne_zero (Nat.ne_of_gt positive)
  obtain ⟨x, xs, rfl⟩ := List.exists_cons_of_ne_nil written
  simp [pieces]

/-- Piece number `i` lies behind `i` pieces of full size, and there are as many as it takes. -/
theorem pieces_eq_map (positive : 0 < size) (data : List α) :
    pieces size data = (List.range ((data.length + (size - 1)) / size)).map fun i =>
      (data.drop (i * size)).take size := by
  induction length : data.length using Nat.strongRecOn generalizing data with
  | _ _ ih =>
    subst length
    by_cases written : data = []
    · have none_left : (0 + (size - 1)) / size = 0 := Nat.div_eq_of_lt (by omega)
      rw [written, pieces_nil, List.length_nil, none_left]
      rfl
    · have some_data := List.length_pos_iff.mpr written
      have shorter : (data.drop size).length < data.length := by
        rw [List.length_drop]
        omega
      have rest : ((data.drop size).length + (size - 1)) / size = (data.length - 1) / size := by
        rw [List.length_drop]
        by_cases short : data.length ≤ size
        · rw [Nat.div_eq_of_lt (by omega), Nat.div_eq_of_lt (by omega)]
        · congr 1
          omega
      have count : (data.length + (size - 1)) / size =
          ((data.drop size).length + (size - 1)) / size + 1 := by
        rw [rest, ← Nat.add_div_right _ positive]
        congr 1
        omega
      rw [pieces_written positive written, ih _ shorter _ rfl, count, List.range_succ_eq_map,
        List.map_cons, List.map_map]
      congr 1
      · rw [Nat.zero_mul, List.drop_zero]
      · refine List.map_congr_left fun i _ => ?_
        rw [Function.comp_apply, List.drop_drop, Nat.succ_mul, Nat.add_comm size]

/-- Pieces make up what they were cut from. -/
theorem flatten_pieces (positive : 0 < size) (data : List α) :
    (pieces size data).flatten = data := by
  induction length : data.length using Nat.strongRecOn generalizing data with
  | _ _ ih =>
    subst length
    by_cases written : data = []
    · rw [written, pieces_nil]
      rfl
    · have shorter : (data.drop size).length < data.length := by
        have some_data := List.length_pos_iff.mpr written
        rw [List.length_drop]
        omega
      rw [pieces_written positive written, List.flatten_cons, ih _ shorter _ rfl,
        List.take_append_drop]

/-- Blocks put together are cut apart again. -/
theorem pieces_flatten {blocks : List (List α)} (positive : 0 < size)
    (full : ∀ block ∈ blocks, block.length = size) : pieces size blocks.flatten = blocks := by
  induction blocks with
  | nil => simp
  | cons block rest ih =>
    rw [List.flatten_cons, pieces_block_append positive (full block (by simp)),
      ih fun other member => full other (by simp [member])]

theorem length_flatten {blocks : List (List α)} (full : ∀ block ∈ blocks, block.length = size) :
    blocks.flatten.length = blocks.length * size := by
  induction blocks with
  | nil => simp
  | cons block rest ih =>
    have tail := ih fun other member => full other (by simp [member])
    rw [List.flatten_cons, List.length_append, tail, full block (by simp), List.length_cons,
      Nat.succ_mul, Nat.add_comm]

/-- Data that is a whole number of blocks long consists of blocks. -/
theorem exists_blocks {data : List α} (aligned : size ∣ data.length) :
    ∃ blocks : List (List α), blocks.flatten = data ∧ ∀ block ∈ blocks, block.length = size := by
  obtain ⟨count, length⟩ := aligned
  induction count generalizing data with
  | zero => exact ⟨[], by simp [List.eq_nil_of_length_eq_zero length], by simp⟩
  | succ count ih =>
    rw [Nat.mul_succ] at length
    have shorter : (data.drop size).length = size * count := by simp [length]
    obtain ⟨blocks, joined, full⟩ := ih shorter
    refine ⟨data.take size :: blocks, by simp [joined], ?_⟩
    intro block member
    rcases List.mem_cons.mp member with rfl | member
    · simp [length]
    · exact full block member

theorem length_pieces {data : List α} (positive : 0 < size) (aligned : size ∣ data.length) :
    (pieces size data).length = data.length / size := by
  obtain ⟨blocks, rfl, full⟩ := exists_blocks aligned
  rw [pieces_flatten positive full, length_flatten full, Nat.mul_div_cancel _ positive]

/-- Aligned data keeps its blocks whatever comes after it. -/
theorem pieces_append {front back : List α} (positive : 0 < size) (aligned : size ∣ front.length) :
    pieces size (front ++ back) = pieces size front ++ pieces size back := by
  obtain ⟨blocks, rfl, full⟩ := exists_blocks aligned
  rw [pieces_flatten positive full]
  clear aligned
  induction blocks with
  | nil => rfl
  | cons block rest ih =>
    rw [List.flatten_cons, List.append_assoc, pieces_block_append positive (full block (by simp)),
      ih fun other member => full other (by simp [member]), List.cons_append]

/-- The front of data, cut between two blocks, consists of the first blocks. -/
theorem pieces_take {data : List α} (positive : 0 < size) (within : count * size ≤ data.length) :
    pieces size (data.take (count * size)) = (pieces size data).take count := by
  have length : (data.take (count * size)).length = count * size := List.length_take_of_le within
  have aligned : size ∣ (data.take (count * size)).length := by
    rw [length]
    exact Nat.dvd_mul_left size count
  have blocks : (pieces size (data.take (count * size))).length = count := by
    rw [length_pieces positive aligned, length, Nat.mul_div_cancel _ positive]
  have whole : pieces size (data.take (count * size)) ++ pieces size (data.drop (count * size)) =
      pieces size data := by
    rw [← pieces_append positive aligned, List.take_append_drop]
  rw [← whole, List.take_left' blocks]

end Pieces

end RoomCipher.ByteLaws
