import Mathlib.Data.Nat.Bitwise
import RoomCipher.Cipher.Field

/-! Products in a register, whatever the modulus. Doubling is one linear map on the words of 16 bits,
also where the modulus leaves the highest bit in place, and a product applies a sum of powers of it to
the other factor. A word inside the field is what its own bits make of one, and powers of one map can
change places. So the two factors can, although the loop reads the bits of one of them alone. -/
namespace RoomCipher.RegisterProducts
open RoomCipher.Field

/-! ### Bits -/

/-- A word if a bit is set, and none otherwise. -/
def scaled (bit : Bool) (word : UInt16) : UInt16 :=
  if bit then word else 0

@[simp] theorem scaled_zero (bit : Bool) : scaled bit 0 = 0 := by
  cases bit <;> rfl

theorem scaled_xor (bit : Bool) (v w : UInt16) :
    scaled bit (v ^^^ w) = scaled bit v ^^^ scaled bit w := by
  cases bit <;> simp [scaled]

theorem xor_scaled (p q : Bool) (word : UInt16) :
    scaled (p ^^ q) word = scaled p word ^^^ scaled q word := by
  cases p <;> cases q <;> simp [scaled]

theorem toNat_scaled (bit : Bool) (word : UInt16) :
    (scaled bit word).toNat = if bit then word.toNat else 0 := by
  cases bit <;> rfl

theorem xor_exchange (a b c d : UInt16) : a ^^^ b ^^^ (c ^^^ d) = a ^^^ c ^^^ (b ^^^ d) := by
  ac_rfl

/-- A test for one bit of a word. -/
theorem and_ne_zero_iff (word : UInt16) (narrow : place < 16) :
    word &&& (1 <<< UInt16.ofNat place) ≠ 0 ↔ word.toNat.testBit place = true := by
  have width : place % 2 ^ 16 % 16 = place := by omega
  have small : 2 ^ place < 2 ^ 16 := Nat.pow_lt_pow_right (by decide) narrow
  have mask : (1 <<< UInt16.ofNat place : UInt16).toNat = 2 ^ place := by
    rw [UInt16.toNat_shiftLeft, UInt16.toNat_ofNat', width, UInt16.toNat_one, Nat.one_shiftLeft,
      Nat.mod_eq_of_lt small]
  rw [Ne, ← UInt16.toNat_inj, UInt16.toNat_and, mask, Nat.and_two_pow]
  cases word.toNat.testBit place <;> simp

@[simp] theorem toNat_half (word : UInt16) : (word >>> 1).toNat = word.toNat / 2 := by
  rw [UInt16.toNat_shiftRight, UInt16.toNat_one, Nat.shiftRight_eq_div_pow]

theorem toNat_twice (word : UInt16) : (word <<< 1).toNat = 2 * word.toNat % 2 ^ 16 := by
  rw [UInt16.toNat_shiftLeft, UInt16.toNat_one, Nat.shiftLeft_eq, Nat.mul_comm]

/-- The lowest bit of a number and the others above it. -/
theorem low_xor_high (n : Nat) : (if n.testBit 0 then 1 else 0) ^^^ 2 * (n / 2) = n := by
  refine Nat.eq_of_testBit_eq fun place => ?_
  cases place with
  | zero => cases lowest : n.testBit 0 <;> simp
  | succ place =>
    have low : (if n.testBit 0 then 1 else 0).testBit (place + 1) = false := by
      cases n.testBit 0 <;> simp [Nat.testBit_succ]
    have high : (2 * (n / 2)).testBit (place + 1) = n.testBit (place + 1) := by
      rw [Nat.testBit_succ, Nat.testBit_succ, Nat.mul_div_cancel_left _ Nat.two_pos]
    rw [Nat.testBit_xor, low, high, Bool.false_xor]

theorem scaled_xor_shifted (word : UInt16) :
    scaled (word.toNat.testBit 0) 1 ^^^ (word >>> 1) <<< 1 = word := by
  have bound := word.toNat_lt
  have kept : 2 * (word.toNat / 2) % 2 ^ 16 = 2 * (word.toNat / 2) := Nat.mod_eq_of_lt (by omega)
  apply UInt16.toNat_inj.mp
  rw [UInt16.toNat_xor, toNat_scaled, toNat_twice, toNat_half, kept]
  exact low_xor_high word.toNat

/-! ### Doubling -/

variable {modulus : UInt16} {bits : Nat}

/-- Doubling shifts a word, and what comes up to the highest bit of the field brings the modulus in. -/
theorem double_eq (narrow : bits < 16) (a : UInt16) : double modulus bits a =
    a <<< 1 ^^^ scaled ((a <<< 1).toNat.testBit bits) modulus := by
  simp only [double, and_ne_zero_iff _ narrow]
  cases (a <<< 1).toNat.testBit bits <;> simp [scaled]

theorem double_zero (narrow : bits < 16) : double modulus bits 0 = 0 := by
  rw [double_eq narrow]
  simp [scaled]

/-- Doubling is linear. -/
theorem double_xor (narrow : bits < 16) (a b : UInt16) :
    double modulus bits (a ^^^ b) = double modulus bits a ^^^ double modulus bits b := by
  simp only [double_eq narrow]
  rw [UInt16.shiftLeft_xor, UInt16.toNat_xor, Nat.testBit_xor, xor_scaled, xor_exchange]

theorem double_scaled (narrow : bits < 16) (bit : Bool) (a : UInt16) :
    double modulus bits (scaled bit a) = scaled bit (double modulus bits a) := by
  cases bit
  · exact double_zero narrow
  · rfl

/-! ### Products -/

theorem multiplyBits_succ (count : Nat) (a b : UInt16) :
    multiplyBits modulus bits (count + 1) a b = scaled (b.toNat.testBit 0) a ^^^
      multiplyBits modulus bits count (double modulus bits a) (b >>> 1) := by
  have lowest : b &&& 1 ≠ 0 ↔ b.toNat.testBit 0 = true := and_ne_zero_iff b (by decide : 0 < 16)
  simp only [multiplyBits, lowest]
  rfl

theorem multiplyBits_zero_left (narrow : bits < 16) (count : Nat) (b : UInt16) :
    multiplyBits modulus bits count 0 b = 0 := by
  induction count generalizing b with
  | zero => rfl
  | succ count ih =>
    rw [multiplyBits_succ, double_zero narrow, ih, scaled_zero, UInt16.xor_self]

theorem multiplyBits_xor_left (narrow : bits < 16) (count : Nat) (a a' b : UInt16) :
    multiplyBits modulus bits count (a ^^^ a') b =
      multiplyBits modulus bits count a b ^^^ multiplyBits modulus bits count a' b := by
  induction count generalizing a a' b with
  | zero => simp [multiplyBits]
  | succ count ih =>
    simp only [multiplyBits_succ]
    rw [scaled_xor, double_xor narrow, ih, xor_exchange]

theorem multiplyBits_xor_right (count : Nat) (a b b' : UInt16) :
    multiplyBits modulus bits count a (b ^^^ b') =
      multiplyBits modulus bits count a b ^^^ multiplyBits modulus bits count a b' := by
  induction count generalizing a b b' with
  | zero => simp [multiplyBits]
  | succ count ih =>
    simp only [multiplyBits_succ]
    rw [UInt16.toNat_xor, Nat.testBit_xor, xor_scaled, UInt16.shiftRight_xor, ih, xor_exchange]

theorem multiplyBits_scaled (narrow : bits < 16) (count : Nat) (bit : Bool) (a b : UInt16) :
    multiplyBits modulus bits count (scaled bit a) b =
      scaled bit (multiplyBits modulus bits count a b) := by
  cases bit
  · exact multiplyBits_zero_left narrow count b
  · rfl

/-- A factor can be doubled before or after. -/
theorem multiplyBits_double (narrow : bits < 16) (count : Nat) (a b : UInt16) :
    multiplyBits modulus bits count (double modulus bits a) b =
      double modulus bits (multiplyBits modulus bits count a b) := by
  induction count generalizing a b with
  | zero => exact (double_zero narrow).symm
  | succ count ih =>
    rw [multiplyBits_succ, multiplyBits_succ, ih, ih, double_xor narrow, double_scaled narrow]

/-- Sums of powers of doubling can be applied in either order. -/
theorem multiplyBits_exchange (narrow : bits < 16) (m n : Nat) (word a b : UInt16) :
    multiplyBits modulus bits m (multiplyBits modulus bits n word a) b =
      multiplyBits modulus bits n (multiplyBits modulus bits m word b) a := by
  induction n generalizing word a with
  | zero => exact multiplyBits_zero_left narrow m b
  | succ n ih =>
    rw [multiplyBits_succ, multiplyBits_succ, multiplyBits_xor_left narrow,
      multiplyBits_scaled narrow, ih, multiplyBits_double narrow]

/-- As long as nothing comes up to the highest bit of the field, doubling is a shift. -/
theorem double_of_lt (narrow : bits < 16) {a : UInt16} (small : (a <<< 1).toNat < 2 ^ bits) :
    double modulus bits a = a <<< 1 := by
  rw [double_eq narrow, Nat.testBit_lt_two_pow small]
  simp [scaled]

/-- The bits of a word inside the field make the word of one. -/
theorem multiplyBits_one (narrow : bits < 16) (within : count ≤ bits) (small : a.toNat < 2 ^ count) :
    multiplyBits modulus bits count 1 a = a := by
  induction count generalizing a with
  | zero =>
    have none : a.toNat = 0 := by simpa using small
    rw [multiplyBits]
    exact (UInt16.toNat_inj.mp none).symm
  | succ count ih =>
    have bound : 2 ^ (count + 1) ≤ 2 ^ bits := Nat.pow_le_pow_right (by decide) within
    rw [Nat.pow_succ] at small bound
    have half : (a >>> 1).toNat < 2 ^ count := by
      rw [toNat_half]
      omega
    have whole : ((a >>> 1) <<< 1).toNat < 2 ^ bits := by
      rw [toNat_twice, toNat_half]
      omega
    rw [multiplyBits_succ, multiplyBits_double narrow, ih (Nat.le_of_succ_le within) half,
      double_of_lt narrow whole, scaled_xor_shifted]

/-- The first factor can be made out of one, and then the other one is applied to it. -/
theorem multiply_comm (narrow : bits < 16) (left : a.toNat < 2 ^ bits) (right : b.toNat < 2 ^ bits) :
    multiply a b modulus bits = multiply b a modulus bits := by
  have first : multiplyBits modulus bits bits 1 a = a :=
    multiplyBits_one narrow (Nat.le_refl bits) left
  have second : multiplyBits modulus bits bits 1 b = b :=
    multiplyBits_one narrow (Nat.le_refl bits) right
  calc multiply a b modulus bits
      = multiplyBits modulus bits bits (multiplyBits modulus bits bits 1 a) b := by
        rw [first]
        rfl
    _ = multiplyBits modulus bits bits (multiplyBits modulus bits bits 1 b) a :=
        multiplyBits_exchange narrow bits bits 1 a b
    _ = multiply b a modulus bits := by
        rw [second]
        rfl

/-- Whatever the modulus is, and whether or not it takes the highest bit of the field back, products
are linear in either factor over all words of the register, and inside the field the factors can
change places. -/
theorem multiply_bilinear (narrow : bits < 16) (modulus : UInt16) :
    (∀ a a' b, multiply (a ^^^ a') b modulus bits =
      multiply a b modulus bits ^^^ multiply a' b modulus bits) ∧
    (∀ a b b', multiply a (b ^^^ b') modulus bits =
      multiply a b modulus bits ^^^ multiply a b' modulus bits) ∧
    ∀ a b, a.toNat < 2 ^ bits → b.toNat < 2 ^ bits →
      multiply a b modulus bits = multiply b a modulus bits :=
  ⟨multiplyBits_xor_left narrow bits, multiplyBits_xor_right bits,
    fun _ _ left right => multiply_comm narrow left right⟩

/-- Modulo 0xA7 over eleven bits, bit number eleven stays in the product. -/
theorem multiply_bilinear_leaking :
    11 < 16 ∧ (0x401 : UInt16).toNat < 2 ^ 11 ∧ (6 : UInt16).toNat < 2 ^ 11 ∧
    multiply 0x401 6 0xA7 11 = multiply 6 0x401 0xA7 11 ∧ multiply 0x401 6 0xA7 11 = 0x19EF ∧
    multiply (0xF400 ^^^ 0x401) 6 0xA7 11 = multiply 0xF400 6 0xA7 11 ^^^ multiply 0x401 6 0xA7 11 ∧
    multiply 0xF400 (6 ^^^ 0xFFFF) 0xA7 11 =
      multiply 0xF400 6 0xA7 11 ^^^ multiply 0xF400 0xFFFF 0xA7 11 := by
  have narrow : 11 < 16 := by decide
  have inside : (0x401 : UInt16).toNat < 2 ^ 11 := by decide
  have other : (6 : UInt16).toNat < 2 ^ 11 := by decide
  obtain ⟨left, right, exchange⟩ := multiply_bilinear narrow 0xA7
  exact ⟨narrow, inside, other, exchange 0x401 6 inside other, by decide, left 0xF400 0x401 6,
    right 0xF400 6 0xFFFF⟩

end RoomCipher.RegisterProducts
