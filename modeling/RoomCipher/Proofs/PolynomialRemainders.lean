import Mathlib.Algebra.CharP.Two
import Mathlib.Algebra.Field.ZMod
import Mathlib.Data.Nat.Size
import Mathlib.RingTheory.AdjoinRoot
import RoomCipher.Proofs.RegisterProducts

/-! Products modulo a polynomial. A number stands for the polynomial over the field of two elements
that has its bits as coefficients, and xor is the sum. Where the highest bit of the modulus is the one
at which doubling brings it in, doubling is multiplication by x in the quotient ring and keeps words
inside the field. So a product is the remainder of the carry-less product, and the words inside the
field are the elements of the quotient ring. -/
namespace RoomCipher.PolynomialRemainders
open RoomCipher.Field RegisterProducts Polynomial

/-! ### Polynomials -/

/-- A number has no bits from its width on. -/
theorem testBit_beyond (small : n < 2 ^ width) (beyond : width ≤ place) : n.testBit place = false :=
  Nat.testBit_lt_two_pow (small.trans_le (Nat.pow_le_pow_right two_pos beyond))

/-- The polynomial of which a number holds the coefficients. -/
noncomputable def polynomial (n : Nat) : (ZMod 2)[X] :=
  ∑ place ∈ Finset.range n.size, if n.testBit place then X ^ place else 0

theorem coeff_polynomial (n place : Nat) :
    (polynomial n).coeff place = if n.testBit place then 1 else 0 := by
  have term (i : Nat) : (if n.testBit i then X ^ i else 0 : (ZMod 2)[X]).coeff place =
      if place = i then (if n.testBit place then 1 else 0) else 0 := by
    by_cases same : place = i
    · subst same
      cases n.testBit place <;> simp
    · cases n.testBit i <;> simp [coeff_X_pow, same]
  rw [polynomial, finsetSum_coeff, Finset.sum_congr rfl fun i _ => term i, Finset.sum_ite_eq]
  split
  next => rfl
  next beyond =>
    have above : n.size ≤ place := by simpa using beyond
    rw [testBit_beyond (Nat.lt_size_self n) above]
    rfl

theorem polynomial_injective : Function.Injective polynomial := by
  intro m n same
  refine Nat.eq_of_testBit_eq fun place => ?_
  have coefficient := congrArg (coeff · place) same
  simp only [coeff_polynomial] at coefficient
  cases left : m.testBit place <;> cases right : n.testBit place <;>
    simp [left, right] at coefficient ⊢

@[simp] theorem polynomial_zero : polynomial 0 = 0 := by
  ext place
  simp [coeff_polynomial]

@[simp] theorem polynomial_one : polynomial 1 = 1 := by
  ext place
  cases place <;> simp [coeff_polynomial, coeff_one, Nat.testBit_succ]

theorem polynomial_xor (m n : Nat) : polynomial (m ^^^ n) = polynomial m + polynomial n := by
  ext place
  rw [coeff_add, coeff_polynomial, coeff_polynomial, coeff_polynomial, Nat.testBit_xor]
  cases m.testBit place <;> cases n.testBit place <;> decide

theorem polynomial_twice (n : Nat) : polynomial (2 * n) = X * polynomial n := by
  ext place
  cases place with
  | zero => simp [coeff_polynomial]
  | succ place =>
    rw [coeff_X_mul, coeff_polynomial, coeff_polynomial, Nat.testBit_succ,
      Nat.mul_div_cancel_left _ two_pos]

/-- The lowest bit is the constant term. -/
theorem polynomial_split (n : Nat) :
    polynomial n = (if n.testBit 0 then 1 else 0) + X * polynomial (n / 2) := by
  conv_lhs => rw [← low_xor_high n, polynomial_xor, polynomial_twice]
  cases n.testBit 0 <;> simp

theorem degree_polynomial_lt : (polynomial n).degree < (bits : Nat) ↔ n < 2 ^ bits := by
  rw [degree_lt_iff_coeff_zero]
  constructor
  · intro clear
    refine Nat.lt_pow_two_of_testBit n fun place beyond => ?_
    have coefficient := clear place beyond
    rw [coeff_polynomial] at coefficient
    cases bit : n.testBit place
    · rfl
    · simp [bit] at coefficient
  · intro small place beyond
    rw [coeff_polynomial, testBit_beyond small beyond]
    rfl

/-- Every polynomial of small degree is held by a small number. -/
theorem exists_polynomial {f : (ZMod 2)[X]} (small : f.degree < (bits : Nat)) :
    ∃ n < 2 ^ bits, polynomial n = f := by
  let n := Nat.ofBits fun place : Fin bits => decide (f.coeff place = 1)
  refine ⟨n, Nat.ofBits_lt_two_pow _, ?_⟩
  ext place
  rw [coeff_polynomial]
  by_cases within : place < bits
  · rw [Nat.testBit_ofBits_lt _ _ within]
    generalize f.coeff place = c
    revert c
    decide
  · rw [Nat.testBit_ofBits_ge _ _ (Nat.le_of_not_lt within),
      (degree_lt_iff_coeff_zero f bits).mp small place (Nat.le_of_not_lt within)]
    rfl

/-! ### The modulus -/

/-- The highest bit of a modulus is the one that a field of this width has no room for. -/
def HasDegree (modulus : UInt16) (bits : Nat) : Prop :=
  2 ^ bits ≤ modulus.toNat ∧ modulus.toNat < 2 ^ (bits + 1)

variable {modulus : UInt16} {bits : Nat}

theorem HasDegree.narrow (highest : HasDegree modulus bits) : bits < 16 := by
  have bound := highest.1.trans_lt modulus.toNat_lt
  exact (Nat.pow_lt_pow_iff_right (by decide)).mp bound

theorem HasDegree.testBit (highest : HasDegree modulus bits) :
    modulus.toNat.testBit bits = true :=
  Nat.testBit_of_two_pow_le_and_two_pow_add_one_gt highest.1 highest.2

theorem HasDegree.degree_le (highest : HasDegree modulus bits) :
    (polynomial modulus.toNat).degree ≤ (bits : Nat) := by
  have below := degree_polynomial_lt.mpr highest.2
  exact Order.le_of_lt_succ (by exact_mod_cast below)

theorem HasDegree.coeff (highest : HasDegree modulus bits) :
    (polynomial modulus.toNat).coeff bits = 1 := by
  rw [coeff_polynomial, highest.testBit]
  rfl

theorem HasDegree.monic (highest : HasDegree modulus bits) : (polynomial modulus.toNat).Monic :=
  monic_of_degree_le bits highest.degree_le highest.coeff

theorem HasDegree.degree (highest : HasDegree modulus bits) :
    (polynomial modulus.toNat).degree = (bits : Nat) :=
  degree_eq_of_le_of_coeff_ne_zero highest.degree_le (by rw [highest.coeff]; exact one_ne_zero)

/-! ### Residues -/

/-- What a word stands for in the quotient by the modulus. -/
noncomputable def residue (modulus word : UInt16) : AdjoinRoot (polynomial modulus.toNat) :=
  AdjoinRoot.mk _ (polynomial word.toNat)

theorem residue_xor (a b : UInt16) :
    residue modulus (a ^^^ b) = residue modulus a + residue modulus b := by
  rw [residue, UInt16.toNat_xor, polynomial_xor, map_add]
  rfl

@[simp] theorem residue_zero : residue modulus 0 = 0 := by
  rw [residue, UInt16.toNat_zero, polynomial_zero, map_zero]

@[simp] theorem residue_one : residue modulus 1 = 1 := by
  rw [residue, UInt16.toNat_one, polynomial_one, map_one]

@[simp] theorem residue_modulus : residue modulus modulus = 0 :=
  AdjoinRoot.mk_self

theorem residue_scaled (bit : Bool) (word : UInt16) :
    residue modulus (scaled bit word) = (if bit then 1 else 0) * residue modulus word := by
  cases bit <;> simp [scaled]

/-- Words inside the field stand for different elements. -/
theorem residue_injective (highest : HasDegree modulus bits) :
    Set.InjOn (residue modulus) {word | word.toNat < 2 ^ bits} := by
  intro a left b right same
  have multiple := AdjoinRoot.mk_eq_mk.mp same
  have remainder := modByMonic_eq_of_dvd_sub highest.monic multiple
  rw [(modByMonic_eq_self_iff highest.monic).mpr, (modByMonic_eq_self_iff highest.monic).mpr]
    at remainder
  · exact UInt16.toNat_inj.mp (polynomial_injective remainder)
  · rw [highest.degree]
    exact degree_polynomial_lt.mpr right
  · rw [highest.degree]
    exact degree_polynomial_lt.mpr left

/-- Every element is what some word inside the field stands for. -/
theorem residue_surjective (highest : HasDegree modulus bits) :
    Set.SurjOn (residue modulus) {word | word.toNat < 2 ^ bits} Set.univ := by
  intro element _
  obtain ⟨f, rfl⟩ := AdjoinRoot.mk_surjective element
  have small : (f %ₘ polynomial modulus.toNat).degree < (bits : Nat) := by
    rw [← highest.degree]
    exact degree_modByMonic_lt f highest.monic
  obtain ⟨n, within, remainder⟩ := exists_polynomial small
  have fits : n < 2 ^ 16 := within.trans (Nat.pow_lt_pow_right (by decide) highest.narrow)
  have word : (UInt16.ofNat n).toNat = n := by
    rw [UInt16.toNat_ofNat', Nat.mod_eq_of_lt fits]
  refine ⟨UInt16.ofNat n, by rwa [Set.mem_ofPred_eq, word], ?_⟩
  rw [residue, word, remainder, AdjoinRoot.mk_eq_mk]
  refine ⟨-(f /ₘ polynomial modulus.toNat), ?_⟩
  rw [modByMonic_eq_sub_mul_div, mul_neg]
  ring

/-! ### Products -/

/-- Doubling a word inside the field loses no bit. -/
theorem toNat_twice_of_lt (narrow : bits < 16) {a : UInt16} (small : a.toNat < 2 ^ bits) :
    (a <<< 1).toNat = 2 * a.toNat := by
  have bound : 2 ^ bits ≤ 2 ^ 15 := Nat.pow_le_pow_right two_pos (Nat.le_of_lt_succ narrow)
  rw [toNat_twice, Nat.mod_eq_of_lt (by omega)]

/-- Doubling stays inside the field. -/
theorem double_lt (highest : HasDegree modulus bits) {a : UInt16} (small : a.toNat < 2 ^ bits) :
    (double modulus bits a).toNat < 2 ^ bits := by
  have wide : (a <<< 1).toNat < 2 ^ (bits + 1) := by
    rw [toNat_twice_of_lt highest.narrow small, Nat.pow_succ']
    exact Nat.mul_lt_mul_of_pos_left small two_pos
  rw [double_eq highest.narrow, UInt16.toNat_xor, toNat_scaled]
  refine Nat.lt_pow_two_of_testBit _ fun place beyond => ?_
  rw [Nat.testBit_xor]
  rcases Nat.eq_or_lt_of_le beyond with rfl | above
  · cases bit : (a <<< 1).toNat.testBit bits <;> simp [highest.testBit]
  · rw [testBit_beyond wide above]
    cases (a <<< 1).toNat.testBit bits <;> simp [testBit_beyond highest.2 above]

/-- Doubling is multiplication by x. -/
theorem residue_double (highest : HasDegree modulus bits) {a : UInt16}
    (small : a.toNat < 2 ^ bits) :
    residue modulus (double modulus bits a) = AdjoinRoot.root _ * residue modulus a := by
  rw [double_eq highest.narrow, residue_xor, residue_scaled, residue_modulus, mul_zero, add_zero,
    residue, toNat_twice_of_lt highest.narrow small, polynomial_twice, map_mul, AdjoinRoot.mk_X]
  rfl

theorem multiplyBits_lt (highest : HasDegree modulus bits) (count : Nat) {a : UInt16}
    (small : a.toNat < 2 ^ bits) (b : UInt16) :
    (multiplyBits modulus bits count a b).toNat < 2 ^ bits := by
  induction count generalizing a b with
  | zero => exact Nat.two_pow_pos bits
  | succ count ih =>
    rw [multiplyBits_succ, UInt16.toNat_xor]
    refine Nat.xor_lt_two_pow ?_ (ih (double_lt highest small) (b >>> 1))
    cases b.toNat.testBit 0
    · exact Nat.two_pow_pos bits
    · exact small

/-- A product is made of the bits of the second factor that are read. -/
theorem residue_multiplyBits (highest : HasDegree modulus bits) (count : Nat) {a : UInt16}
    (small : a.toNat < 2 ^ bits) (b : UInt16) :
    residue modulus (multiplyBits modulus bits count a b) =
      residue modulus a * AdjoinRoot.mk _ (polynomial (b.toNat % 2 ^ count)) := by
  induction count generalizing a b with
  | zero => simp [multiplyBits, Nat.mod_one]
  | succ count ih =>
    have lowest : (b.toNat % 2 ^ (count + 1)).testBit 0 = b.toNat.testBit 0 := by
      simp
    have others : b.toNat % 2 ^ (count + 1) / 2 = (b >>> 1).toNat % 2 ^ count := by
      rw [toNat_half, Nat.pow_succ', Nat.mod_mul_right_div_self]
    have bit : AdjoinRoot.mk (polynomial modulus.toNat) (if b.toNat.testBit 0 then 1 else 0) =
        if b.toNat.testBit 0 then 1 else 0 := by
      cases b.toNat.testBit 0 <;> simp
    rw [multiplyBits_succ, residue_xor, residue_scaled, ih (double_lt highest small),
      residue_double highest small, polynomial_split (b.toNat % 2 ^ (count + 1)), lowest, others,
      map_add, map_mul, bit, AdjoinRoot.mk_X]
    ring

/-- Inside the field, products are those of the quotient ring. -/
theorem residue_multiply (highest : HasDegree modulus bits) {a b : UInt16}
    (left : a.toNat < 2 ^ bits) (right : b.toNat < 2 ^ bits) :
    residue modulus (multiply a b modulus bits) = residue modulus a * residue modulus b := by
  rw [multiply, residue_multiplyBits highest bits left, Nat.mod_eq_of_lt right]
  rfl

theorem multiply_lt (highest : HasDegree modulus bits) {a : UInt16} (small : a.toNat < 2 ^ bits)
    (b : UInt16) : (multiply a b modulus bits).toNat < 2 ^ bits :=
  multiplyBits_lt highest bits small b

/-- A word inside the field holds the remainder of every polynomial that it stands for. -/
theorem polynomial_eq_modByMonic (highest : HasDegree modulus bits) {word : UInt16}
    (small : word.toNat < 2 ^ bits) {f : (ZMod 2)[X]}
    (same : residue modulus word = AdjoinRoot.mk _ f) :
    polynomial word.toNat = f %ₘ polynomial modulus.toNat := by
  have congruent := modByMonic_eq_of_dvd_sub highest.monic (AdjoinRoot.mk_eq_mk.mp same)
  rw [← congruent, eq_comm, modByMonic_eq_self_iff highest.monic, highest.degree]
  exact degree_polynomial_lt.mpr small

/-- A product is the remainder of the carry-less product of the first factor and the bits of the
second one that are read. -/
theorem polynomial_multiply (highest : HasDegree modulus bits) {a : UInt16}
    (small : a.toNat < 2 ^ bits) (b : UInt16) :
    polynomial (multiply a b modulus bits).toNat =
      polynomial a.toNat * polynomial (b.toNat % 2 ^ bits) %ₘ polynomial modulus.toNat := by
  refine polynomial_eq_modByMonic highest (multiply_lt highest small b) ?_
  rw [map_mul]
  exact residue_multiplyBits highest bits small b

theorem multiply_assoc (highest : HasDegree modulus bits) {a b c : UInt16}
    (first : a.toNat < 2 ^ bits) (second : b.toNat < 2 ^ bits) (third : c.toNat < 2 ^ bits) :
    multiply (multiply a b modulus bits) c modulus bits =
      multiply a (multiply b c modulus bits) modulus bits := by
  have left := multiply_lt highest first b
  have right := multiply_lt highest second c
  refine residue_injective highest (multiply_lt highest left c) (multiply_lt highest first _) ?_
  rw [residue_multiply highest left third, residue_multiply highest first second,
    residue_multiply highest first right, residue_multiply highest second third, mul_assoc]

theorem one_multiply (highest : HasDegree modulus bits) {a : UInt16} (small : a.toNat < 2 ^ bits) :
    multiply 1 a modulus bits = a :=
  multiplyBits_one highest.narrow (Nat.le_refl bits) small

theorem residue_cube (highest : HasDegree modulus bits) {x : UInt16} (small : x.toNat < 2 ^ bits) :
    residue modulus (cube x modulus bits) = residue modulus x ^ 3 := by
  rw [cube, residue_multiply highest (multiply_lt highest small x) small,
    residue_multiply highest small small, pow_succ, sq]

theorem polynomial_cube (highest : HasDegree modulus bits) {x : UInt16}
    (small : x.toNat < 2 ^ bits) :
    polynomial (cube x modulus bits).toNat = polynomial x.toNat ^ 3 %ₘ polynomial modulus.toNat := by
  refine polynomial_eq_modByMonic highest (multiply_lt highest (multiply_lt highest small x) x) ?_
  rw [map_pow]
  exact residue_cube highest small

/-- Modulo a polynomial of the degree of the field, products are remainders of carry-less products
and stay inside the field. There, words with xor and these products obey the laws of a commutative
ring with one, they are the elements of the quotient by the modulus, and cubes are the cubes in it. -/
theorem multiply_modulo (positive : 1 ≤ bits) (highest : HasDegree modulus bits) :
    (∀ a b : UInt16, a.toNat < 2 ^ bits →
      (multiply a b modulus bits).toNat < 2 ^ bits ∧
      polynomial (multiply a b modulus bits).toNat =
        polynomial a.toNat * polynomial (b.toNat % 2 ^ bits) %ₘ polynomial modulus.toNat) ∧
    (∀ a b c : UInt16, a.toNat < 2 ^ bits → b.toNat < 2 ^ bits → c.toNat < 2 ^ bits →
      multiply (multiply a b modulus bits) c modulus bits =
        multiply a (multiply b c modulus bits) modulus bits ∧
      multiply a b modulus bits = multiply b a modulus bits ∧
      multiply a (b ^^^ c) modulus bits = multiply a b modulus bits ^^^ multiply a c modulus bits ∧
      multiply (a ^^^ b) c modulus bits = multiply a c modulus bits ^^^ multiply b c modulus bits ∧
      multiply 1 a modulus bits = a ∧ multiply a 1 modulus bits = a ∧
      residue modulus (multiply a b modulus bits) = residue modulus a * residue modulus b) ∧
    (∀ a b : UInt16, residue modulus (a ^^^ b) = residue modulus a + residue modulus b) ∧
    residue modulus 1 = 1 ∧
    Set.BijOn (residue modulus) {word | word.toNat < 2 ^ bits} Set.univ ∧
    ∀ x : UInt16, x.toNat < 2 ^ bits →
      residue modulus (cube x modulus bits) = residue modulus x ^ 3 ∧
      polynomial (cube x modulus bits).toNat =
        polynomial x.toNat ^ 3 %ₘ polynomial modulus.toNat := by
  have narrow := highest.narrow
  have one : (1 : UInt16).toNat < 2 ^ bits := Nat.one_lt_two_pow (Nat.ne_of_gt positive)
  refine ⟨fun a b small => ⟨multiply_lt highest small b, polynomial_multiply highest small b⟩,
    fun a b c first second third => ?_, residue_xor, residue_one,
    ⟨Set.mapsTo_univ _ _, residue_injective highest, residue_surjective highest⟩,
    fun x small => ⟨residue_cube highest small, polynomial_cube highest small⟩⟩
  have unit := one_multiply highest first
  exact ⟨multiply_assoc highest first second third, multiply_comm narrow first second,
    multiplyBits_xor_right bits a b c, multiplyBits_xor_left narrow bits a b c, unit,
    (multiply_comm narrow first one).trans unit, residue_multiply highest first second⟩

/-- In the field of 13 bits, the product of its highest power of x and x is what the modulus has below
its highest bit. -/
theorem multiply_modulo_wrapped :
    1 ≤ 13 ∧ HasDegree 0x2911 13 ∧ (0x1000 : UInt16).toNat < 2 ^ 13 ∧
    multiply 0x1000 2 0x2911 13 = 0x911 ∧ polynomial 0x911 =
      polynomial 0x1000 * polynomial 2 %ₘ polynomial 0x2911 := by
  have highest : HasDegree 0x2911 13 := by
    constructor <;> decide
  have small : (0x1000 : UInt16).toNat < 2 ^ 13 := by decide
  have product : multiply 0x1000 2 0x2911 13 = 0x911 := by decide
  obtain ⟨remainders, _⟩ := multiply_modulo (by decide) highest
  obtain ⟨_, remainder⟩ := remainders 0x1000 2 small
  rw [product] at remainder
  exact ⟨by decide, highest, small, product, remainder⟩

end RoomCipher.PolynomialRemainders
