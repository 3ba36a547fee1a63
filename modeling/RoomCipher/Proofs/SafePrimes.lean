import Mathlib.Tactic.NormNum.Prime
import RoomCipher.Proofs.DerivedContexts
import RoomCipher.Proofs.PrimalityTest

/-! Secrets that cannot be foreseen. Modulo twice a prime plus one, units have few orders to choose
from: apart from one and minus one, all of them have the prime in their order. A public key in range
is such a unit, so its powers come back to one or minus one at the multiples of the prime alone, and
a range check is all that it takes to keep a shared secret from being known beforehand. -/
namespace RoomCipher.SafePrimes
open Exchange DerivedContexts ModularPowers PrimalityTest

/-! ### Orders -/

/-- Where one has no square roots but one and minus one, the order of a unit tells when its powers
come back to them. -/
theorem pow_trivial_iff {R : Type} [Ring R] [NoZeroDivisors R] (x : R) (exponent : Nat) :
    x ^ exponent = 1 ∨ x ^ exponent = -1 ↔ orderOf x ∣ 2 * exponent := by
  rw [orderOf_dvd_iff_pow_eq_one, Nat.mul_comm, pow_mul, sq_eq_one_iff]

/-- A divisor of twice an odd prime has the prime in it, unless it divides two. -/
theorem dvd_double_iff (half : q.Prime) (odd : Odd q) (within : d ∣ 2 * q) (proper : ¬ d ∣ 2) :
    d ∣ 2 * m ↔ q ∣ m := by
  have shared : q ∣ d := by
    by_contra apart
    have coprime := (half.coprime_iff_not_dvd.mpr apart).symm
    exact proper (coprime.dvd_of_dvd_mul_right within)
  constructor
  · intro multiple
    exact (Nat.coprime_two_right.mpr odd).dvd_of_dvd_mul_left (shared.trans multiple)
  · intro multiple
    exact within.trans (Nat.mul_dvd_mul_left 2 multiple)

/-- Modulo a safe prime, the powers of a unit that is not its own inverse come back to one or minus
one at the multiples of the prime inside. -/
theorem pow_trivial_iff_dvd (prime : p.Prime) (half : q.Prime) (odd : Odd q) (safe : p = 2 * q + 1)
    {x : ZMod p} (nonzero : x ≠ 0) (proper : ¬(x = 1 ∨ x = -1)) (exponent : Nat) :
    x ^ exponent = 1 ∨ x ^ exponent = -1 ↔ q ∣ exponent := by
  have field : Fact p.Prime := ⟨prime⟩
  have within : orderOf x ∣ 2 * q := by
    have double : p - 1 = 2 * q := by omega
    rw [← double]
    exact orderOf_dvd_of_pow_eq_one (ZMod.pow_card_sub_one_eq_one nonzero)
  have several : ¬ orderOf x ∣ 2 := by
    rwa [← pow_one x, pow_trivial_iff] at proper
  rw [pow_trivial_iff, dvd_double_iff half odd within several]

/-! ### Public keys and secrets -/

/-- The range of acceptable keys leaves out zero, one and minus one. -/
theorem acceptable_iff {parameters : Parameters} (large : 2 < parameters.prime)
    (reduced : key < parameters.prime) :
    parameters.validatePublicKey key = .ok () ↔
      key ≠ 0 ∧ ¬((key : ZMod parameters.prime) = 1 ∨ (key : ZMod parameters.prime) = -1) := by
  rw [validatePublicKey_eq_ok (Nat.lt_of_succ_lt large), ← eq_one_iff large reduced,
    ← eq_pred_iff large reduced]
  omega

theorem sharedKey_eq (modulus : 1 < prime) (scalar key : Nat) :
    sharedKey scalar key prime = .ok (key ^ scalar % prime) := by
  have checked : checkModulus prime = .ok () := if_neg (Nat.not_le.mpr modulus)
  rw [sharedKey, checked, powMod_eq]
  rfl

/-- Modulo a safe prime, whatever acceptable key comes in, the secret shared with its owner is not
zero, and it is one or minus one only with a private scalar that is a multiple of the prime inside. -/
theorem secret_unconfined {parameters : Parameters} (prime : parameters.prime.Prime)
    (half : q.Prime) (odd : Odd q) (safe : parameters.prime = 2 * q + 1)
    (accepted : parameters.validatePublicKey key = .ok ()) (scalar : Nat) :
    ∃ secret, sharedKey scalar key parameters.prime = .ok secret ∧ secret ≠ 0 ∧
      (¬ q ∣ scalar ↔ secret ≠ 1 ∧ secret ≠ parameters.prime - 1) := by
  have field : Fact parameters.prime.Prime := ⟨prime⟩
  have large : 2 < parameters.prime := by
    have := half.two_le
    omega
  have modulus : 1 < parameters.prime := Nat.lt_of_succ_lt large
  have reduced : key < parameters.prime := by
    have range := (validatePublicKey_eq_ok modulus).mp accepted
    omega
  obtain ⟨written, proper⟩ := (acceptable_iff large reduced).mp accepted
  have nonzero : (key : ZMod parameters.prime) ≠ 0 := by
    rw [Ne, ZMod.natCast_eq_zero_iff]
    exact Nat.not_dvd_of_pos_of_lt (Nat.pos_of_ne_zero written) reduced
  have below : key ^ scalar % parameters.prime < parameters.prime := Nat.mod_lt _ prime.pos
  have power : ((key ^ scalar % parameters.prime : Nat) : ZMod parameters.prime) =
      (key : ZMod parameters.prime) ^ scalar := by
    rw [ZMod.natCast_mod, Nat.cast_pow]
  refine ⟨_, sharedKey_eq modulus scalar key, ?_, ?_⟩
  · intro zero
    rw [zero, Nat.cast_zero] at power
    exact pow_ne_zero scalar nonzero power.symm
  · rw [← not_or, eq_one_iff large below, eq_pred_iff large below, power,
      pow_trivial_iff_dvd prime half odd safe nonzero proper]

/-- With the key 2 and the scalar 10 modulo 23, the secret is 12. -/
theorem secret_unconfined_small :
    Nat.Prime 23 ∧ Nat.Prime 11 ∧ Odd 11 ∧ 23 = 2 * 11 + 1 ∧
    (⟨23, 2⟩ : Parameters).validatePublicKey 2 = .ok () ∧ ¬ 11 ∣ 10 ∧
    sharedKey 10 2 23 = .ok 12 ∧ 12 ≠ 1 ∧ 12 ≠ 23 - 1 := by
  have prime : (⟨23, 2⟩ : Parameters).prime.Prime := by norm_num
  have half : Nat.Prime 11 := by norm_num
  have odd : Odd 11 := ⟨5, rfl⟩
  have accepted : (⟨23, 2⟩ : Parameters).validatePublicKey 2 = .ok () := rfl
  have apart : ¬ 11 ∣ 10 := by norm_num
  obtain ⟨secret, shared, _, confined⟩ :=
    secret_unconfined prime half odd rfl accepted 10
  have value : sharedKey 10 2 23 = .ok 12 := sharedKey_eq (by norm_num) 10 2
  cases shared.symm.trans value
  exact ⟨prime, half, odd, rfl, accepted, apart, value, confined.mp apart⟩

end RoomCipher.SafePrimes
