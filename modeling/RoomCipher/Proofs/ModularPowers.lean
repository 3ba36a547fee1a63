import Mathlib.Algebra.Group.Nat.Defs
import RoomCipher.Exchange.Prime

/-! Repeated squaring computes powers. The exponent is halved while the base is
squared, and what the halving drops is multiplied in again. -/
namespace RoomCipher.ModularPowers
open Exchange

private theorem square_pow (base half modulus : Nat) :
    (base * base % modulus) ^ half % modulus = base ^ (2 * half) % modulus := by
  rw [← Nat.pow_mod, Nat.pow_mul, Nat.pow_two]

theorem powMod_eq (base exponent modulus : Nat) :
    powMod base exponent modulus = base ^ exponent % modulus := by
  induction exponent using Nat.strongRecOn generalizing base with
  | ind exponent ih =>
    cases exponent with
    | zero => rw [powMod, Nat.pow_zero]
    | succ exponent =>
      have halves := Nat.div_add_mod (exponent + 1) 2
      rw [powMod, ih ((exponent + 1) / 2) (by omega), square_pow]
      rcases Nat.mod_two_eq_zero_or_one (exponent + 1) with even | odd
      · rw [even, Nat.add_zero] at halves
        simp only [even, Nat.zero_ne_one, ↓reduceIte, halves]
      · rw [odd] at halves
        simp only [odd, ↓reduceIte, Nat.mul_mod_mod]
        rw [← Nat.pow_succ', Nat.succ_eq_add_one, halves]

/-- A power of a power does not depend on which exponent came first. -/
theorem powMod_comm (base first second modulus : Nat) :
    powMod (powMod base first modulus) second modulus =
      powMod (powMod base second modulus) first modulus := by
  simp only [powMod_eq, ← Nat.pow_mod, ← Nat.pow_mul, Nat.mul_comm first]

end RoomCipher.ModularPowers
