import Mathlib.Data.Int.ModEq
import Mathlib.Tactic.Ring
import RoomCipher.Proofs.ByteLaws

/-! Byte strings as numbers modulo a power of 256. Sums, differences and counters go through the
bytes from the last to the first with a carry, and what comes out of the first byte is dropped. With
it put back the numbers add up exactly, so what is dropped are whole multiples of the range, and a
string of the same length is known by its number up to these. -/
namespace RoomCipher.BigEndianSums
open Bytes ByteLaws

/-! ### Strings and numbers -/

/-- Strings of one length are the same if their numbers differ by multiples of the range. -/
theorem eq_of_modEq (same : a.length = b.length) (congruent : value a ≡ value b [MOD 256 ^ a.length]) :
    a = b := by
  have fits : value b < 256 ^ a.length := same ▸ value_lt b
  have equal : value a = value b := by
    rwa [Nat.ModEq, Nat.mod_eq_of_lt (value_lt a), Nat.mod_eq_of_lt fits] at congruent
  rw [← ofBigEndian_value a, same, equal, ofBigEndian_value]

theorem value_eq_mod (width : bytes.length = length)
    (congruent : value bytes ≡ n [MOD 256 ^ length]) : value bytes = n % 256 ^ length := by
  subst width
  rwa [Nat.ModEq, Nat.mod_eq_of_lt (value_lt bytes)] at congruent

/-- A byte keeps what it can hold of a number, and the rest is carried on. -/
theorem value_ofNat_cons (n : Nat) (bytes : Bytes) :
    value (UInt8.ofNat n :: bytes) + 256 ^ (bytes.length + 1) * (n / 256) =
      value bytes + 256 ^ bytes.length * n := by
  have digits := Nat.mod_add_div n 256
  rw [value_cons, UInt8.toNat_ofNat']
  calc value bytes + 256 ^ bytes.length * (n % 256) + 256 ^ (bytes.length + 1) * (n / 256)
      = value bytes + 256 ^ bytes.length * (n % 256 + 256 * (n / 256)) := by ring
    _ = value bytes + 256 ^ bytes.length * n := by rw [digits]

/-! ### What is carried -/

/-- With the carry put in front, the sum is exact. -/
theorem addWithCarry_total (same : a.length = b.length) :
    (addWithCarry a b).2.length = a.length ∧
      value (addWithCarry a b).2 + 256 ^ a.length * (addWithCarry a b).1 = value a + value b := by
  induction a generalizing b with
  | nil =>
    obtain rfl := List.length_eq_zero_iff.mp same.symm
    exact ⟨rfl, rfl⟩
  | cons x xs ih =>
    cases b with
    | nil => simp at same
    | cons y ys =>
      obtain ⟨length, total⟩ := ih (Nat.succ.inj same)
      have width : ys.length = xs.length := (Nat.succ.inj same).symm
      refine ⟨by simp [addWithCarry, length], ?_⟩
      have step := value_ofNat_cons (x.toNat + y.toNat + (addWithCarry xs ys).1)
        (addWithCarry xs ys).2
      rw [length] at step
      rw [addWithCarry, List.length_cons, step, value_cons, value_cons, width]
      calc value (addWithCarry xs ys).2 +
            256 ^ xs.length * (x.toNat + y.toNat + (addWithCarry xs ys).1)
          = value (addWithCarry xs ys).2 + 256 ^ xs.length * (addWithCarry xs ys).1 +
              256 ^ xs.length * x.toNat + 256 ^ xs.length * y.toNat := by ring
        _ = value xs + 256 ^ xs.length * x.toNat + (value ys + 256 ^ xs.length * y.toNat) := by
          rw [total]
          ring

/-- With what is borrowed given back, the difference is exact, and one is borrowed at most. -/
theorem subWithBorrow_total (same : a.length = b.length) :
    (subWithBorrow a b).1 ≤ 1 ∧ (subWithBorrow a b).2.length = a.length ∧
      value (subWithBorrow a b).2 + value b = value a + 256 ^ a.length * (subWithBorrow a b).1 := by
  induction a generalizing b with
  | nil =>
    obtain rfl := List.length_eq_zero_iff.mp same.symm
    exact ⟨Nat.zero_le 1, rfl, rfl⟩
  | cons x xs ih =>
    cases b with
    | nil => simp at same
    | cons y ys =>
      have width : ys.length = xs.length := (Nat.succ.inj same).symm
      obtain ⟨small, length, total⟩ := ih width.symm
      simp only [subWithBorrow, List.length_cons, value_cons y, value_cons x, width]
      generalize subWithBorrow xs ys = rest at small length total ⊢
      obtain ⟨borrow, zs⟩ := rest
      have above := x.toNat_lt
      have below := y.toNat_lt
      -- A range is lent beforehand, and comes back as a carry where nothing had to be borrowed.
      have lent : x.toNat + 256 - y.toNat - borrow + (y.toNat + borrow) = x.toNat + 256 := by
        omega
      generalize x.toNat + 256 - y.toNat - borrow = sum at lent ⊢
      have step := value_ofNat_cons sum zs
      rw [length] at step
      have settled : value (UInt8.ofNat sum :: zs) + (value ys + 256 ^ xs.length * y.toNat) +
          256 ^ (xs.length + 1) * (sum / 256) =
            value xs + 256 ^ xs.length * x.toNat + 256 ^ (xs.length + 1) := by
        calc value (UInt8.ofNat sum :: zs) + (value ys + 256 ^ xs.length * y.toNat) +
              256 ^ (xs.length + 1) * (sum / 256)
            = value (UInt8.ofNat sum :: zs) + 256 ^ (xs.length + 1) * (sum / 256) +
                (value ys + 256 ^ xs.length * y.toNat) := by ring
          _ = value zs + value ys + 256 ^ xs.length * (sum + y.toNat) := by
              rw [step]
              ring
          _ = value xs + 256 ^ xs.length * (sum + (y.toNat + borrow)) := by
              rw [total]
              ring
          _ = value xs + 256 ^ xs.length * x.toNat + 256 ^ (xs.length + 1) := by
              rw [lent]
              ring
      by_cases short : x.toNat < y.toNat + borrow
      · have kept : sum / 256 = 0 := by omega
        rw [kept, Nat.mul_zero, Nat.add_zero] at settled
        simp only [short, ↓reduceIte, Nat.mul_one]
        exact ⟨Nat.le_refl 1, congrArg (· + 1) length, settled⟩
      · have returned : sum / 256 = 1 := by omega
        rw [returned, Nat.mul_one] at settled
        simp only [short, ↓reduceIte, Nat.mul_zero, Nat.add_zero]
        exact ⟨Nat.zero_le 1, congrArg (· + 1) length, Nat.add_right_cancel settled⟩

/-- With what is left over put in front, the counter has advanced by the whole amount. -/
theorem addAmount_total (counter : Bytes) (amount : Nat) :
    (addAmount counter amount).2.length = counter.length ∧
      value (addAmount counter amount).2 + 256 ^ counter.length * (addAmount counter amount).1 =
        value counter + amount := by
  induction counter with
  | nil => simp [addAmount, value]
  | cons x xs ih =>
    obtain ⟨length, total⟩ := ih
    simp only [addAmount, List.length_cons, value_cons x]
    generalize addAmount xs amount = rest at length total ⊢
    obtain ⟨carry, zs⟩ := rest
    have step := value_ofNat_cons (x.toNat + carry) zs
    rw [length] at step
    refine ⟨congrArg (· + 1) length, ?_⟩
    calc value (UInt8.ofNat (x.toNat + carry) :: zs) +
          256 ^ (xs.length + 1) * ((x.toNat + carry) / 256)
        = value zs + 256 ^ xs.length * carry + 256 ^ xs.length * x.toNat := by
          rw [step]
          ring
      _ = value xs + 256 ^ xs.length * x.toNat + amount := by
          rw [total]
          ring

/-! ### Sums, differences and counters -/

theorem add_modEq (same : a.length = b.length) : ∃ sum, Bytes.add a b = .ok sum ∧
    sum.length = a.length ∧ value sum ≡ value a + value b [MOD 256 ^ a.length] := by
  obtain ⟨length, total⟩ := addWithCarry_total same
  refine ⟨(addWithCarry a b).2, ?_, length, ?_⟩
  · simp only [Bytes.add, checkLengths, same, ↓reduceIte]
    rfl
  · rw [Nat.ModEq, ← total, Nat.add_mul_mod_self_left]

theorem sub_modEq (same : a.length = b.length) : ∃ difference, Bytes.sub a b = .ok difference ∧
    difference.length = a.length ∧ value difference + value b ≡ value a [MOD 256 ^ a.length] := by
  obtain ⟨_, length, total⟩ := subWithBorrow_total same
  refine ⟨(subWithBorrow a b).2, ?_, length, ?_⟩
  · simp only [Bytes.sub, checkLengths, same, ↓reduceIte]
    rfl
  · rw [Nat.ModEq, total, Nat.add_mul_mod_self_left]

theorem addCounter_modEq (counter : Bytes) (index : UInt64) :
    (addCounter counter index).length = counter.length ∧
      value (addCounter counter index) ≡ value counter + index.toNat [MOD 256 ^ counter.length] := by
  obtain ⟨length, total⟩ := addAmount_total counter index.toNat
  refine ⟨length, ?_⟩
  rw [addCounter, Nat.ModEq, ← total, Nat.add_mul_mod_self_left]

/-- A difference that can be added back is one of whole numbers of either sign. -/
theorem sub_eq_emod (width : difference.length = length)
    (congruent : value difference + m ≡ n [MOD 256 ^ length]) :
    (value difference : Int) = (n - m) % (256 ^ length : Nat) := by
  subst width
  have whole : (value difference : Int) + m ≡ n [ZMOD (256 ^ difference.length : Nat)] := by
    exact_mod_cast Int.natCast_modEq_iff.mpr congruent
  have moved := whole.sub_right m
  rw [add_sub_cancel_right, Int.ModEq] at moved
  rw [← moved, Int.emod_eq_of_lt (Int.natCast_nonneg _) (Int.ofNat_lt.mpr (value_lt difference))]

/-- What is added is taken away again. -/
theorem sub_add (same : a.length = b.length) (added : Bytes.add a b = .ok sum) :
    Bytes.sub sum b = .ok a := by
  obtain ⟨_, answer, length, total⟩ := add_modEq same
  cases added.symm.trans answer
  obtain ⟨back, taken, width, difference⟩ := sub_modEq (length.trans same)
  rw [length] at width difference
  have restored : back = a := by
    refine eq_of_modEq width ?_
    rw [width]
    exact Nat.ModEq.add_right_cancel' (value b) (difference.trans total)
  rw [taken, restored]

/-- What is taken away is added again. -/
theorem add_sub (same : a.length = b.length) (taken : Bytes.sub a b = .ok difference) :
    Bytes.add difference b = .ok a := by
  obtain ⟨_, answer, length, total⟩ := sub_modEq same
  cases taken.symm.trans answer
  obtain ⟨back, added, width, sum⟩ := add_modEq (length.trans same)
  rw [length] at width sum
  have restored : back = a := by
    refine eq_of_modEq width ?_
    rw [width]
    exact sum.trans total
  rw [added, restored]

/-- Two advances are one by both amounts together, where these can be written. -/
theorem addCounter_addCounter (counter : Bytes) (fits : i.toNat + j.toNat < 2 ^ 64) :
    addCounter (addCounter counter i) j = addCounter counter (i + j) := by
  obtain ⟨length, first⟩ := addCounter_modEq counter i
  obtain ⟨width, second⟩ := addCounter_modEq (addCounter counter i) j
  obtain ⟨once, both⟩ := addCounter_modEq counter (i + j)
  rw [length] at width second
  rw [UInt64.toNat_add, Nat.mod_eq_of_lt fits, ← Nat.add_assoc] at both
  refine eq_of_modEq (width.trans once.symm) ?_
  rw [width]
  exact second.trans ((first.add_right j.toNat).trans both.symm)

/-- Counters come round with their range. -/
theorem addCounter_eq_iff (counter : Bytes) (i j : UInt64) :
    addCounter counter i = addCounter counter j ↔
      i.toNat ≡ j.toNat [MOD 256 ^ counter.length] := by
  obtain ⟨width, first⟩ := addCounter_modEq counter i
  obtain ⟨length, second⟩ := addCounter_modEq counter j
  constructor
  · intro same
    rw [same] at first
    exact Nat.ModEq.add_left_cancel' (value counter) (first.symm.trans second)
  · intro congruent
    refine eq_of_modEq (width.trans length.symm) ?_
    rw [width]
    exact first.trans ((congruent.add_left (value counter)).trans second.symm)

/-- Sums and differences of byte strings of one length and the places of a counter are those of
their numbers modulo the range: sums and differences undo each other, two advances of a counter are
one, and two indices lead to one place if they are congruent. -/
theorem big_endian_modular :
    (∀ a b : Bytes, a.length = b.length →
      ∃ sum difference, Bytes.add a b = .ok sum ∧ Bytes.sub a b = .ok difference ∧
        sum.length = a.length ∧ value sum = (value a + value b) % 256 ^ a.length ∧
        difference.length = a.length ∧
        (value difference : Int) = (value a - value b) % (256 ^ a.length : Nat) ∧
        Bytes.sub sum b = .ok a ∧ Bytes.add difference b = .ok a) ∧
    ∀ (counter : Bytes) (i j : UInt64),
      (addCounter counter i).length = counter.length ∧
      value (addCounter counter i) = (value counter + i.toNat) % 256 ^ counter.length ∧
      (i.toNat + j.toNat < 2 ^ 64 →
        addCounter (addCounter counter i) j = addCounter counter (i + j)) ∧
      (addCounter counter i = addCounter counter j ↔
        i.toNat ≡ j.toNat [MOD 256 ^ counter.length]) := by
  constructor
  · intro a b same
    obtain ⟨sum, added, length, total⟩ := add_modEq same
    obtain ⟨difference, taken, width, rest⟩ := sub_modEq same
    exact ⟨sum, difference, added, taken, length, value_eq_mod length total, width,
      sub_eq_emod width rest, sub_add same added, add_sub same taken⟩
  · intro counter i j
    obtain ⟨length, place⟩ := addCounter_modEq counter i
    exact ⟨length, value_eq_mod length place, addCounter_addCounter counter,
      addCounter_eq_iff counter i j⟩

/-- Three minus five over two bytes is two below the range, and a counter of two bytes has come
round after 65536 steps. -/
theorem big_endian_modular_narrow :
    ([0, 3] : Bytes).length = ([0, 5] : Bytes).length ∧
    Bytes.sub [0, 3] [0, 5] = .ok [0xFF, 0xFE] ∧ Bytes.add [0xFF, 0xFE] [0, 5] = .ok [0, 3] ∧
    (1 : UInt64).toNat + (65536 : UInt64).toNat < 2 ^ 64 ∧
    addCounter (addCounter [0xFF, 0xFF] 1) 65536 = addCounter [0xFF, 0xFF] 65537 ∧
    addCounter [0xFF, 0xFF] 65537 = addCounter [0xFF, 0xFF] 1 := by
  obtain ⟨strings, counters⟩ := big_endian_modular
  have same : ([0, 3] : Bytes).length = ([0, 5] : Bytes).length := rfl
  obtain ⟨sum, difference, _, taken, _, _, _, _, _, added⟩ := strings [0, 3] [0, 5] same
  have answer : Bytes.sub [0, 3] [0, 5] = .ok [0xFF, 0xFE] := rfl
  cases taken.symm.trans answer
  have fits : (1 : UInt64).toNat + (65536 : UInt64).toNat < 2 ^ 64 := by decide
  obtain ⟨_, _, twice, _⟩ := counters [0xFF, 0xFF] 1 65536
  obtain ⟨_, _, _, round⟩ := counters [0xFF, 0xFF] 65537 1
  exact ⟨same, answer, added, fits, twice fits, round.mpr (by decide)⟩

end RoomCipher.BigEndianSums
