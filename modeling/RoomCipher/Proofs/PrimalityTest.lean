import Mathlib.FieldTheory.Finite.Basic
import RoomCipher.Proofs.ModularPowers
import RoomCipher.Proofs.Outcomes

/-! What the primality test can be trusted with. Trial division is exact about numbers that have a
small prime in them, and that includes all composites up to the square of the first prime that is
not tried. What it leaves open is put to witnesses: modulo a prime, one has no square roots but one
and minus one, so the squarings that lead a witness to one come past minus one or begin with one. -/
namespace RoomCipher.PrimalityTest
open Exchange ModularPowers

/-! ### Searches and random numbers -/

/-- So many trials, one after another, lead from one source to the other and yield nothing. -/
inductive Fruitless {α : Type} (trial : Entropy → Except Error (Option α × Entropy)) :
    (count : Nat) → (source before : Entropy) → Prop
  | none (source : Entropy) : Fruitless trial 0 source source
  | another (tried : trial source = .ok (.none, next)) (later : Fruitless trial count next before) :
      Fruitless trial (count + 1) source before

/-- A search ends with the first trial that yields something, if it gets there. -/
theorem searchWithin_iff {α : Type} {value : α}
    {trial : Entropy → Except Error (Option α × Entropy)} :
    Entropy.searchWithin trial attempts source = .ok (value, rest) ↔
    ∃ count < attempts, ∃ before, Fruitless trial count source before ∧
      trial before = .ok (some value, rest) := by
  induction attempts generalizing source with
  | zero =>
    constructor
    · intro found
      cases found
    · rintro ⟨count, within, _⟩
      exact absurd within (Nat.not_lt_zero count)
  | succ attempts ih =>
    rw [Entropy.searchWithin, Outcomes.bind_eq_ok]
    constructor
    · rintro ⟨⟨outcome, next⟩, tried, found⟩
      cases outcome with
      | some first =>
        cases found
        exact ⟨0, Nat.succ_pos attempts, source, .none source, tried⟩
      | none =>
        obtain ⟨count, within, before, fruitless, yields⟩ := ih.mp found
        exact ⟨count + 1, Nat.succ_lt_succ within, before, .another tried fruitless, yields⟩
    · rintro ⟨count, within, before, fruitless, yields⟩
      cases fruitless with
      | none => exact ⟨_, yields, rfl⟩
      | another tried later =>
        exact ⟨_, tried, ih.mpr ⟨_, Nat.lt_of_succ_lt_succ within, before, later, yields⟩⟩

/-- What all trials have in common when they yield something, the result of a search has too. -/
theorem searchWithin_found {α : Type} {value : α} {P : α → Prop}
    {trial : Entropy → Except Error (Option α × Entropy)}
    (yields : ∀ source value rest, trial source = .ok (some value, rest) → P value)
    (found : Entropy.searchWithin trial attempts source = .ok (value, rest)) : P value := by
  obtain ⟨_, _, before, _, tried⟩ := searchWithin_iff.mp found
  exact yields before value rest tried

theorem below?_lt (drawn : below? bound raw = some n) : n < bound := by
  rw [below?] at drawn
  split at drawn
  next fits =>
    cases drawn
    exact fits
  next => cases drawn

theorem randomBelow_lt (drawn : randomBelow bound source = .ok (n, rest)) : n < bound := by
  rw [randomBelow] at drawn
  split at drawn
  · cases drawn
  · rw [Entropy.search] at drawn
    refine searchWithin_found (P := (· < bound)) ?_ drawn
    intro source value rest tried
    exact below?_lt (congrArg Prod.fst (Except.ok.inj tried))

/-! ### Trial division -/

theorem prime_of_mem_smallPrimes : ∀ p ∈ smallPrimes, p.Prime := by decide +kernel

/-- No small number is free of all these primes. -/
theorem smallPrimes_complete : ∀ m < 257, 2 ≤ m → ∃ p ∈ smallPrimes, p ∣ m := by decide +kernel

/-- Trial division by primes gives no wrong answer. -/
theorem trialDivision_some (primes : ∀ p ∈ ps, p.Prime)
    (divided : trialDivision n ps = some verdict) : verdict = true ↔ n.Prime := by
  induction ps with
  | nil => cases divided
  | cons p ps ih =>
    have prime := primes p List.mem_cons_self
    rw [trialDivision] at divided
    split at divided
    next same =>
      cases divided
      exact iff_of_true rfl (same ▸ prime)
    next other =>
      split at divided
      next divides =>
        cases divided
        refine iff_of_false Bool.false_ne_true ?_
        intro composite
        have divisor := (Nat.prime_dvd_prime_iff_eq prime composite).mp
          (Nat.dvd_of_mod_eq_zero divides)
        exact other divisor.symm
      next => exact ih (fun q member => primes q (List.mem_cons_of_mem p member)) divided

theorem trialDivision_none (divided : trialDivision n ps = none) : ∀ p ∈ ps, ¬ p ∣ n := by
  induction ps with
  | nil => exact nofun
  | cons p ps ih =>
    rw [trialDivision] at divided
    split at divided
    · cases divided
    · split at divided
      · cases divided
      next leaves =>
        intro q member
        rcases List.mem_cons.mp member with rfl | member
        · intro divides
          exact leaves (Nat.mod_eq_zero_of_dvd divides)
        · exact ih divided q member

/-- Numbers that trial division leaves open have no small divisors. -/
theorem no_small_divisor (divided : trialDivision n smallPrimes = none) (divides : m ∣ n)
    (proper : 2 ≤ m) : 257 ≤ m := by
  by_contra small
  obtain ⟨p, member, factor⟩ := smallPrimes_complete m (Nat.lt_of_not_le small) proper
  exact trialDivision_none divided p member (factor.trans divides)

/-- Among them the first composite is the square of the first prime that was not tried. -/
theorem prime_of_undivided (proper : 2 ≤ n) (divided : trialDivision n smallPrimes = none)
    (small : n < 257 ^ 2) : n.Prime := by
  by_contra composite
  have square := Nat.minFac_sq_le_self (Nat.zero_lt_of_lt proper) composite
  have least := (Nat.minFac_prime (Nat.ne_of_gt proper)).two_le
  have factor := no_small_divisor divided n.minFac_dvd least
  have wide := Nat.pow_le_pow_left factor 2
  omega

theorem odd_of_undivided (divided : trialDivision n smallPrimes = none) : n % 2 = 1 := by
  have odd := trialDivision_none divided 2 List.mem_cons_self
  omega

/-! ### Witnesses -/

/-- What is left of a number that has been halved as often as it can be. -/
def oddPart (m : Nat) : Nat :=
  m >>> twos m

theorem twos_dvd (m : Nat) : 2 ^ twos m ∣ m := by
  induction m using twos.induct with
  | case1 => exact Nat.dvd_zero _
  | case2 m even ih =>
    have halves := Nat.mul_div_cancel' (Nat.dvd_of_mod_eq_zero even)
    rw [twos, if_pos even, Nat.pow_succ']
    exact (Nat.mul_dvd_mul_left 2 ih).trans (dvd_of_eq halves)
  | case3 m odd =>
    rw [twos, if_neg odd]
    exact Nat.one_dvd _

theorem twos_mul_oddPart (m : Nat) : 2 ^ twos m * oddPart m = m := by
  rw [oddPart, Nat.shiftRight_eq_div_pow, Nat.mul_div_cancel' (twos_dvd m)]

theorem twos_pos (positive : 0 < m) (even : m % 2 = 0) : 0 < twos m := by
  obtain ⟨m, rfl⟩ := Nat.exists_eq_add_one.mpr positive
  rw [twos, if_pos even]
  exact Nat.succ_pos _

/-- The witness has nothing to say against the number being prime: raised to the odd part of the
number before, it is one, or some of the squarings that are left lead to minus one. -/
def StrongProbable (n witness : Nat) : Prop :=
  (witness : ZMod n) ^ oddPart (n - 1) = 1 ∨
    ∃ i < twos (n - 1), (witness : ZMod n) ^ (2 ^ i * oddPart (n - 1)) = -1

theorem eq_one_iff (large : 2 < n) (reduced : x < n) : x = 1 ↔ (x : ZMod n) = 1 := by
  rw [← Nat.cast_one (R := ZMod n), ZMod.natCast_eq_natCast_iff', Nat.mod_eq_of_lt reduced,
    Nat.mod_eq_of_lt (Nat.lt_of_succ_lt large)]

theorem eq_pred_iff (large : 2 < n) (reduced : x < n) : x = n - 1 ↔ (x : ZMod n) = -1 := by
  have pred : ((n - 1 : Nat) : ZMod n) = -1 := by
    rw [Nat.cast_sub (by omega), ZMod.natCast_self, Nat.cast_one, zero_sub]
  rw [← pred, ZMod.natCast_eq_natCast_iff', Nat.mod_eq_of_lt reduced, Nat.mod_eq_of_lt (by omega)]

theorem one_ne_neg_one (large : 2 < n) : (1 : ZMod n) ≠ -1 := by
  intro same
  have small := (eq_pred_iff large (Nat.lt_of_succ_lt large)).mpr (Nat.cast_one.trans same)
  omega

/-- The squarings stop at one, but behind it there is nothing to be found. -/
theorem reachesMinusOne_iff (large : 2 < n) (count x : Nat) :
    reachesMinusOne n count x = true ↔ ∃ i < count, (x : ZMod n) ^ 2 ^ (i + 1) = -1 := by
  induction count generalizing x with
  | zero => simp [reachesMinusOne]
  | succ count ih =>
    have reduced : x * x % n < n := Nat.mod_lt _ (Nat.zero_lt_of_lt large)
    have square : ((x * x % n : Nat) : ZMod n) = (x : ZMod n) ^ 2 := by
      rw [ZMod.natCast_mod, Nat.cast_mul, sq]
    have later (i : Nat) : (x : ZMod n) ^ 2 ^ (i + 1) = ((x * x % n : Nat) : ZMod n) ^ 2 ^ i := by
      rw [square, ← pow_mul, ← Nat.pow_succ']
    rw [reachesMinusOne]
    simp only [eq_pred_iff large reduced, eq_one_iff large reduced]
    split
    next hit =>
      refine iff_of_true rfl ⟨0, Nat.succ_pos _, ?_⟩
      rw [later, pow_zero, pow_one, hit]
    next missed =>
      split
      next stuck =>
        refine iff_of_false Bool.false_ne_true ?_
        rintro ⟨i, _, reaches⟩
        rw [later, stuck, one_pow] at reaches
        exact one_ne_neg_one large reaches
      next =>
        rw [ih]
        constructor
        · rintro ⟨i, before, reaches⟩
          exact ⟨i + 1, Nat.succ_lt_succ before, (later _).trans reaches⟩
        · rintro ⟨i, before, reaches⟩
          rw [later] at reaches
          cases i with
          | zero => exact absurd ((pow_one _).symm.trans reaches) missed
          | succ i => exact ⟨i, Nat.lt_of_succ_lt_succ before, reaches⟩

/-- A round is passed exactly if the witness has nothing to say against the number. -/
theorem passesRound_iff (large : 2 < n) (odd : n % 2 = 1) (witness : Nat) :
    passesRound n witness = true ↔ StrongProbable n witness := by
  -- Minus one at once counts as no squaring, which has to be one of those allowed.
  have halved : 0 < twos (n - 1) := twos_pos (by omega) (by omega)
  have reduced : witness ^ oddPart (n - 1) % n < n := Nat.mod_lt _ (Nat.zero_lt_of_lt large)
  have power : ((witness ^ oddPart (n - 1) % n : Nat) : ZMod n) =
      (witness : ZMod n) ^ oddPart (n - 1) := by
    rw [ZMod.natCast_mod, Nat.cast_pow]
  have later (i : Nat) : (witness : ZMod n) ^ (2 ^ i * oddPart (n - 1)) =
      ((witness : ZMod n) ^ oddPart (n - 1)) ^ 2 ^ i := by
    rw [Nat.mul_comm, pow_mul]
  unfold passesRound StrongProbable
  simp only [powMod_eq]
  rw [← oddPart]
  simp only [eq_one_iff large reduced, eq_pred_iff large reduced, power, later]
  split
  next first =>
    refine iff_of_true rfl ?_
    rcases first with one | minus
    · exact .inl one
    · exact .inr ⟨0, halved, by rw [pow_zero, pow_one, minus]⟩
  next neither =>
    rw [not_or] at neither
    rw [reachesMinusOne_iff large, power, or_iff_right neither.1]
    constructor
    · rintro ⟨i, before, reaches⟩
      exact ⟨i + 1, by omega, reaches⟩
    · rintro ⟨i, before, reaches⟩
      cases i with
      | zero => exact absurd ((pow_one _).symm.trans reaches) neither.2
      | succ i => exact ⟨i, by omega, reaches⟩

/-! ### Primes -/

/-- Where one has no square roots but one and minus one, whatever repeated squaring leads to one is
one or comes past minus one. -/
theorem eq_one_or_passes_neg_one {R : Type} [Ring R] [NoZeroDivisors R] {x : R} (count : Nat)
    (one : x ^ 2 ^ count = 1) : x = 1 ∨ ∃ i < count, x ^ 2 ^ i = -1 := by
  induction count with
  | zero => exact .inl ((pow_one x).symm.trans one)
  | succ count ih =>
    rw [Nat.pow_succ, pow_mul, sq_eq_one_iff] at one
    rcases one with one | minus
    · rcases ih one with one | ⟨i, before, minus⟩
      · exact .inl one
      · exact .inr ⟨i, Nat.lt_succ_of_lt before, minus⟩
    · exact .inr ⟨count, Nat.lt_succ_self count, minus⟩

/-- No witness speaks against a prime. -/
theorem strongProbable_of_prime (prime : n.Prime) (coprime : ¬ n ∣ witness) :
    StrongProbable n witness := by
  have field : Fact n.Prime := ⟨prime⟩
  have nonzero : (witness : ZMod n) ≠ 0 := by
    rw [Ne, ZMod.natCast_eq_zero_iff]
    exact coprime
  have fermat := ZMod.pow_card_sub_one_eq_one nonzero
  rw [← twos_mul_oddPart (n - 1), Nat.mul_comm, pow_mul] at fermat
  rcases eq_one_or_passes_neg_one (twos (n - 1)) fermat with one | ⟨i, before, minus⟩
  · exact .inl one
  · refine .inr ⟨i, before, ?_⟩
    rw [Nat.mul_comm, pow_mul, minus]

theorem passesRounds_prime (prime : n.Prime) (odd : n % 2 = 1) (rounds : Nat)
    (returned : passesRounds n rounds source = .ok (verdict, rest)) : verdict = true := by
  induction rounds generalizing source with
  | zero =>
    cases returned
    rfl
  | succ rounds ih =>
    rw [passesRounds] at returned
    obtain ⟨⟨r, later⟩, drawn, returned⟩ := Outcomes.bind_eq_ok.mp returned
    have below := randomBelow_lt drawn
    have coprime : ¬ n ∣ r + 2 := Nat.not_dvd_of_pos_of_lt (Nat.succ_pos _) (by omega)
    have passed : passesRound n (r + 2) = true :=
      (passesRound_iff (by omega) odd (r + 2)).mpr (strongProbable_of_prime prime coprime)
    simp only [passed, ↓reduceIte] at returned
    exact ih returned

/-- Whenever the test returns, whatever was drawn and in however many rounds, it has called no prime
composite, and below the square of the first prime that it does not try it has called no composite
prime either. -/
theorem isProbablePrime_sound (rounds : Nat)
    (returned : isProbablePrime n rounds source = .ok (verdict, rest)) :
    (n.Prime → verdict = true) ∧ (n < 257 ^ 2 → (verdict = true ↔ n.Prime)) := by
  rw [isProbablePrime] at returned
  split at returned
  next tiny =>
    cases returned
    have composite : ¬ n.Prime := fun prime => Nat.not_lt.mpr prime.two_le tiny
    exact ⟨fun prime => absurd prime composite, fun _ => iff_of_false Bool.false_ne_true composite⟩
  next proper =>
    split at returned
    next verdict divided =>
      cases returned
      have exact_verdict := trialDivision_some prime_of_mem_smallPrimes divided
      exact ⟨exact_verdict.mpr, fun _ => exact_verdict⟩
    next divided =>
      have odd := odd_of_undivided divided
      have accepted (prime : n.Prime) := passesRounds_prime prime odd rounds returned
      refine ⟨accepted, fun small => ?_⟩
      have prime := prime_of_undivided (Nat.le_of_not_lt proper) divided small
      exact iff_of_true (accepted prime) prime

/-- Bytes that count up. -/
def counting (position : Nat) : Entropy :=
  ⟨UInt8.ofNat, position, 1⟩

/-- No divisor is tried that 257 has, and two witnesses have nothing to say against it. -/
theorem isProbablePrime_257 :
    isProbablePrime 257 2 (counting 5) = .ok (true, counting 7) ∧ Nat.Prime 257 := by
  have divided : trialDivision 257 smallPrimes = none := rfl
  have first : randomBelow (257 - 3) (counting 5) = .ok (5, counting 6) := rfl
  have second : randomBelow (257 - 3) (counting 6) = .ok (6, counting 7) := rfl
  have passed : passesRound 257 (5 + 2) = true ∧ passesRound 257 (6 + 2) = true := by
    decide +kernel
  have returned : isProbablePrime 257 2 (counting 5) = .ok (true, counting 7) := by
    simp only [isProbablePrime, divided, passesRounds, first, second, passed, bind, Except.bind,
      ↓reduceIte, Nat.reduceLT]
  exact ⟨returned, ((isProbablePrime_sound 2 returned).2 (by norm_num)).mp rfl⟩

end RoomCipher.PrimalityTest
