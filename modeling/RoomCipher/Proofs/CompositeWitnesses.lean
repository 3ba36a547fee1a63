import Mathlib.Combinatorics.Enumerative.DoubleCounting
import Mathlib.Tactic.NormNum.Prime
import RoomCipher.Proofs.PrimalityTest
import RoomCipher.Proofs.UniformDraws

/-! How likely the primality test is to be deceived. Witnesses that have nothing to say against a
composite number are units, and there is one exponent that takes all of them to one or minus one.
The units with that property are a group, and modulo a composite it is not the group of all units:
a square in the number leaves room for a unit whose power is neither, and so do two coprime factors,
modulo which a unit can be put together from parts that go different ways. So at least half of the
witnesses find a composite out, and each round halves what is left. -/
namespace RoomCipher.CompositeWitnesses
open Exchange PrimalityTest UniformDraws

/-! ### Halving -/

theorem oddPart_odd (positive : 0 < m) : Odd (oddPart m) := by
  induction m using twos.induct with
  | case1 => exact absurd positive (Nat.lt_irrefl 0)
  | case2 m even ih =>
    have same : oddPart (m + 1) = oddPart ((m + 1) / 2) := by
      rw [oddPart, oddPart, twos, if_pos even, Nat.shiftRight_succ_inside]
    rw [same]
    exact ih (by omega)
  | case3 m odd =>
    rw [oddPart, twos, if_neg odd, Nat.shiftRight_zero]
    exact Nat.odd_iff.mpr (by omega)

theorem odd_divisor (odd : n % 2 = 1) (divides : d ∣ n) : d % 2 = 1 :=
  Nat.odd_iff.mp ((Nat.odd_iff.mpr odd).of_dvd_nat divides)

/-! ### Units whose power is one or minus one -/

/-- A residue of which a power is a unit is one itself. -/
theorem exists_unit {a : ZMod n} {u : (ZMod n)ˣ} (positive : exponent ≠ 0)
    (power : a ^ exponent = u) : ∃ x : (ZMod n)ˣ, (x : ZMod n) = a ∧ x ^ exponent = u := by
  obtain ⟨x, same⟩ := (isUnit_pow_iff positive).mp ⟨u, power.symm⟩
  refine ⟨x, same, Units.ext ?_⟩
  rw [Units.val_pow_eq_pow_val, same, power]

/-- The units that an exponent takes to one or minus one. -/
def signed (n exponent : Nat) : Subgroup (ZMod n)ˣ where
  carrier := {x | x ^ exponent = 1 ∨ x ^ exponent = -1}
  one_mem' := .inl (one_pow exponent)
  mul_mem' := by
    intro x y left right
    change (x * y) ^ exponent = 1 ∨ (x * y) ^ exponent = -1
    rw [mul_pow]
    rcases left with left | left <;> rcases right with right | right <;> simp [left, right]
  inv_mem' := by
    intro x side
    change x⁻¹ ^ exponent = 1 ∨ x⁻¹ ^ exponent = -1
    rw [inv_pow]
    rcases side with side | side <;> simp [side]

theorem mem_signed {x : (ZMod n)ˣ} :
    x ∈ signed n exponent ↔ x ^ exponent = 1 ∨ x ^ exponent = -1 := Iff.rfl

theorem pow_double_of_signed {x : (ZMod n)ˣ} (side : x ∈ signed n exponent) :
    x ^ (2 * exponent) = 1 := by
  rw [mul_comm, pow_mul]
  rcases side with one | minus
  · rw [one, one_pow]
  · rw [minus, neg_one_sq]

/-- The exponents that the squarings of a round come past. -/
def exponentAfter (n squarings : Nat) : Nat :=
  2 ^ squarings * oddPart (n - 1)

theorem exponentAfter_ne_zero (large : 2 < n) (squarings : Nat) :
    exponentAfter n squarings ≠ 0 := by
  have odd := (oddPart_odd (m := n - 1) (by omega)).pos
  exact Nat.mul_ne_zero (Nat.two_pow_pos squarings).ne' odd.ne'

theorem exponentAfter_dvd (before : squarings < twos (n - 1)) :
    2 * exponentAfter n squarings ∣ n - 1 := by
  rw [exponentAfter, ← Nat.mul_assoc, ← Nat.pow_succ']
  exact (Nat.mul_dvd_mul_right (pow_dvd_pow 2 before) _).trans (dvd_of_eq (twos_mul_oddPart (n - 1)))

/-- Minus one is the power of some unit after so many squarings. -/
def ReachesMinusOne (n squarings : Nat) : Prop :=
  ∃ x : (ZMod n)ˣ, x ^ exponentAfter n squarings = -1

/-- Minus one is its own odd power, so there is a largest number of squarings that can lead to it. -/
theorem exists_latest (large : 2 < n) (odd : n % 2 = 1) :
    ∃ latest < twos (n - 1), ReachesMinusOne n latest ∧
      ∀ i < twos (n - 1), ReachesMinusOne n i → i ≤ latest := by
  classical
  have halved : 0 < twos (n - 1) := twos_pos (by omega) (by omega)
  have first : ReachesMinusOne n 0 := by
    refine ⟨-1, ?_⟩
    rw [exponentAfter, pow_zero, Nat.one_mul]
    exact (oddPart_odd (by omega)).neg_one_pow
  refine ⟨Nat.findGreatest (ReachesMinusOne n) (twos (n - 1) - 1), ?_,
    Nat.findGreatest_spec (Nat.zero_le _) first, ?_⟩
  · have bound := Nat.findGreatest_le (P := ReachesMinusOne n) (twos (n - 1) - 1)
    omega
  · intro i before reaches
    exact Nat.le_findGreatest (by omega) reaches

/-- A witness that has nothing to say against the number is a unit, and the largest number of
squarings takes it to one or minus one. -/
theorem strongProbable_signed (large : 2 < n)
    (last : ∀ i < twos (n - 1), ReachesMinusOne n i → i ≤ latest)
    (silent : StrongProbable n witness) :
    ∃ x ∈ signed n (exponentAfter n latest), (x : ZMod n) = witness := by
  rcases silent with one | ⟨i, before, minus⟩
  · have positive : oddPart (n - 1) ≠ 0 := (oddPart_odd (by omega)).pos.ne'
    obtain ⟨x, same, unit_one⟩ := exists_unit positive (one.trans Units.val_one.symm)
    refine ⟨x, .inl ?_, same⟩
    rw [exponentAfter, Nat.mul_comm, pow_mul, unit_one, one_pow]
  · have value : (witness : ZMod n) ^ exponentAfter n i = (-1 : (ZMod n)ˣ) := by
      rw [exponentAfter, minus, Units.val_neg, Units.val_one]
    obtain ⟨x, same, unit_minus⟩ := exists_unit (exponentAfter_ne_zero large i) value
    have within := last i before ⟨x, unit_minus⟩
    have further : exponentAfter n latest = exponentAfter n i * 2 ^ (latest - i) := by
      rw [exponentAfter, exponentAfter, Nat.mul_right_comm, ← Nat.pow_add,
        Nat.add_sub_cancel' within]
    refine ⟨x, ?_, same⟩
    rw [mem_signed, further, pow_mul, unit_minus]
    exact neg_one_pow_eq_or _ _

/-! ### Units that go astray -/

/-- Where a number squares to zero, the powers of one plus the number are linear in the exponent. -/
theorem one_add_pow {R : Type} [CommRing R] {m : R} (null : m * m = 0) (count : Nat) :
    (1 + m) ^ count = 1 + count * m := by
  induction count with
  | zero => simp
  | succ count ih =>
    calc (1 + m) ^ (count + 1) = 1 + ((count + 1 : Nat) : R) * m + count * (m * m) := by
          rw [pow_succ, ih]
          push_cast
          ring
      _ = 1 + ((count + 1 : Nat) : R) * m := by rw [null, mul_zero, add_zero]

/-- If a divisor occurs in the number once more, one and the other factor add up to a unit whose
order divides the number, and so has nothing to do with the number before. -/
theorem exists_astray_square (proper : 1 < a) (positive : 0 < b) (again : a ∣ b)
    (divides : 2 * exponent ∣ a * b - 1) : ∃ x, x ∉ signed (a * b) exponent := by
  have whole : ((a * b : Nat) : ZMod (a * b)) = 0 := ZMod.natCast_self _
  have null : (b : ZMod (a * b)) * b = 0 := by
    rw [← Nat.cast_mul, ZMod.natCast_eq_zero_iff]
    exact Nat.mul_dvd_mul_right again b
  have round_trip : (1 + (b : ZMod (a * b))) ^ (a * b) = 1 := by
    rw [one_add_pow null, whole, zero_mul, add_zero]
  have nonzero : a * b ≠ 0 := Nat.mul_ne_zero (Nat.ne_of_gt (Nat.zero_lt_of_lt proper))
    (Nat.ne_of_gt positive)
  obtain ⟨x, same, _⟩ := exists_unit nonzero (round_trip.trans Units.val_one.symm)
  refine ⟨x, ?_⟩
  intro side
  obtain ⟨quotient, multiple⟩ := divides
  have short : (1 + (b : ZMod (a * b))) ^ (a * b - 1) = 1 := by
    rw [← same, ← Units.val_pow_eq_pow_val, multiple, pow_mul, pow_double_of_signed side, one_pow,
      Units.val_one]
  have lost : (1 + (b : ZMod (a * b))) = 1 := by
    rw [← pow_sub_one_mul nonzero, short, one_mul] at round_trip
    exact round_trip
  rw [add_eq_left, ZMod.natCast_eq_zero_iff] at lost
  have smaller : b < a * b := lt_mul_of_one_lt_left positive proper
  exact absurd (Nat.le_of_dvd positive lost) (Nat.not_le.mpr smaller)

/-- Modulo two coprime factors, a unit can be minus one after the squarings modulo the one and one
modulo the other. -/
theorem exists_astray_coprime (left : 2 < a) (right : 2 < b) (coprime : a.Coprime b)
    (positive : exponent ≠ 0) (reached : ∃ x : (ZMod (a * b))ˣ, x ^ exponent = -1) :
    ∃ x, x ∉ signed (a * b) exponent := by
  obtain ⟨x, minus⟩ := reached
  let split := ZMod.chineseRemainder coprime
  let mixed : ZMod (a * b) := split.symm ((split x).1, 1)
  have parts : split mixed ^ exponent = (-1, 1) := by
    have whole : split x ^ exponent = -1 := by
      rw [← map_pow, ← Units.val_pow_eq_pow_val, minus, Units.val_neg, Units.val_one, map_neg,
        map_one]
    rw [RingEquiv.apply_symm_apply, Prod.pow_mk, one_pow, ← Prod.pow_fst, whole, Prod.fst_neg,
      Prod.fst_one]
  have back : mixed ^ (exponent * 2) = (1 : (ZMod (a * b))ˣ) := by
    apply split.injective
    rw [map_pow, pow_mul, parts, Units.val_one, map_one]
    exact Prod.ext neg_one_sq (one_pow 2)
  obtain ⟨y, same, _⟩ := exists_unit (Nat.mul_ne_zero positive two_ne_zero) back
  have both : split ↑(y ^ exponent) = (-1, 1) := by
    rw [Units.val_pow_eq_pow_val, same, map_pow, parts]
  refine ⟨y, ?_⟩
  rintro (one | minus)
  · rw [one, Units.val_one, map_one] at both
    exact one_ne_neg_one left (congrArg Prod.fst both)
  · rw [minus, Units.val_neg, Units.val_one, map_neg, map_one] at both
    exact one_ne_neg_one right (congrArg Prod.snd both).symm

/-- Modulo an odd composite not all units end up at one or minus one. -/
theorem exists_astray (composite : 1 < n ∧ ¬ n.Prime) (odd : n % 2 = 1)
    (before : squarings < twos (n - 1)) (reached : ReachesMinusOne n squarings) :
    ∃ x, x ∉ signed n (exponentAfter n squarings) := by
  have prime := Nat.minFac_prime (Nat.ne_of_gt composite.1)
  obtain ⟨b, product⟩ := n.minFac_dvd
  have proper : n.minFac ≠ n := by
    intro same
    exact composite.2 (same ▸ prime)
  have left_odd := odd_divisor odd n.minFac_dvd
  have right_odd := odd_divisor odd (Dvd.intro_left n.minFac product.symm)
  have right_proper : b ≠ 1 := by
    rintro rfl
    exact proper (product.trans (Nat.mul_one _)).symm
  have left_large : 2 < n.minFac := by
    have := prime.two_le
    omega
  have divides := exponentAfter_dvd before
  have positive := exponentAfter_ne_zero (n := n) (by omega) squarings
  unfold ReachesMinusOne at reached
  generalize exponentAfter n squarings = exponent at *
  generalize n.minFac = a at *
  subst product
  by_cases again : a ∣ b
  · exact exists_astray_square prime.one_lt (by omega) again divides
  · exact exists_astray_coprime left_large (by omega) (prime.coprime_iff_not_dvd.mpr again) positive
      reached

/-! ### Counting witnesses -/

/-- The draws for a round of which the witness, two more, has nothing to say against the number. -/
def silentDraws (n : Nat) : Finset (Fin (n - 3)) :=
  {r | passesRound n (r + 2) = true}

/-- The draws for all rounds, one for each, that a number passes with. -/
def passing (n rounds : Nat) : Finset (Fin rounds → Fin (n - 3)) :=
  Fintype.piFinset fun _ => silentDraws n

theorem mem_passing {draws : Fin rounds → Fin (n - 3)} :
    draws ∈ passing n rounds ↔ ∀ round, passesRound n (draws round + 2) = true := by
  simp [passing, silentDraws]

/-- Not all units end up at one or minus one, so at most half of them do. -/
theorem card_signed_le (composite : 1 < n ∧ ¬ n.Prime) (odd : n % 2 = 1)
    (before : squarings < twos (n - 1)) (reached : ReachesMinusOne n squarings) :
    2 * Nat.card (signed n (exponentAfter n squarings)) ≤ n - 1 := by
  have nonzero : NeZero n := ⟨by omega⟩
  obtain ⟨astray, outside⟩ := exists_astray composite odd before reached
  generalize signed n (exponentAfter n squarings) = side at *
  have proper : side ≠ ⊤ := by
    rintro rfl
    exact outside (Subgroup.mem_top astray)
  calc 2 * Nat.card side ≤ side.index * Nat.card side :=
        Nat.mul_le_mul_right _ (Subgroup.one_lt_index_of_ne_top proper)
    _ = Nat.card (ZMod n)ˣ := by rw [Nat.mul_comm, Subgroup.card_mul_index]
    _ = n.totient := by rw [Nat.card_eq_fintype_card, ZMod.card_units_eq_totient]
    _ ≤ n - 1 := Nat.le_sub_one_of_lt (Nat.totient_lt n composite.1)

/-- A silent witness has a place among the units that end up at one or minus one, but not the place
of one, which is no witness. -/
theorem exists_place (large : 2 < n) (odd : n % 2 = 1)
    (last : ∀ i < twos (n - 1), ReachesMinusOne n i → i ≤ latest) (silent : r ∈ silentDraws n) :
    ∃ x : signed n (exponentAfter n latest), x ≠ 1 ∧
      ((x : (ZMod n)ˣ) : ZMod n) = ((r + 2 : Nat) : ZMod n) := by
  have passed : passesRound n (r + 2) = true := (Finset.mem_filter.mp silent).2
  obtain ⟨x, side, same⟩ :=
    strongProbable_signed large last ((passesRound_iff large odd _).mp passed)
  refine ⟨⟨x, side⟩, ?_, same⟩
  intro one
  have unit_one : x = 1 := congrArg Subtype.val one
  have trivial_witness : ((r + 2 : Nat) : ZMod n) = 1 := by
    rw [← same, unit_one, Units.val_one]
  have small := (eq_one_iff large (by omega)).mpr trivial_witness
  omega

/-- Witnesses are told apart modulo the number. -/
theorem draw_of_residue {r r' : Fin (n - 3)}
    (same : ((r + 2 : Nat) : ZMod n) = ((r' + 2 : Nat) : ZMod n)) : r = r' := by
  rw [ZMod.natCast_eq_natCast_iff', Nat.mod_eq_of_lt (by omega), Nat.mod_eq_of_lt (by omega)]
    at same
  exact Fin.ext (Nat.add_right_cancel same)

/-- At least half of the witnesses are not silent. -/
theorem card_silentDraws_le (composite : 1 < n ∧ ¬ n.Prime) (odd : n % 2 = 1) :
    2 * (silentDraws n).card ≤ n - 3 := by
  classical
  have large : 2 < n := by omega
  have nonzero : NeZero n := ⟨by omega⟩
  obtain ⟨latest, before, reached, last⟩ := exists_latest large odd
  have half := card_signed_le composite odd before reached
  have places : (silentDraws n).card ≤
      ((Finset.univ : Finset (signed n (exponentAfter n latest))).erase 1).card := by
    refine Finset.card_le_card_of_forall_subsingleton
      (fun (r : Fin (n - 3)) (x : signed n (exponentAfter n latest)) =>
        ((x : (ZMod n)ˣ) : ZMod n) = ((r + 2 : Nat) : ZMod n)) ?_ ?_
    · intro r silent
      obtain ⟨x, other, same⟩ := exists_place large odd last silent
      exact ⟨x, Finset.mem_erase.mpr ⟨other, Finset.mem_univ _⟩, same⟩
    · rintro x _ r ⟨_, same⟩ r' ⟨_, same'⟩
      exact draw_of_residue (same.symm.trans same')
  rw [Finset.card_erase_of_mem (Finset.mem_univ _), Finset.card_univ, ← Nat.card_eq_fintype_card]
    at places
  omega

/-- Each round leaves half of the sequences of draws at most. -/
theorem card_passing_le (composite : 1 < n ∧ ¬ n.Prime) (odd : n % 2 = 1) (rounds : Nat) :
    (passing n rounds).card * 2 ^ rounds ≤ (n - 3) ^ rounds := by
  rw [passing, Fintype.card_piFinset_const, ← Nat.mul_pow, Nat.mul_comm]
  exact Nat.pow_le_pow_left (card_silentDraws_le composite odd) rounds

/-! ### The draws of a test -/

/-- Draws for all rounds, in the order of the rounds. -/
def inOrder (draws : Fin rounds → Fin bound) : List Nat :=
  List.ofFn fun round => (draws round).val

@[simp] theorem length_inOrder (draws : Fin rounds → Fin bound) :
    (inOrder draws).length = rounds :=
  List.length_ofFn

theorem lt_of_mem_inOrder {draws : Fin rounds → Fin bound} (member : r ∈ inOrder draws) :
    r < bound := by
  rw [inOrder, List.mem_ofFn] at member
  obtain ⟨round, rfl⟩ := member
  exact (draws round).isLt

theorem all_inOrder (draws : Fin rounds → Fin (n - 3)) :
    ((inOrder draws).all fun r => passesRound n (r + 2)) = decide (draws ∈ passing n rounds) := by
  rw [Bool.eq_iff_iff, List.all_eq_true, inOrder, List.forall_mem_ofFn_iff, decide_eq_true_iff,
    mem_passing]

/-- The rounds give the answer that their witnesses give, whether all of them are asked or not. -/
theorem passesRounds_drawn (drawn : Drawn (n - 3) draws source rest) :
    ∃ later, passesRounds n draws.length source =
      .ok (draws.all fun r => passesRound n (r + 2), later) := by
  induction draws generalizing source with
  | nil => exact ⟨source, rfl⟩
  | cons r draws ih =>
    obtain ⟨next, first, drawn⟩ := drawn
    rw [List.length_cons, passesRounds, first, List.all_cons]
    cases passed : passesRound n (r + 2) with
    | false => exact ⟨next, by simp [passed, bind, Except.bind, pure, Except.pure]⟩
    | true =>
      obtain ⟨later, answered⟩ := ih drawn
      exact ⟨later, by simp [passed, answered, bind, Except.bind]⟩

/-- Rounds are passed with draws only all of which are silent. -/
theorem passesRounds_true (passed : passesRounds n rounds source = .ok (true, rest)) :
    ∃ draws, draws.length = rounds ∧ Drawn (n - 3) draws source rest ∧
      ∀ r ∈ draws, r < n - 3 ∧ passesRound n (r + 2) = true := by
  induction rounds generalizing source with
  | zero =>
    cases passed
    exact ⟨[], rfl, rfl, nofun⟩
  | succ rounds ih =>
    rw [passesRounds] at passed
    obtain ⟨⟨r, next⟩, first, passed⟩ := Outcomes.bind_eq_ok.mp passed
    simp only at passed
    split at passed
    next silent =>
      obtain ⟨draws, length, drawn, all⟩ := ih passed
      refine ⟨r :: draws, congrArg Nat.succ length, ⟨next, first, drawn⟩, ?_⟩
      exact List.forall_mem_cons.mpr ⟨⟨randomBelow_lt first, silent⟩, all⟩
    next => cases passed

theorem trialDivision_undivided (undivided : ∀ p ∈ ps, ¬ p ∣ n) : trialDivision n ps = none := by
  induction ps with
  | nil => rfl
  | cons p ps ih =>
    obtain ⟨first, later⟩ := List.forall_mem_cons.mp undivided
    have other : n ≠ p := by
      rintro rfl
      exact first dvd_rfl
    have leaves : n % p ≠ 0 := fun divides => first (Nat.dvd_of_mod_eq_zero divides)
    rw [trialDivision, if_neg other, if_neg leaves, ih later]

theorem smallPrimes_le : ∀ p ∈ smallPrimes, p ≤ 251 := by decide

/-- Of every composite that trial division leaves open, Carmichael numbers and powers of primes
among them, at least half of the witnesses that can be drawn find it out in one round. So of the
sequences of draws for so many rounds, each round leaves at most half; every sequence can be drawn,
the draws of a test decide its answer, and it is passed with the draws alone that are left. -/
theorem composites_found_out (composite : 1 < n ∧ ¬ n.Prime)
    (undivided : ∀ p, p.Prime → p ∣ n → 251 < p) :
    n - 3 ≤ 2 * (Finset.univ.filter fun r : Fin (n - 3) => passesRound n (r + 2) = false).card ∧
    ∀ rounds, (passing n rounds).card * 2 ^ rounds ≤ (n - 3) ^ rounds ∧
      (∀ draws : Fin rounds → Fin (n - 3), ∃ source rest,
        Drawn (n - 3) (inOrder draws) source rest) ∧
      (∀ (draws : Fin rounds → Fin (n - 3)) source rest,
        Drawn (n - 3) (inOrder draws) source rest →
          ∃ later, isProbablePrime n rounds source =
            .ok (decide (draws ∈ passing n rounds), later)) ∧
      ∀ source rest, isProbablePrime n rounds source = .ok (true, rest) →
        ∃ draws ∈ passing n rounds, Drawn (n - 3) (inOrder draws) source rest := by
  have open_end : trialDivision n smallPrimes = none := by
    refine trialDivision_undivided fun p member divides => ?_
    have large := undivided p (prime_of_mem_smallPrimes p member) divides
    exact absurd large (Nat.not_lt.mpr (smallPrimes_le p member))
  have odd := odd_of_undivided open_end
  have tested (rounds : Nat) (source : Entropy) :
      isProbablePrime n rounds source = passesRounds n rounds source := by
    rw [isProbablePrime, if_neg (by omega), open_end]
  refine ⟨?_, fun rounds => ⟨card_passing_le composite odd rounds, ?_, ?_, ?_⟩⟩
  · have silent := card_silentDraws_le composite odd
    have both := Finset.card_filter_add_card_filter_not (s := Finset.univ)
      fun r : Fin (n - 3) => passesRound n (r + 2) = true
    simp only [Bool.not_eq_true, Finset.card_univ, Fintype.card_fin] at both
    rw [silentDraws] at silent
    omega
  · intro draws
    exact ⟨_, drawn_scripted (inOrder draws) fun _ => lt_of_mem_inOrder⟩
  · intro draws source rest drawn
    obtain ⟨later, answered⟩ := passesRounds_drawn drawn
    rw [length_inOrder, all_inOrder] at answered
    exact ⟨later, (tested _ _).trans answered⟩
  · intro source rest passed
    obtain ⟨draws, rfl, drawn, all⟩ := passesRounds_true ((tested _ _).symm.trans passed)
    refine ⟨fun round => ⟨draws[round], (all _ (List.getElem_mem _)).1⟩, ?_, ?_⟩
    · exact mem_passing.mpr fun round => (all _ (List.getElem_mem _)).2
    · have listed : (List.ofFn fun round : Fin draws.length => draws[round.val]) = draws :=
        List.ofFn_getElem
      rw [← listed] at drawn
      exact drawn

/-- A Carmichael number without small factors: no unit speaks against it but for what its squarings
come past. -/
def carmichael : Nat := 271 * 541 * 811

theorem carmichael_undivided (p : Nat) (prime : p.Prime) (divides : p ∣ carmichael) : 251 < p := by
  rw [carmichael] at divides
  rcases prime.dvd_mul.mp divides with divides | divides
  · rcases prime.dvd_mul.mp divides with divides | divides
    · rw [(Nat.prime_dvd_prime_iff_eq prime (by norm_num)).mp divides]
      norm_num
    · rw [(Nat.prime_dvd_prime_iff_eq prime (by norm_num)).mp divides]
      norm_num
  · rw [(Nat.prime_dvd_prime_iff_eq prime (by norm_num)).mp divides]
    norm_num

/-- One of its witnesses, and so a test of one round in which it is drawn, finds it out. -/
theorem composites_found_out_carmichael :
    (1 < carmichael ∧ ¬ carmichael.Prime) ∧ (∀ p, p.Prime → p ∣ carmichael → 251 < p) ∧
    carmichael - 3 ≤ 2 * (Finset.univ.filter fun r : Fin (carmichael - 3) =>
      passesRound carmichael (r + 2) = false).card ∧
    (passing carmichael 20).card * 2 ^ 20 ≤ (carmichael - 3) ^ 20 ∧
    ∃ source rest, Drawn (carmichael - 3) [66051] source rest ∧
      ∃ later, isProbablePrime carmichael 1 source = .ok (false, later) := by
  have composite : 1 < carmichael ∧ ¬ carmichael.Prime := by
    rw [carmichael]
    norm_num
  obtain ⟨half, rounds⟩ := composites_found_out composite carmichael_undivided
  obtain ⟨draws, listed⟩ : ∃ draws : Fin 1 → Fin (carmichael - 3), inOrder draws = [66051] :=
    ⟨fun _ => ⟨66051, by decide⟩, rfl⟩
  have found_out : ([66051].all fun r => passesRound carmichael (r + 2)) = false := by
    decide +kernel
  obtain ⟨_, reaches, decides, _⟩ := rounds 1
  obtain ⟨source, rest, drawn⟩ := reaches draws
  obtain ⟨later, answered⟩ := decides draws source rest drawn
  rw [← all_inOrder, listed, found_out] at answered
  rw [listed] at drawn
  exact ⟨composite, carmichael_undivided, half, (rounds 20).1, source, rest, drawn, later, answered⟩

end RoomCipher.CompositeWitnesses
