import RoomCipher.Proofs.CompositeWitnesses

/-! The shape of generated primes. A candidate is read from a random buffer in which its two highest
bits and its last one are set, so it has as many bits as were asked for, is odd, and is otherwise
free. A search returns the first candidate that passes the test. Twice a number of the shape plus one
has one bit more than it, so a look at the length of a safe prime turns none away. -/
namespace RoomCipher.PrimeShapes
open Bytes ByteLaws Exchange Outcomes PrimalityTest UniformDraws CompositeWitnesses

/-! ### Lengths -/

theorem bitLength_eq_succ : bitLength n = length + 1 ↔ 2 ^ length ≤ n ∧ n < 2 ^ (length + 1) := by
  rw [bitLength]
  split
  next zero =>
    subst zero
    refine iff_of_false (Nat.succ_ne_zero length).symm ?_
    rintro ⟨low, _⟩
    exact Nat.not_lt.mpr low (Nat.two_pow_pos length)
  next positive => rw [Nat.add_right_cancel_iff, Nat.log2_eq_iff positive]

/-- A binary digit put behind a number makes it one longer. -/
theorem bitLength_twice_succ (n : Nat) : bitLength (2 * n + 1) = bitLength n + 1 := by
  have above := lt_two_pow_bitLength n
  rw [bitLength_eq_succ, Nat.pow_succ']
  refine ⟨?_, by omega⟩
  rcases Nat.eq_zero_or_pos n with rfl | positive
  · exact Nat.le_refl 1
  · exact (two_pow_bitLength_le positive).trans (Nat.le_succ _)

/-! ### The buffer of a candidate -/

/-- A buffer in which one bit has been set; bits are counted from the end. -/
def withBit (bit : Nat) (raw : Bytes) : Bytes :=
  let place := 8 * raw.length - 1 - bit
  raw.modify (place / 8) (· ||| 0x80 >>> UInt8.ofNat (place % 8))

/-- The buffer that a candidate of so many bits is read from: excess bits are cleared, the two highest
bits are set, and the last one is too. -/
def drafted (bits : Nat) (raw : Bytes) : Bytes :=
  let buffer := withBit (bits - 2) (withBit (bits - 1) (masked bits raw))
  buffer.modify (buffer.length - 1) (· ||| 1)

@[simp] theorem length_withBit (bit : Nat) (raw : Bytes) :
    (withBit bit raw).length = raw.length :=
  List.length_modify ..

@[simp] theorem length_masked (bits : Nat) (raw : Bytes) :
    (masked bits raw).length = raw.length := by
  cases raw <;> rfl

/-- The first byte holds the highest bits. -/
theorem value_cons_or (b : UInt8) (bytes : Bytes) :
    value (b :: bytes) = b.toNat <<< (8 * bytes.length) ||| value bytes := by
  have range : 2 ^ (8 * bytes.length) = 256 ^ bytes.length := Nat.pow_mul 2 8 bytes.length
  have fits : value bytes < 2 ^ (8 * bytes.length) := range ▸ value_lt bytes
  rw [value_cons, ← range, Nat.add_comm, Nat.two_pow_add_eq_or_of_lt fits, Nat.shiftLeft_eq,
    Nat.mul_comm]

theorem toNat_or_mark (b : UInt8) (within : place < 8) :
    (b ||| 0x80 >>> UInt8.ofNat place).toNat = b.toNat ||| 2 ^ (7 - place) := by
  have mark : (0x80 >>> UInt8.ofNat place : UInt8).toNat = 2 ^ (7 - place) := by
    interval_cases place <;> rfl
  rw [UInt8.toNat_or, mark]

/-- Whichever byte a bit falls into, it is the one of that number in the whole. -/
theorem value_withBit (within : bit < 8 * raw.length) :
    value (withBit bit raw) = value raw ||| 2 ^ bit := by
  induction raw with
  | nil => exact absurd within (Nat.not_lt_zero bit)
  | cons b bytes ih =>
    rw [List.length_cons] at within
    by_cases front : 8 * bytes.length ≤ bit
    · have first : (8 * (bytes.length + 1) - 1 - bit) / 8 = 0 := by omega
      have place : 7 - (8 * (bytes.length + 1) - 1 - bit) % 8 = bit - 8 * bytes.length := by omega
      have mark : 2 ^ (bit - 8 * bytes.length) <<< (8 * bytes.length) = 2 ^ bit := by
        rw [Nat.shiftLeft_eq, ← Nat.pow_add, Nat.sub_add_cancel front]
      rw [withBit, List.length_cons, first, List.modify_zero_cons, value_cons_or,
        toNat_or_mark b (Nat.mod_lt _ (by decide)), place, Nat.shiftLeft_or_distrib, mark,
        value_cons_or, Nat.or_assoc, Nat.or_comm (2 ^ bit), ← Nat.or_assoc]
    · have later : (8 * (bytes.length + 1) - 1 - bit) / 8 =
          (8 * bytes.length - 1 - bit) / 8 + 1 := by omega
      have place : (8 * (bytes.length + 1) - 1 - bit) % 8 = (8 * bytes.length - 1 - bit) % 8 := by
        omega
      have rest := ih (Nat.lt_of_not_le front)
      rw [withBit] at rest
      rw [withBit, List.length_cons, later, place, List.modify_succ_cons, value_cons_or, rest,
        List.length_modify, value_cons_or, Nat.or_assoc]

/-- The last bit of the last byte is the last of all. -/
theorem value_withLast (written : 0 < raw.length) :
    value (raw.modify (raw.length - 1) (· ||| 1)) = value raw ||| 1 := by
  have last : (8 * raw.length - 1 - 0) / 8 = raw.length - 1 := by omega
  have place : (8 * raw.length - 1 - 0) % 8 = 7 := by omega
  have set : value (withBit 0 raw) = value raw ||| 2 ^ 0 := value_withBit (by omega)
  rwa [withBit, last, place] at set

theorem candidate_eq (bits : Nat) (raw : Bytes) : candidate bits raw =
    value raw % 2 ^ bits ||| 2 ^ (bits - 1) ||| 2 ^ (bits - 2) ||| 1 := by
  simp only [candidate, Nat.one_shiftLeft]

/-- The number in the buffer is the candidate. -/
theorem value_drafted (wide : 2 ≤ bits) (full : raw.length = byteCount bits) :
    value (drafted bits raw) = candidate bits raw := by
  have covered := bits_le_byteCount bits
  rw [← full] at covered
  rw [drafted, value_withLast (by simp; omega), value_withBit (by simp; omega),
    value_withBit (by simp; omega), value_masked full, candidate_eq]

/-! ### Candidates -/

/-- A number of exactly so many bits, of which the two highest and the last one are set. -/
structure Shaped (bits n : Nat) : Prop where
  length : bitLength n = bits
  highest : n.testBit (bits - 1) = true
  second : n.testBit (bits - 2) = true
  odd : n % 2 = 1

theorem Shaped.lt (shaped : Shaped bits n) : n < 2 ^ bits :=
  shaped.length ▸ lt_two_pow_bitLength n

theorem candidate_shaped (wide : 2 ≤ bits) (raw : Bytes) : Shaped bits (candidate bits raw) := by
  have length : bits = bits - 1 + 1 := by omega
  have highest : (candidate bits raw).testBit (bits - 1) = true := by
    simp [candidate_eq, Nat.testBit_or, Nat.testBit_two_pow]
  have small : candidate bits raw < 2 ^ bits := by
    rw [candidate_eq]
    refine Nat.or_lt_two_pow (Nat.or_lt_two_pow (Nat.or_lt_two_pow ?_ ?_) ?_) ?_
    · exact Nat.mod_lt _ (Nat.two_pow_pos bits)
    · exact Nat.pow_lt_pow_right (by decide) (by omega)
    · exact Nat.pow_lt_pow_right (by decide) (by omega)
    · exact Nat.one_lt_two_pow (by omega)
  constructor
  · rw [length, bitLength_eq_succ, ← length]
    exact ⟨Nat.ge_two_pow_of_testBit highest, small⟩
  · exact highest
  · simp [candidate_eq, Nat.testBit_or, Nat.testBit_two_pow]
  · have last : (candidate bits raw).testBit 0 = true := by
      simp [candidate_eq]
    simpa using last

theorem or_eq_self (set : n.testBit place = true) : n ||| 2 ^ place = n := by
  refine Nat.eq_of_testBit_eq fun other => ?_
  rw [Nat.testBit_or, Nat.testBit_two_pow]
  by_cases same : place = other
  · subst same
    simp [set]
  · simp [same]

theorem Shaped.fits (shaped : Shaped bits n) : n < 256 ^ byteCount bits := by
  have range : 2 ^ (8 * byteCount bits) = 256 ^ byteCount bits := Nat.pow_mul 2 8 (byteCount bits)
  rw [← range]
  exact shaped.lt.trans_le (Nat.pow_le_pow_right two_pos (bits_le_byteCount bits))

/-- Nothing is set in a number of the shape that was not. -/
theorem candidate_ofBigEndian (shaped : Shaped bits n) :
    candidate bits (ofBigEndian (byteCount bits) n) = n := by
  have last : n.testBit 0 = true := by simpa using shaped.odd
  rw [candidate_eq, value_ofBigEndian shaped.fits, Nat.mod_eq_of_lt shaped.lt,
    or_eq_self shaped.highest, or_eq_self shaped.second]
  exact or_eq_self last

/-- The candidates are the numbers of the shape. -/
theorem shaped_iff (wide : 2 ≤ bits) : Shaped bits n ↔
    ∃ raw : Bytes, raw.length = byteCount bits ∧ candidate bits raw = n := by
  constructor
  · intro shaped
    exact ⟨_, length_ofBigEndian _ n, candidate_ofBigEndian shaped⟩
  · rintro ⟨raw, _, rfl⟩
    exact candidate_shaped wide raw

/-! ### Searches -/

/-- One trial for a prime, as a search repeats it. -/
def tryPrime (bits : Nat) (source : Entropy) : Except Error (Option Nat × Entropy) := do
  let (raw, source) := source.draw (byteCount bits)
  let n := candidate bits raw
  let (isPrime, source) ← isProbablePrime n primeRounds source
  return (if isPrime then some n else none, source)

/-- One trial for a safe prime, as a search repeats it. -/
def trySafePrime (bits : Nat) (source : Entropy) : Except Error (Option Nat × Entropy) := do
  let (q, source) ← generatePrime (bits - 1) source
  let p := 2 * q + 1
  if bitLength p = bits then
    let (isPrime, source) ← isProbablePrime p primeRounds source
    return (if isPrime then some p else none, source)
  else return (none, source)

/-- A number that has been tested is yielded if it passed. -/
theorem tested_eq_ok : (do
      let (isPrime, later) ← isProbablePrime n primeRounds source
      return (if isPrime then some n else none, later)) =
        (Except.ok (some p, rest) : Except Error (Option Nat × Entropy)) ↔
    n = p ∧ isProbablePrime p primeRounds source = .ok (true, rest) := by
  rw [bind_eq_ok]
  constructor
  · rintro ⟨⟨verdict, later⟩, tested, yields⟩
    cases verdict <;> cases yields
    exact ⟨rfl, tested⟩
  · rintro ⟨rfl, tested⟩
    exact ⟨_, tested, rfl⟩

/-- A generated prime is the first candidate that passes the test. -/
theorem generatePrime_eq_ok : generatePrime bits source = .ok (p, rest) ↔
    2 ≤ bits ∧ ∃ count < source.patience, ∃ before, Fruitless (tryPrime bits) count source before ∧
      candidate bits (before.draw (byteCount bits)).1 = p ∧
      isProbablePrime p primeRounds (before.draw (byteCount bits)).2 = .ok (true, rest) := by
  by_cases wide : 2 ≤ bits
  · have searched : generatePrime bits source =
        Entropy.searchWithin (tryPrime bits) source.patience source := if_neg (Nat.not_lt.mpr wide)
    rw [searched, searchWithin_iff, and_iff_right wide]
    simp only [tryPrime, tested_eq_ok]
  · have refused : generatePrime bits source = .error (.exchange (.primeSize bits)) :=
      if_pos (Nat.lt_of_not_le wide)
    rw [refused]
    exact iff_of_false nofun (wide ·.1)

theorem generatePrime_shaped (generated : generatePrime bits source = .ok (p, rest)) :
    Shaped bits p := by
  obtain ⟨wide, _, _, before, _, rfl, _⟩ := generatePrime_eq_ok.mp generated
  exact candidate_shaped wide _

/-- The length of a safe prime is the one that was asked for, whatever prime is inside. -/
theorem bitLength_safePrime (wide : 3 ≤ bits)
    (generated : generatePrime (bits - 1) source = .ok (q, rest)) :
    bitLength (2 * q + 1) = bits := by
  rw [bitLength_twice_succ, (generatePrime_shaped generated).length]
  omega

/-- A generated safe prime is the first one that passes the test, among those with a generated prime
inside. -/
theorem generateSafePrime_eq_ok : generateSafePrime bits source = .ok (p, rest) ↔
    3 ≤ bits ∧ ∃ count < source.patience, ∃ before,
      Fruitless (trySafePrime bits) count source before ∧
      ∃ q between, generatePrime (bits - 1) before = .ok (q, between) ∧ 2 * q + 1 = p ∧
        isProbablePrime p primeRounds between = .ok (true, rest) := by
  by_cases wide : 3 ≤ bits
  · have searched : generateSafePrime bits source =
        Entropy.searchWithin (trySafePrime bits) source.patience source :=
      if_neg (Nat.not_lt.mpr wide)
    have yields (before : Entropy) : trySafePrime bits before = .ok (some p, rest) ↔
        ∃ q between, generatePrime (bits - 1) before = .ok (q, between) ∧ 2 * q + 1 = p ∧
          isProbablePrime p primeRounds between = .ok (true, rest) := by
      rw [trySafePrime, bind_eq_ok, Prod.exists]
      refine exists_congr fun q => exists_congr fun between => and_congr_right fun generated => ?_
      simp only [bitLength_safePrime wide generated, ↓reduceIte]
      exact tested_eq_ok
    rw [searched, searchWithin_iff, and_iff_right wide]
    simp only [yields]
  · have refused : generateSafePrime bits source = .error (.exchange (.primeSize bits)) :=
      if_pos (Nat.lt_of_not_le wide)
    rw [refused]
    exact iff_of_false nofun (wide ·.1)

/-! ### Primes that come out -/

/-- A source from which nothing but zeros is left to be drawn. -/
structure Blank (source : Entropy) : Prop where
  patient : 0 < source.patience
  zeros : ∀ place, source.position ≤ place → source.byte place = 0

theorem value_zeros (count : Nat) : value (List.replicate count 0) = 0 := by
  induction count with
  | zero => rfl
  | succ count ih => rw [List.replicate_succ, value_cons, ih, Nat.zero_add]; rfl

theorem Blank.draw (blank : Blank source) (count : Nat) :
    (source.draw count).1 = List.replicate count 0 ∧ Blank (source.draw count).2 := by
  constructor
  · refine List.eq_replicate_iff.mpr ⟨by simp [Entropy.draw], ?_⟩
    intro byte member
    obtain ⟨i, _, rfl⟩ := List.mem_map.mp member
    exact blank.zeros _ (Nat.le_add_right _ _)
  · exact ⟨blank.patient, fun place later => blank.zeros place ((Nat.le_add_right _ _).trans later)⟩

/-- Zeros are below every bound. -/
theorem Blank.yields_zero (blank : Blank source) (positive : 0 < bound) :
    ∃ rest, randomBelow bound source = .ok (0, rest) ∧ Blank rest := by
  obtain ⟨zeros, later⟩ := blank.draw (byteCount (bitLength bound))
  refine ⟨afterDraws bound source 1, (randomBelow_eq_ok positive).mpr
    ⟨0, blank.patient, firstYield_zero.mpr ?_, rfl⟩, afterDraws_one bound source ▸ later⟩
  rw [zeros, below?_eq_some, value_zeros]
  exact ⟨positive, Nat.zero_mod _⟩

theorem Blank.drawn (blank : Blank source) (positive : 0 < bound) (count : Nat) :
    ∃ rest, Drawn bound (List.replicate count 0) source rest := by
  induction count generalizing source with
  | zero => exact ⟨source, rfl⟩
  | succ count ih =>
    obtain ⟨later, first, still⟩ := blank.yields_zero positive
    obtain ⟨rest, drawn⟩ := ih still
    exact ⟨rest, later, first, drawn⟩

/-- A prime passes the test also with the same draw in all rounds. -/
theorem Blank.passes (blank : Blank source) (prime : p.Prime) (rounds : Nat) :
    ∃ rest, isProbablePrime p rounds source = .ok (true, rest) := by
  have returned : ∃ verdict rest, isProbablePrime p rounds source = .ok (verdict, rest) := by
    rw [isProbablePrime, if_neg (Nat.not_lt.mpr prime.two_le)]
    cases divided : trialDivision p smallPrimes with
    | some verdict => exact ⟨verdict, source, rfl⟩
    | none =>
      have large := no_small_divisor divided dvd_rfl prime.two_le
      obtain ⟨rest, drawn⟩ := blank.drawn (Nat.sub_pos_of_lt (by omega : 3 < p)) rounds
      obtain ⟨later, answered⟩ := passesRounds_drawn drawn
      rw [List.length_replicate] at answered
      exact ⟨_, later, answered⟩
  obtain ⟨verdict, rest, returned⟩ := returned
  obtain rfl := (isProbablePrime_sound rounds returned).1 prime
  exact ⟨rest, returned⟩

/-- A source that gives these bytes, and zeros after them. -/
def written (raw : Bytes) : Entropy :=
  ⟨fun place => raw.getD place 0, 0, 1⟩

theorem draw_written (raw : Bytes) :
    ((written raw).draw raw.length).1 = raw ∧ Blank ((written raw).draw raw.length).2 := by
  constructor
  · refine List.ext_getElem (by simp [Entropy.draw]) fun i _ within => ?_
    simp [Entropy.draw, written, within]
  · refine ⟨Nat.one_pos, fun place later => ?_⟩
    have beyond : raw.length ≤ place := (Nat.zero_add raw.length).symm.trans_le later
    change raw.getD place 0 = 0
    simp [beyond]

/-- Every prime of the shape is what some source makes the search return. -/
theorem generatePrime_reaches (wide : 2 ≤ bits) (shaped : Shaped bits p) (prime : p.Prime) :
    ∃ source rest, generatePrime bits source = .ok (p, rest) := by
  obtain ⟨raw, full, read⟩ := (shaped_iff wide).mp shaped
  obtain ⟨drawn, blank⟩ := draw_written raw
  rw [full] at drawn blank
  obtain ⟨rest, passed⟩ := blank.passes prime primeRounds
  refine ⟨written raw, rest, generatePrime_eq_ok.mpr
    ⟨wide, 0, Nat.one_pos, written raw, .none _, ?_, passed⟩⟩
  rw [drawn, read]

/-- What comes out of the searches has the shape that was asked for. Candidates are read from buffers
in which bits are set where they are counted from the end; they are the odd numbers of so many bits
that begin with two ones, and a prime that is returned is one of them that has passed the test. A safe
prime has passed it too, after the prime inside, and has the right length without being looked at. -/
theorem generated_primes_shaped (wide : 2 ≤ bits) :
    (∀ raw : Bytes, raw.length = byteCount bits →
      candidate bits raw = value (drafted bits raw)) ∧
    (∀ n, Shaped bits n ↔ ∃ raw : Bytes, raw.length = byteCount bits ∧ candidate bits raw = n) ∧
    (∀ source p rest, generatePrime bits source = .ok (p, rest) →
      Shaped bits p ∧ ∃ before : Entropy, candidate bits (before.draw (byteCount bits)).1 = p ∧
        isProbablePrime p primeRounds (before.draw (byteCount bits)).2 = .ok (true, rest)) ∧
    (∀ source p rest, generateSafePrime bits source = .ok (p, rest) →
      bitLength p = bits ∧ ∃ q, p = 2 * q + 1 ∧ Shaped (bits - 1) q ∧
        ∃ tested between, isProbablePrime q primeRounds tested = .ok (true, between) ∧
          isProbablePrime p primeRounds between = .ok (true, rest)) ∧
    (3 ≤ bits → ∀ source q rest, generatePrime (bits - 1) source = .ok (q, rest) →
      bitLength (2 * q + 1) = bits) := by
  refine ⟨fun raw full => (value_drafted wide full).symm, fun n => shaped_iff wide,
    fun source p rest generated => ?_, fun source p rest generated => ?_,
    fun long source q rest generated => bitLength_safePrime long generated⟩
  · obtain ⟨_, _, _, before, _, read, passed⟩ := generatePrime_eq_ok.mp generated
    exact ⟨generatePrime_shaped generated, before, read, passed⟩
  · obtain ⟨long, _, _, before, _, q, between, inside, rfl, passed⟩ :=
      generateSafePrime_eq_ok.mp generated
    obtain ⟨_, _, _, _, _, _, tested⟩ := generatePrime_eq_ok.mp inside
    exact ⟨bitLength_safePrime long inside, q, rfl, generatePrime_shaped inside, _, between, tested,
      passed⟩

theorem shaped_389 : Shaped 9 389 := by
  constructor <;> decide

/-- Of nine bits the highest is the last one of the first byte, and the next one is in the second. -/
theorem generated_primes_shaped_nine :
    2 ≤ 9 ∧ value (drafted 9 [0xFE, 0x04]) = 389 ∧ candidate 9 [0xFE, 0x04] = 389 ∧
    (∃ (source rest before : Entropy), generatePrime 9 source = .ok (389, rest) ∧
      candidate 9 (before.draw 2).1 = 389) ∧
    2 ≤ 3 ∧ ∃ rest q, generateSafePrime 3 (written [0]) = .ok (7, rest) ∧ 7 = 2 * q + 1 ∧
      Shaped 2 q := by
  have wide : 2 ≤ 9 := by decide
  obtain ⟨buffers, _, primes, _⟩ := generated_primes_shaped wide
  have read : candidate 9 [0xFE, 0x04] = 389 := by decide
  have draft := buffers [0xFE, 0x04] rfl
  obtain ⟨source, rest, generated⟩ := generatePrime_reaches wide shaped_389 (by norm_num)
  obtain ⟨_, before, proposed, _⟩ := primes source 389 rest generated
  have narrow : 2 ≤ 3 := by decide
  obtain ⟨_, _, _, safe, _⟩ := generated_primes_shaped narrow
  have small : ∃ rest, generateSafePrime 3 (written [0]) = .ok (7, rest) := ⟨_, rfl⟩
  obtain ⟨later, found⟩ := small
  obtain ⟨_, q, twice, shaped, _⟩ := safe (written [0]) 7 later found
  exact ⟨wide, draft.symm.trans read, read, ⟨source, rest, before, generated, proposed⟩, narrow,
    later, q, found, twice, shaped⟩

end RoomCipher.PrimeShapes
