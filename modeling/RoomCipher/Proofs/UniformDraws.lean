import Mathlib.Data.Set.Card
import Mathlib.Tactic.IntervalCases
import RoomCipher.Proofs.RoomTransport

/-! Random numbers without a bias. A buffer is as long as the bound and its excess bits are dropped,
so what is left of it is a number of as many bits as the bound has, each one left by the same number
of buffers. Those below the bound are taken as they are, and the others are drawn again. At least
half of the buffers are taken, since the highest bit of the bound is set. -/
namespace RoomCipher.UniformDraws
open Bytes ByteLaws Exchange RoomTransport

/-! ### The width of a bound -/

theorem lt_two_pow_bitLength (n : Nat) : n < 2 ^ bitLength n := by
  rw [bitLength]
  split
  next zero =>
    subst zero
    exact Nat.one_pos
  next => exact Nat.lt_log2_self

/-- The highest bit of a number is set. -/
theorem two_pow_bitLength_le (positive : 0 < n) : 2 ^ bitLength n ≤ 2 * n := by
  rw [bitLength, if_neg (Nat.ne_of_gt positive), Nat.pow_succ']
  exact Nat.mul_le_mul_left 2 (Nat.log2_self_le (Nat.ne_of_gt positive))

theorem bits_le_byteCount (bits : Nat) : bits ≤ 8 * byteCount bits := by
  rw [byteCount]
  omega

/-- Less than a byte of a buffer is excess. -/
theorem excess_lt (bits : Nat) : 8 * byteCount bits - bits < 8 := by
  rw [byteCount]
  omega

/-! ### Buffers and the numbers that they denote -/

/-- Buffers of one length are counted by the numbers that they denote. -/
theorem ncard_buffers (length : Nat) (P : Nat → Prop) [DecidablePred P] :
    {raw : Bytes | raw.length = length ∧ P (value raw)}.ncard =
      ((Finset.range (256 ^ length)).filter P).card := by
  have image : {raw : Bytes | raw.length = length ∧ P (value raw)} =
      ofBigEndian length '' ((Finset.range (256 ^ length)).filter P : Finset Nat) := by
    ext raw
    constructor
    · rintro ⟨rfl, holds⟩
      refine ⟨value raw, ?_, ofBigEndian_value raw⟩
      simpa using ⟨value_lt raw, holds⟩
    · rintro ⟨n, member, rfl⟩
      obtain ⟨fits, holds⟩ : n < 256 ^ length ∧ P n := by simpa using member
      refine ⟨length_ofBigEndian length n, ?_⟩
      rwa [value_ofBigEndian fits]
  have injective : Set.InjOn (ofBigEndian length)
      ((Finset.range (256 ^ length)).filter P : Finset Nat) := by
    intro m left n right same
    have small : m < 256 ^ length := (by simpa using left : _ ∧ _).1
    have other : n < 256 ^ length := (by simpa using right : _ ∧ _).1
    rw [← value_ofBigEndian small, same, value_ofBigEndian other]
  rw [image, injective.ncard_image, Set.ncard_coe_finset]

/-! ### Excess bits -/

/-- A buffer of which the first byte keeps only as many bits as are needed for `bits` in all. -/
def masked (bits : Nat) : Bytes → Bytes
  | [] => []
  | b :: bytes => (b &&& 0xFF >>> UInt8.ofNat (8 * (bytes.length + 1) - bits)) :: bytes

theorem toNat_mask (b : UInt8) (partial_byte : excess < 8) :
    (b &&& 0xFF >>> UInt8.ofNat excess).toNat = b.toNat % 2 ^ (8 - excess) := by
  have mask : (0xFF >>> UInt8.ofNat excess : UInt8).toNat = 2 ^ (8 - excess) - 1 := by
    interval_cases excess <;> rfl
  rw [UInt8.toNat_and, mask, Nat.and_two_pow_sub_one_eq_mod]

/-- The mask leaves the lowest bits of the number. -/
theorem value_masked (full : raw.length = byteCount bits) :
    value (masked bits raw) = value raw % 2 ^ bits := by
  have covered := bits_le_byteCount bits
  have narrow := excess_lt bits
  rw [← full] at covered narrow
  cases raw with
  | nil =>
    have none : bits = 0 := by simpa using covered
    subst none
    rfl
  | cons b bytes =>
    rw [List.length_cons] at covered narrow
    have width : 2 ^ bits = 256 ^ bytes.length * 2 ^ (8 - (8 * (bytes.length + 1) - bits)) := by
      rw [show (256 : Nat) = 2 ^ 8 from rfl, ← Nat.pow_mul, ← Nat.pow_add]
      congr 1
      omega
    rw [masked, value_cons, value_cons, toNat_mask b narrow, width, Nat.mod_mul,
      Nat.add_mul_mod_self_left, Nat.mod_eq_of_lt (value_lt bytes),
      Nat.add_mul_div_left _ _ (Nat.pow_pos (Nat.succ_pos 255)), Nat.div_eq_of_lt (value_lt bytes),
      Nat.zero_add]

/-! ### What buffers yield -/

/-- The buffers that are drawn for a number below `bound`. -/
def buffers (bound : Nat) : Set Bytes :=
  {raw | raw.length = byteCount (bitLength bound)}

/-- Those of them that yield `key`. -/
def yielding (bound key : Nat) : Set Bytes :=
  {raw | raw ∈ buffers bound ∧ below? bound raw = some key}

/-- Those of them that yield anything. -/
def accepted (bound : Nat) : Set Bytes :=
  {raw | raw ∈ buffers bound ∧ ∃ key, below? bound raw = some key}

theorem below?_eq_some :
    below? bound raw = some key ↔ key < bound ∧ value raw % 2 ^ bitLength bound = key := by
  rw [below?, Nat.one_shiftLeft]
  split
  next fits =>
    rw [Option.some_inj]
    constructor
    · rintro rfl
      exact ⟨fits, rfl⟩
    · exact And.right
  next large =>
    refine iff_of_false nofun ?_
    rintro ⟨fits, rfl⟩
    exact large fits

/-- What a buffer yields is the number left of it without its excess bits, if it is small enough. -/
theorem below?_masked (full : raw ∈ buffers bound) :
    below? bound raw =
      if value (masked (bitLength bound) raw) < bound then
        some (value (masked (bitLength bound) raw)) else none := by
  rw [value_masked full, below?, Nat.one_shiftLeft]

/-- As many buffers as there are excess bits to choose leave a number of the right width. -/
theorem card_remainders (bits excess : Nat) (small : key < 2 ^ bits) :
    ((Finset.range (2 ^ (bits + excess))).filter (· % 2 ^ bits = key)).card = 2 ^ excess := by
  have image : (Finset.range (2 ^ (bits + excess))).filter (· % 2 ^ bits = key) =
      (Finset.range (2 ^ excess)).image fun high => key + 2 ^ bits * high := by
    ext n
    simp only [Finset.mem_filter, Finset.mem_range, Finset.mem_image]
    constructor
    · rintro ⟨within, rfl⟩
      refine ⟨n / 2 ^ bits, ?_, Nat.mod_add_div n (2 ^ bits)⟩
      rw [Nat.div_lt_iff_lt_mul (Nat.two_pow_pos bits), Nat.mul_comm, ← Nat.pow_add]
      exact within
    · rintro ⟨high, within, rfl⟩
      constructor
      · calc key + 2 ^ bits * high < 2 ^ bits * (high + 1) := by
              rw [Nat.mul_succ, Nat.add_comm]
              exact Nat.add_lt_add_left small _
          _ ≤ 2 ^ bits * 2 ^ excess := Nat.mul_le_mul_left _ within
          _ = 2 ^ (bits + excess) := (Nat.pow_add ..).symm
      · rw [Nat.add_mul_mod_self_left, Nat.mod_eq_of_lt small]
  rw [image, Finset.card_image_of_injective, Finset.card_range]
  intro high high' same
  exact Nat.eq_of_mul_eq_mul_left (Nat.two_pow_pos bits) (Nat.add_left_cancel same)

theorem card_small_remainders (bits excess : Nat) (small : bound ≤ 2 ^ bits) :
    ((Finset.range (2 ^ (bits + excess))).filter (· % 2 ^ bits < bound)).card =
      bound * 2 ^ excess := by
  have into : Set.MapsTo (· % 2 ^ bits)
      (((Finset.range (2 ^ (bits + excess))).filter (· % 2 ^ bits < bound) : Finset Nat) : Set Nat)
      (Finset.range bound : Set Nat) := by
    intro n member
    exact Finset.mem_coe.mpr (Finset.mem_range.mpr (Finset.mem_filter.mp member).2)
  rw [Finset.card_eq_sum_card_fiberwise into, Finset.sum_const_nat (m := 2 ^ excess),
    Finset.card_range]
  intro key member
  have below := Finset.mem_range.mp member
  rw [Finset.filter_filter, ← card_remainders bits excess (below.trans_le small)]
  congr 1
  refine Finset.filter_congr fun n _ => ?_
  exact and_iff_right_of_imp fun remainder => remainder.trans_lt below

/-- The numbers that buffers denote, by the bits of the bound and the excess bits. -/
theorem numbers_split (bound : Nat) : 256 ^ byteCount (bitLength bound) =
    2 ^ (bitLength bound + (8 * byteCount (bitLength bound) - bitLength bound)) := by
  rw [show (256 : Nat) = 2 ^ 8 from rfl, ← Nat.pow_mul,
    Nat.add_sub_cancel' (bits_le_byteCount (bitLength bound))]

theorem ncard_all (bound : Nat) :
    (buffers bound).ncard = 2 ^ (8 * byteCount (bitLength bound)) := by
  have numbers := ncard_buffers (byteCount (bitLength bound)) fun _ => True
  simp only [and_true, Finset.filter_true, Finset.card_range] at numbers
  rw [buffers, numbers, Nat.pow_mul]

/-- Every number below the bound is yielded by as many buffers as every other one. -/
theorem ncard_yielding (below : key < bound) : (yielding bound key).ncard =
    2 ^ (8 * byteCount (bitLength bound) - bitLength bound) := by
  have same : yielding bound key = {raw : Bytes | raw.length = byteCount (bitLength bound) ∧
      value raw % 2 ^ bitLength bound = key} := by
    ext raw
    refine and_congr Iff.rfl ?_
    rw [below?_eq_some, and_iff_right below]
  rw [same, ncard_buffers _ (· % 2 ^ bitLength bound = key), numbers_split,
    card_remainders _ _ (below.trans (lt_two_pow_bitLength bound))]

/-- The buffers that are accepted, counted by what they yield. -/
theorem ncard_accepted (bound : Nat) : (accepted bound).ncard =
    bound * 2 ^ (8 * byteCount (bitLength bound) - bitLength bound) := by
  have same : accepted bound = {raw : Bytes | raw.length = byteCount (bitLength bound) ∧
      value raw % 2 ^ bitLength bound < bound} := by
    ext raw
    refine and_congr Iff.rfl ?_
    simp only [below?_eq_some, exists_eq_right']
  rw [same, ncard_buffers _ (· % 2 ^ bitLength bound < bound), numbers_split,
    card_small_remainders _ _ (lt_two_pow_bitLength bound).le]

/-- At least half of all buffers are accepted. -/
theorem ncard_all_le (positive : 0 < bound) :
    (buffers bound).ncard ≤ 2 * (accepted bound).ncard := by
  calc (buffers bound).ncard
      = 2 ^ bitLength bound * 2 ^ (8 * byteCount (bitLength bound) - bitLength bound) := by
        rw [ncard_all, ← Nat.pow_add, Nat.add_sub_cancel' (bits_le_byteCount (bitLength bound))]
    _ ≤ 2 * bound * 2 ^ (8 * byteCount (bitLength bound) - bitLength bound) :=
        Nat.mul_le_mul_right _ (two_pow_bitLength_le positive)
    _ = 2 * (accepted bound).ncard := by rw [ncard_accepted, Nat.mul_assoc]

/-! ### The loop -/

/-- The draws before `number` are missed, and this one yields `key`. -/
def FirstYield (bound : Nat) (source : Entropy) (number key : Nat) : Prop :=
  (∀ earlier < number, below? bound (proposal bound source earlier) = none) ∧
    below? bound (proposal bound source number) = some key

/-- The source after so many draws for a number below `bound`. -/
def afterDraws (bound : Nat) (source : Entropy) (count : Nat) : Entropy :=
  { source with position := source.position + count * byteCount (bitLength bound) }

theorem afterDraws_zero (bound : Nat) (source : Entropy) : afterDraws bound source 0 = source := by
  rw [afterDraws, Nat.zero_mul]
  rfl

theorem afterDraws_one (bound : Nat) (source : Entropy) :
    afterDraws bound source 1 = (source.draw (byteCount (bitLength bound))).2 := by
  rw [afterDraws, Nat.one_mul]
  rfl

theorem afterDraws_add (bound : Nat) (source : Entropy) (m n : Nat) :
    afterDraws bound (afterDraws bound source m) n = afterDraws bound source (n + m) := by
  simp only [afterDraws, Nat.add_mul, Nat.add_assoc, Nat.add_comm]

theorem proposal_buffer (bound : Nat) (source : Entropy) (number : Nat) :
    proposal bound source number ∈ buffers bound := by
  simp [proposal, buffers, Entropy.draw]

theorem firstYield_zero : FirstYield bound source 0 key ↔
    below? bound (source.draw (byteCount (bitLength bound))).1 = some key := by
  simp [FirstYield, proposal_zero]

theorem firstYield_succ : FirstYield bound source (number + 1) key ↔
    below? bound (source.draw (byteCount (bitLength bound))).1 = none ∧
      FirstYield bound (afterDraws bound source 1) number key := by
  simp only [FirstYield, Nat.forall_lt_succ_left, proposal_zero, proposal_succ, afterDraws_one,
    and_assoc]

/-- The search stops at the first buffer that is accepted, if it gets there. -/
theorem searchWithin_eq_ok :
    Entropy.searchWithin (attempt bound) attempts source = .ok (key, rest) ↔
      ∃ number < attempts, FirstYield bound source number key ∧
        rest = afterDraws bound source (number + 1) := by
  induction attempts generalizing source with
  | zero =>
    constructor
    · intro found
      cases found
    · rintro ⟨number, before, _⟩
      exact absurd before (Nat.not_lt_zero number)
  | succ attempts ih =>
    have tried : attempt bound source =
        .ok (below? bound (source.draw (byteCount (bitLength bound))).1,
          afterDraws bound source 1) := by
      rw [afterDraws_one]
      rfl
    rw [Entropy.searchWithin, tried, Nat.exists_lt_succ_left, firstYield_zero]
    simp only [firstYield_succ]
    cases first : below? bound (source.draw (byteCount (bitLength bound))).1 with
    | some found =>
      simp only [bind, Except.bind, pure, Except.pure, Except.ok.injEq, Prod.mk.injEq,
        Option.some.injEq, reduceCtorEq, false_and, and_false, exists_false, or_false]
      exact and_congr Iff.rfl eq_comm
    | none =>
      simp only [bind, Except.bind, ih, afterDraws_add, reduceCtorEq, false_and, false_or,
        true_and]

/-- A number below a bound is what the first accepted buffer yields. -/
theorem randomBelow_eq_ok (positive : 0 < bound) :
    randomBelow bound source = .ok (key, rest) ↔
      ∃ number < source.patience, FirstYield bound source number key ∧
        rest = afterDraws bound source (number + 1) := by
  rw [randomBelow, if_neg (Nat.ne_of_gt positive)]
  exact searchWithin_eq_ok

/-! ### Numbers drawn one after another -/

/-- A source yields these numbers below `bound` one after another. -/
def Drawn (bound : Nat) : (draws : List Nat) → (source rest : Entropy) → Prop
  | [], source, rest => rest = source
  | r :: draws, source, rest =>
    ∃ later, randomBelow bound source = .ok (r, later) ∧ Drawn bound draws later rest

/-- A source of buffers that denote these numbers, which does not try twice. -/
def scripted (bound : Nat) (draws : List Nat) : Entropy :=
  let width := byteCount (bitLength bound)
  ⟨fun i => (ofBigEndian width (draws.getD (i / width) 0)).getD (i % width) 0, 0, 1⟩

theorem proposal_scripted (draws : List Nat) (number : Nat) :
    proposal bound (scripted bound draws) number =
      ofBigEndian (byteCount (bitLength bound)) (draws.getD number 0) := by
  refine List.ext_getElem (by simp [proposal, Entropy.draw]) fun i before within => ?_
  rw [length_ofBigEndian] at within
  have place : (number * byteCount (bitLength bound) + i) / byteCount (bitLength bound) = number := by
    rw [Nat.mul_comm, Nat.mul_add_div (Nat.zero_lt_of_lt within), Nat.div_eq_of_lt within,
      Nat.add_zero]
  simp [proposal, Entropy.draw, scripted, place, Nat.mod_eq_of_lt within, within]

/-- The bytes of a number below the bound yield it. -/
theorem below?_ofBigEndian (below : key < bound) :
    below? bound (ofBigEndian (byteCount (bitLength bound)) key) = some key := by
  have narrow : key < 2 ^ bitLength bound := below.trans (lt_two_pow_bitLength bound)
  have fits : key < 256 ^ byteCount (bitLength bound) := by
    rw [numbers_split]
    exact narrow.trans_le (Nat.pow_le_pow_right two_pos (Nat.le_add_right _ _))
  rw [below?_eq_some, value_ofBigEndian fits, Nat.mod_eq_of_lt narrow]
  exact ⟨below, rfl⟩

/-- One number of a script after another comes out of the first buffer that is drawn for it. -/
theorem randomBelow_scripted (listed : draws[number]? = some r) (below : r < bound) :
    randomBelow bound (afterDraws bound (scripted bound draws) number) =
      .ok (r, afterDraws bound (scripted bound draws) (number + 1)) := by
  refine (randomBelow_eq_ok (Nat.zero_lt_of_lt below)).mpr ⟨0, Nat.one_pos, ?_, ?_⟩
  · rw [firstYield_zero]
    change below? bound (proposal bound (scripted bound draws) number) = some r
    rw [proposal_scripted, List.getD_eq_getElem?_getD, listed]
    exact below?_ofBigEndian below
  · rw [afterDraws_add, Nat.zero_add, Nat.add_comm]

/-- The rest of a script yields the numbers that are left. -/
theorem drawn_rest (later : List Nat) (below : ∀ r ∈ later, r < bound) (earlier : List Nat) :
    Drawn bound later
      (afterDraws bound (scripted bound (earlier ++ later)) earlier.length)
      (afterDraws bound (scripted bound (earlier ++ later)) (earlier ++ later).length) := by
  induction later generalizing earlier with
  | nil =>
    rw [List.append_nil]
    rfl
  | cons r later ih =>
    obtain ⟨first, rest⟩ := List.forall_mem_cons.mp below
    have moved : (earlier ++ [r]).length = earlier.length + 1 := List.length_append
    have next := ih rest (earlier ++ [r])
    rw [List.append_assoc, List.singleton_append, moved] at next
    exact ⟨_, randomBelow_scripted (by simp) first, next⟩

/-- All numbers below the bound can be drawn, in any order. -/
theorem drawn_scripted (draws : List Nat) (below : ∀ r ∈ draws, r < bound) :
    ∃ rest, Drawn bound draws (scripted bound draws) rest := by
  have all := drawn_rest draws below []
  rw [List.length_nil, afterDraws_zero, List.nil_append] at all
  exact ⟨_, all⟩

/-- Every number below the bound comes out of some source. -/
theorem randomBelow_reaches (below : key < bound) :
    ∃ source rest, randomBelow bound source = .ok (key, rest) := by
  obtain ⟨_, later, drawn, _⟩ := drawn_scripted [key] (List.forall_mem_singleton.mpr below)
  exact ⟨_, later, drawn⟩

/-- Private keys are uniform: a key is what the first buffer leaves when its excess bits are dropped
that leaves a number below the bound, every number below the bound is left by the same number of
buffers, none is out of reach, and at least half of the buffers leave one. -/
theorem private_keys_uniform (positive : 0 < bound) :
    (∀ raw ∈ buffers bound, below? bound raw =
      if value (masked (bitLength bound) raw) < bound then
        some (value (masked (bitLength bound) raw)) else none) ∧
    (∀ raw ∈ buffers bound, ∀ key, below? bound raw = some key → key < bound) ∧
    (∀ key < bound, (yielding bound key).ncard =
      2 ^ (8 * byteCount (bitLength bound) - bitLength bound)) ∧
    (buffers bound).ncard ≤ 2 * (accepted bound).ncard ∧
    (∀ key < bound, ∃ source rest, generatePrivateKey bound source = .ok (key, rest)) ∧
    ∀ source, (∀ number, proposal bound source number ∈ buffers bound) ∧
      ∀ key rest, generatePrivateKey bound source = .ok (key, rest) ↔
        ∃ number < source.patience, FirstYield bound source number key ∧
          rest = afterDraws bound source (number + 1) := by
  refine ⟨fun raw full => below?_masked full,
    fun raw _ key yields => (below?_eq_some.mp yields).1, fun key below => ncard_yielding below,
    ncard_all_le positive, fun key below => randomBelow_reaches below, fun source => ?_⟩
  exact ⟨proposal_buffer bound source, fun key rest => randomBelow_eq_ok positive⟩

/-- A bound of ten bits leaves six bits of two bytes to choose. -/
theorem private_keys_uniform_thousand :
    0 < 1000 ∧ (yielding 1000 999).ncard = 64 ∧
      (buffers 1000).ncard ≤ 2 * (accepted 1000).ncard ∧
      ∃ source rest, generatePrivateKey 1000 source = .ok (999, rest) := by
  have positive : 0 < 1000 := by norm_num
  obtain ⟨_, _, counts, half, reaches, _⟩ := private_keys_uniform positive
  have width : 8 * byteCount (bitLength 1000) - bitLength 1000 = 6 := rfl
  have count := counts 999 (by norm_num)
  rw [width] at count
  exact ⟨positive, count, half, reaches 999 (by norm_num)⟩

end RoomCipher.UniformDraws
