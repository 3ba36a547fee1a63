import RoomCipher.Proofs.MagentaInversion

/-! Which bytes of a key MAGENTA uses. A schedule has more than twice as many round keys as
there are rounds, and only as many as there are rounds are ever read: one byte of the key
for each round, going round the key. Keys with the same bytes in those places are the same
key. One byte that differs is never lost again, because a round takes different round keys
to different words, and later rounds keep different words apart. -/
namespace RoomCipher.MagentaKeyBytes
open Magenta ByteLaws CipherPermutation MagentaInversion

variable {rounds : Nat}

/-- Byte number `i` of a key that is repeated without end. -/
def keyByte (key : Bytes) (i : Nat) : UInt8 := key.getD (i % key.length) 0

/-- The key of round `i` made from a byte of the key. -/
def roundKey (i : Nat) (b : UInt8) : UInt64 := UInt64.ofNat i <<< 32 ||| b.toUInt64

/-! ### Round keys -/

theorem getD_expandKey (within : i < keyCount rounds) (key : Bytes) :
    (expandKey rounds key).getD i 0 = roundKey i (keyByte key i) := by
  rw [List.getD_eq_getElem?_getD, expandKey, List.getElem?_map, List.getElem?_range within]
  rfl

/-- The round keys that are used: of the schedule no more than one for each round, and none of them
twice if the schedule has them all. -/
theorem runKeys_expandKey (counted : 2 * (rounds + 1) < 2 ^ 64) (key : Bytes) :
    runKeys rounds (expandKey rounds key) =
      (List.range rounds).map fun i => roundKey i (keyByte key i) := by
  refine List.map_congr_left fun i member => ?_
  have within : i < keyCount rounds := by
    have bound := List.mem_range.mp member
    rw [keyCount_eq counted]
    omega
  rw [length_expandKey, Nat.mod_eq_of_lt within, getD_expandKey within]

/-- The number of a round leaves the byte of the key alone. -/
theorem toUInt8_roundKey (i : Nat) (b : UInt8) : (roundKey i b).toUInt8 = b := by
  have number : (UInt64.ofNat i <<< 32).toUInt8 = 0 := by
    apply UInt8.toNat_inj.mp
    simp only [UInt64.toNat_toUInt8, UInt64.toNat_shiftLeft, UInt64.reduceToNat, Nat.reduceMod,
      Nat.shiftLeft_eq, UInt8.toNat_zero]
    omega
  rw [roundKey, UInt64.toUInt8_or, number, UInt8.toUInt8_toUInt64, UInt8.zero_or]

theorem roundKey_ne (differ : b ≠ c) (i : Nat) : roundKey i b ≠ roundKey i c := by
  intro same
  have bytes := congrArg UInt64.toUInt8 same
  rw [toUInt8_roundKey, toUInt8_roundKey] at bytes
  exact differ bytes

/-! ### Runs -/

/-- A round keeps different words apart. -/
theorem round_injective (key : UInt64) : Function.Injective fun words => round words key := by
  intro p q same
  have undone := congrArg (unround key) same
  rwa [unround_round, unround_round] at undone

/-- A round tells its keys apart, whatever the words are. -/
theorem round_keys_ne (differ : k ≠ l) (words : UInt64 × UInt64) :
    round words k ≠ round words l := by
  intro same
  have left : substitute words.1 ^^^ k ^^^ words.2 = substitute words.1 ^^^ l ^^^ words.2 :=
    congrArg Prod.fst same
  rw [UInt64.xor_left_inj, UInt64.xor_right_inj] at left
  exact differ left

/-- Of two runs whose keys differ in one round alone the results differ: they part in that round
and no later one brings them together. -/
theorem runs_part {f g : Nat → UInt64} (within : i < rounds) (odd : f i ≠ g i)
    (others : ∀ j < rounds, j ≠ i → f j = g j) (words : UInt64 × UInt64) :
    ((List.range rounds).map f).foldl round words ≠
      ((List.range rounds).map g).foldl round words := by
  induction rounds with
  | zero => exact absurd within (Nat.not_lt_zero i)
  | succ rounds ih =>
    simp only [List.range_succ, List.map_append, List.map_singleton, List.foldl_append,
      List.foldl_cons, List.foldl_nil]
    rcases Nat.lt_succ_iff_lt_or_eq.mp within with earlier | rfl
    · have last : f rounds = g rounds :=
        others rounds (Nat.lt_succ_self rounds) (Nat.ne_of_gt earlier)
      rw [last]
      exact (round_injective (g rounds)).ne
        (ih earlier fun j bound => others j (Nat.lt_succ_of_lt bound))
    · have before : (List.range i).map f = (List.range i).map g := by
        refine List.map_congr_left fun j member => ?_
        have bound := List.mem_range.mp member
        exact others j (Nat.lt_succ_of_lt bound) (Nat.ne_of_lt bound)
      rw [before]
      exact round_keys_ne odd _

/-! ### Blocks -/

/-- Both block functions give the same answer to everything they are asked. -/
def Interchangeable (first second : Magenta) : Prop :=
  ∀ block, encryptBlock first block = encryptBlock second block ∧
    decryptBlock first block = decryptBlock second block

/-- Of two schedules nothing is looked at but the round keys that the rounds come to. -/
theorem interchangeable_of_runKeys (some_keys : keys ≠ []) (some_keys' : keys' ≠ [])
    (alike : runKeys rounds keys = runKeys rounds keys') :
    Interchangeable ⟨rounds, some keys⟩ ⟨rounds, some keys'⟩ := by
  intro block
  simp only [encryptBlock, decryptBlock, onBlock, alike, some_keys, some_keys', false_and,
    ↓reduceIte, true_and]

theorem join_injective : Function.Injective join :=
  Function.LeftInverse.injective split_join

/-- The two keys have the same bytes in the places that the rounds use. -/
def Agree (rounds : Nat) (key other : Bytes) : Prop :=
  ∀ i < rounds, keyByte key i = keyByte other i

/-- The two keys differ in exactly one of the places that the rounds use. -/
def DifferOnce (rounds : Nat) (key other : Bytes) : Prop :=
  ∃ i < rounds, keyByte key i ≠ keyByte other i ∧
    ∀ j < rounds, j ≠ i → keyByte key j = keyByte other j

theorem agree_runKeys (counted : 2 * (rounds + 1) < 2 ^ 64) (agree : Agree rounds key other) :
    runKeys rounds (expandKey rounds key) = runKeys rounds (expandKey rounds other) := by
  rw [runKeys_expandKey counted, runKeys_expandKey counted]
  refine List.map_congr_left fun i member => ?_
  rw [agree i (List.mem_range.mp member)]

/-- Of a key with a byte for every round the later bytes are never used. -/
theorem agree_of_front (long : rounds ≤ key.length) (long' : rounds ≤ other.length)
    (front : key.take rounds = other.take rounds) : Agree rounds key other := by
  intro i bound
  have reads {bytes : Bytes} (long : rounds ≤ bytes.length) :
      keyByte bytes i = (bytes.take rounds).getD i 0 := by
    rw [keyByte, Nat.mod_eq_of_lt (Nat.lt_of_lt_of_le bound long), List.getD_eq_getElem?_getD,
      List.getD_eq_getElem?_getD, List.getElem?_take_of_lt bound]
  rw [reads long, reads long', front]

/-- Both keys are taken. Under keys that agree the cipher does the same, and so it does under keys
with a byte for every round that have a common front of so many bytes. Under keys that differ once
it encrypts every block differently. -/
structure UsesKeyBytes (cipher : Magenta) (key other : Bytes) (keyed keyed' : Magenta) : Prop where
  taken : setKey cipher key = (keyed, .ok ())
  taken' : setKey cipher other = (keyed', .ok ())
  answers : Permutes keyed 16 ∧ Permutes keyed' 16
  agreeing : Agree cipher.rounds key other → Interchangeable keyed keyed'
  fronted : cipher.rounds ≤ key.length → cipher.rounds ≤ other.length →
    key.take cipher.rounds = other.take cipher.rounds → Interchangeable keyed keyed'
  differing : DifferOnce cipher.rounds key other →
    ∀ block, block.length = 16 → encryptBlock keyed block ≠ encryptBlock keyed' block

/-- Of every key MAGENTA uses one byte for each round and nothing else, whatever its number of
rounds, as long as its round keys can be had. -/
theorem key_bytes_used (cipher : Magenta) (room : 16 * (cipher.rounds + 1) < 2 ^ 63)
    (written : key ≠ []) (written' : other ≠ []) :
    ∃ keyed keyed', UsesKeyBytes cipher key other keyed keyed' := by
  have counted := counted_of_room room
  have had := (room_iff counted).mpr room
  have present (key : Bytes) : expandKey cipher.rounds key ≠ [] :=
    expandKey_ne_nil (keyCount_pos counted) key
  have alike (agree : Agree cipher.rounds key other) :=
    interchangeable_of_runKeys (present key) (present other) (agree_runKeys counted agree)
  refine ⟨_, _, {
    taken := setKey_fits written cipher had
    taken' := setKey_fits written' cipher had
    answers := ⟨permutes rfl (present key), permutes rfl (present other)⟩
    agreeing := alike
    fronted := fun long long' front => alike (agree_of_front long long' front)
    differing := ?_ }⟩
  rintro ⟨i, bound, odd, others⟩ block full same
  rw [encryptBlock_keyed rfl (present key) full, encryptBlock_keyed rfl (present other) full,
    runKeys_expandKey counted, runKeys_expandKey counted] at same
  have part := runs_part bound (roundKey_ne odd i)
    (fun j below apart => congrArg (roundKey j) (others j below apart)) (split block)
  exact part (join_injective (Except.ok.inj same))

/-- Two keys of 16 and 24 bytes for twelve rounds. -/
theorem key_bytes_used_standard :
    ∃ keyed keyed', UsesKeyBytes standard (List.replicate 16 7) (List.replicate 24 7) keyed keyed' :=
  key_bytes_used standard (by decide) (List.cons_ne_nil 7 _) (List.cons_ne_nil 7 _)

theorem keyByte_zero (i : Nat) : keyByte [0] i = 0 := by
  rw [keyByte, List.length_singleton, Nat.mod_one]
  rfl

/-- A key of zeros behind one other byte, longer than the run. -/
theorem keyByte_marked (bound : i < length) :
    keyByte (1 :: List.replicate length 0) i = if i = 0 then 1 else 0 := by
  rw [keyByte, List.length_cons, List.length_replicate, Nat.mod_eq_of_lt (Nat.lt_succ_of_lt bound)]
  cases i with
  | zero => rfl
  | succ i => simp [Nat.lt_of_succ_lt bound]

theorem differOnce_marked (positive : 0 < length) :
    DifferOnce length (1 :: List.replicate length 0) [0] := by
  refine ⟨0, positive, ?_, ?_⟩
  · rw [keyByte_marked positive, keyByte_zero]
    decide
  · intro j bound later
    rw [keyByte_marked bound, keyByte_zero, if_neg later]

/-- With so many rounds that twice their number can be counted, and the bytes of their keys cannot,
no key byte is used: keys that agree are not taken, and of keys that differ once it makes no
difference which one it is. -/
theorem oversize_uses_no_key_bytes :
    2 * (2 ^ 59 + 1) < 2 ^ 64 ∧
      (Agree (2 ^ 59) [0] [0, 0] ∧
        ¬ ∃ keyed keyed', UsesKeyBytes (withRounds (2 ^ 59)) [0] [0, 0] keyed keyed') ∧
      DifferOnce (2 ^ 59) (1 :: List.replicate (2 ^ 59) 0) [0] ∧
      ∀ block, encryptBlock (setKey (withRounds (2 ^ 59)) (1 :: List.replicate (2 ^ 59) 0)).1 block =
        encryptBlock (setKey (withRounds (2 ^ 59)) [0]).1 block := by
  refine ⟨by decide, ⟨?_, ?_⟩, differOnce_marked (by decide), ?_⟩
  · intro i _
    have twice : keyByte [0, 0] i = 0 := by
      have place := Nat.mod_two_eq_zero_or_one i
      rw [keyByte, List.length_cons, List.length_singleton]
      rcases place with even | odd
      · rw [even]; rfl
      · rw [odd]; rfl
    rw [keyByte_zero, twice]
  · rintro ⟨keyed, keyed', uses⟩
    have taken := uses.taken
    rw [setKey_uncounted (List.cons_ne_nil 0 [])] at taken
    cases taken
  · intro block
    rw [setKey_uncounted (List.cons_ne_nil 0 []), setKey_uncounted (List.cons_ne_nil 1 _)]

end RoomCipher.MagentaKeyBytes
