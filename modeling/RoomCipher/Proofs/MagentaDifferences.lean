import RoomCipher.Proofs.MagentaInversion

/-! What MAGENTA does to differences. A round is made of shifts and exclusive-ors only,
so it may be split along them: a run on the xor of two pairs of words, under round keys
xored pair by pair, is the xor of the two runs. The round keys fall out of the difference
of two blocks under one key, and one block whose encryption is known gives away the
encryption of every other block under that key from that under any other. -/
namespace RoomCipher.MagentaDifferences
open Magenta ByteLaws MagentaInversion

/-- The exclusive-or of two pairs of words. -/
def blend (p q : UInt64 × UInt64) : UInt64 × UInt64 := (p.1 ^^^ q.1, p.2 ^^^ q.2)

/-- The exclusive-or of two blocks, byte by byte. -/
def blockXor (a b : Bytes) : Bytes := List.zipWith (· ^^^ ·) a b

/-! ### Rounds -/

theorem smear_xor (shifting : Shifting shift) (amount : Nat) (x y : UInt64) :
    smear shift amount (x ^^^ y) = smear shift amount x ^^^ smear shift amount y := by
  simp only [smear, shifting.xor]
  ac_rfl

theorem substitute_xor (x y : UInt64) : substitute (x ^^^ y) = substitute x ^^^ substitute y := by
  simp only [substitute_eq, smear_xor shifting_left, smear_xor shifting_right]

theorem diffuse_xor (x y : UInt64) : diffuse (x ^^^ y) = diffuse x ^^^ diffuse y := by
  simp only [diffuse_eq, smear_xor shifting_right]

/-- Key and words of a round may be split together. -/
theorem round_blend (p q : UInt64 × UInt64) (k l : UInt64) :
    round (blend p q) (k ^^^ l) = blend (round p k) (round q l) := by
  have left : substitute (p.1 ^^^ q.1) ^^^ (k ^^^ l) ^^^ (p.2 ^^^ q.2) =
      (substitute p.1 ^^^ k ^^^ p.2) ^^^ (substitute q.1 ^^^ l ^^^ q.2) := by
    rw [substitute_xor]
    ac_rfl
  simp only [Magenta.round, blend, left, diffuse_xor, Prod.mk.injEq, true_and]
  ac_rfl

/-- So may all the rounds of a run. -/
theorem foldl_blend (alike : keys.length = keys'.length) (p q : UInt64 × UInt64) :
    (List.zipWith (· ^^^ ·) keys keys').foldl round (blend p q) =
      blend (keys.foldl round p) (keys'.foldl round q) := by
  induction keys generalizing keys' p q with
  | nil =>
    cases keys' with
    | nil => rfl
    | cons _ _ => cases alike
  | cons key keys ih =>
    cases keys' with
    | nil => cases alike
    | cons key' keys' =>
      rw [List.zipWith_cons_cons, List.foldl_cons, round_blend, ih (Nat.succ.inj alike)]
      rfl

/-- The difference that a run makes of two pairs of words, whatever its keys. -/
def spread (rounds : Nat) (difference : UInt64 × UInt64) : UInt64 × UInt64 :=
  (List.replicate rounds 0).foldl round difference

/-- Keys cancel out of the difference of two runs. -/
theorem blend_runs (keys : List UInt64) (p q : UInt64 × UInt64) :
    blend (keys.foldl round p) (keys.foldl round q) = spread keys.length (blend p q) := by
  have gone : List.zipWith (· ^^^ ·) keys keys = List.replicate keys.length 0 := by
    simp only [List.zipWith_self, UInt64.xor_self, List.map_const']
  rw [← foldl_blend rfl, gone, spread]

/-- Three runs under the same keys add up to one. -/
theorem blend_three_runs (keys : List UInt64) (p q r : UInt64 × UInt64) :
    blend (blend (keys.foldl round p) (keys.foldl round q)) (keys.foldl round r) =
      keys.foldl round (blend (blend p q) r) := by
  have two : (List.zipWith (· ^^^ ·) keys keys).length = keys.length := by simp
  have back : List.zipWith (· ^^^ ·) (List.zipWith (· ^^^ ·) keys keys) keys = keys := by
    refine List.ext_getElem (by simp) fun i _ _ => ?_
    simp only [List.getElem_zipWith, UInt64.xor_self, UInt64.zero_xor]
  rw [← foldl_blend rfl, ← foldl_blend two, back]

/-! ### Blocks -/

theorem length_join (words : UInt64 × UInt64) : (join words).length = 16 := by
  simp [join]

theorem join_blend (p q : UInt64 × UInt64) : join (blend p q) = blockXor (join p) (join q) := by
  have width : (Bytes.ofLittleEndian 8 p.1.toNat).length =
      (Bytes.ofLittleEndian 8 q.1.toNat).length := by simp
  simp only [join, blend, blockXor, UInt64.toNat_xor, ofLittleEndian_xor,
    List.zipWith_append width]

/-- A xor of blocks has the xors of their words. -/
theorem split_blockXor (first : a.length = 16) (second : b.length = 16) :
    split (blockXor a b) = blend (split a) (split b) := by
  calc split (blockXor a b)
      = split (blockXor (join (split a)) (join (split b))) := by
        rw [join_split first, join_split second]
    _ = split (join (blend (split a) (split b))) := by rw [join_blend]
    _ = blend (split a) (split b) := split_join _

theorem length_blockXor (first : a.length = size) (second : b.length = size) :
    (blockXor a b).length = size := by
  simp [blockXor, first, second]

/-- The block that a block becomes under a key. -/
def enciphered (rounds : Nat) (key block : Bytes) : Bytes :=
  join ((runKeys rounds (expandKey rounds key)).foldl round (split block))

/-- Under the key the cipher takes each block of 16 bytes to the one that `forth` gives. -/
def EncryptsAs (cipher : Magenta) (key : Bytes) (forth : Bytes → Bytes) : Prop :=
  ∃ keyed, setKey cipher key = (keyed, .ok ()) ∧
    ∀ block, block.length = 16 →
      encryptBlock keyed block = .ok (forth block) ∧ (forth block).length = 16

theorem encryptsAs_enciphered (written : key ≠ []) (cipher : Magenta)
    (room : 16 * (cipher.rounds + 1) < 2 ^ 63) :
    EncryptsAs cipher key (enciphered cipher.rounds key) := by
  have counted := counted_of_room room
  refine ⟨_, setKey_fits written cipher ((room_iff counted).mpr room), fun block full => ?_⟩
  exact ⟨encryptBlock_keyed rfl (expandKey_ne_nil (keyCount_pos counted) key) full, length_join _⟩

theorem length_runKeys (rounds : Nat) (schedule : List UInt64) :
    (runKeys rounds schedule).length = rounds := by
  rw [runKeys, List.length_map, List.length_range]

/-- Two encryptions differ by what the blocks differ by, spread out. The key is not in it. -/
theorem blockXor_enciphered (rounds : Nat) (key : Bytes) (first : x.length = 16)
    (second : y.length = 16) :
    blockXor (enciphered rounds key x) (enciphered rounds key y) =
      join (spread rounds (split (blockXor x y))) := by
  rw [enciphered, enciphered, ← join_blend, blend_runs, length_runKeys,
    split_blockXor first second]

theorem blockXor_three_enciphered (rounds : Nat) (key : Bytes) (first : x.length = 16)
    (second : y.length = 16) (third : z.length = 16) :
    blockXor (blockXor (enciphered rounds key x) (enciphered rounds key y))
        (enciphered rounds key z) = enciphered rounds key (blockXor (blockXor x y) z) := by
  simp only [enciphered, ← join_blend, blend_three_runs,
    split_blockXor (length_blockXor first second) third, split_blockXor first second]

/-- The cipher encrypts under both keys. Under the first one the encryption of the xor of three
blocks is the xor of their encryptions, and two encryptions have the difference that they have
under the second one. -/
def SharesDifferences (cipher : Magenta) (key other : Bytes) : Prop :=
  ∃ forth forth', EncryptsAs cipher key forth ∧ EncryptsAs cipher other forth' ∧
    ∀ x y z, x.length = 16 → y.length = 16 → z.length = 16 →
      blockXor (blockXor (forth x) (forth y)) (forth z) = forth (blockXor (blockXor x y) z) ∧
      blockXor (forth x) (forth y) = blockXor (forth' x) (forth' y)

/-- MAGENTA is affine with differences that no key changes, whatever its number of rounds, as long
as its round keys can be had. -/
theorem differences_keyless (cipher : Magenta) (room : 16 * (cipher.rounds + 1) < 2 ^ 63)
    (written : key ≠ []) (written' : other ≠ []) : SharesDifferences cipher key other := by
  refine ⟨enciphered cipher.rounds key, enciphered cipher.rounds other,
    encryptsAs_enciphered written cipher room, encryptsAs_enciphered written' cipher room, ?_⟩
  intro x y z first second third
  refine ⟨blockXor_three_enciphered _ key first second third, ?_⟩
  rw [blockXor_enciphered _ key first second, blockXor_enciphered _ other first second]

theorem differences_keyless_standard : SharesDifferences standard [1] [2, 3] :=
  differences_keyless standard (by decide) (List.cons_ne_nil 1 []) (List.cons_ne_nil 2 [3])

/-- Where the round keys cannot be had there are no encryptions to compare. -/
theorem oversize_shares_nothing :
    2 * (2 ^ 59 + 1) < 2 ^ 64 ∧ ¬ SharesDifferences (withRounds (2 ^ 59)) [0] [1] := by
  refine ⟨by decide, ?_⟩
  rintro ⟨_, _, ⟨keyed, taken, _⟩, _⟩
  rw [setKey_uncounted (List.cons_ne_nil 0 [])] at taken
  cases taken

end RoomCipher.MagentaDifferences
