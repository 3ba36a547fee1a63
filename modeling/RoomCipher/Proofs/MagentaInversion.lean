import Mathlib.Algebra.Group.Nat.Defs
import RoomCipher.Cipher.Magenta
import RoomCipher.Proofs.ByteLaws
import RoomCipher.Proofs.CipherPermutation

/-! The inverse rounds of MAGENTA take back its rounds. A word xored with its own
shift is recovered by doing the same with twice the shift, and again, until the
shift has left the word. Since such steps commute with one another, what undoes
them from behind undoes them from the front as well. -/
namespace RoomCipher.MagentaInversion
open Magenta ByteLaws CipherPermutation

/-! ### A word xored with its own shift -/

/-- What a shift by any number of places has to do with itself and with exclusive-or. -/
structure Shifting (shift : UInt64 → Nat → UInt64) : Prop where
  xor : ∀ x y n, shift (x ^^^ y) n = shift x n ^^^ shift y n
  add : ∀ x m n, shift (shift x m) n = shift x (m + n)
  gone : ∀ x n, 64 ≤ n → shift x n = 0

/-- A word xored with its own shift. -/
def smear (shift : UInt64 → Nat → UInt64) (amount : Nat) (x : UInt64) : UInt64 :=
  x ^^^ shift x amount

def shiftLeft (x : UInt64) (amount : Nat) : UInt64 := ⟨x.toBitVec <<< amount⟩

def shiftRight (x : UInt64) (amount : Nat) : UInt64 := ⟨x.toBitVec >>> amount⟩

theorem shifting_left : Shifting shiftLeft where
  xor x y n := UInt64.toBitVec_inj.mp (BitVec.shiftLeft_xor_distrib x.toBitVec y.toBitVec n)
  add x m n := UInt64.toBitVec_inj.mp (BitVec.shiftLeft_add x.toBitVec m n).symm
  gone _ _ far := UInt64.toBitVec_inj.mp (BitVec.shiftLeft_eq_zero far)

theorem shifting_right : Shifting shiftRight where
  xor x y n := UInt64.toBitVec_inj.mp (BitVec.ushiftRight_xor_distrib x.toBitVec y.toBitVec n)
  add x m n := UInt64.toBitVec_inj.mp (BitVec.shiftRight_add x.toBitVec m n).symm
  gone _ _ far := UInt64.toBitVec_inj.mp (BitVec.ushiftRight_eq_zero far)

section Smear

variable {shift : UInt64 → Nat → UInt64} (shifting : Shifting shift)
include shifting

/-- The two middle terms cancel. -/
theorem smear_twice (amount : Nat) (x : UInt64) :
    smear shift amount (smear shift amount x) = smear shift (amount * 2) x := by
  simp only [smear, shifting.xor, shifting.add, Nat.mul_two]
  rw [UInt64.xor_assoc, ← UInt64.xor_assoc (shift x amount), UInt64.xor_self, UInt64.zero_xor]

theorem smear_comm (m n : Nat) (x : UInt64) :
    smear shift m (smear shift n x) = smear shift n (smear shift m x) := by
  simp only [smear, shifting.xor, shifting.add, Nat.add_comm m n, UInt64.xor_assoc]
  rw [← UInt64.xor_assoc (shift x n), UInt64.xor_comm (shift x n), UInt64.xor_assoc]

theorem smear_gone (far : 64 ≤ amount) (x : UInt64) : smear shift amount x = x := by
  rw [smear, shifting.gone x amount far, UInt64.xor_zero]

/-- Doubling the shift time and again takes a smeared word further and further apart. -/
theorem smear_doubled (amount times : Nat) (x : UInt64) :
    ((List.range times).map (2 ^ ·)).foldl (fun y factor => smear shift (amount * factor) y)
      (smear shift amount x) = smear shift (amount * 2 ^ times) x := by
  induction times with
  | zero => simp
  | succ times ih =>
    rw [List.range_succ, List.map_append, List.foldl_append, ih, List.map_singleton,
      List.foldl_cons, List.foldl_nil, smear_twice shifting, Nat.pow_succ, Nat.mul_assoc]

theorem foldl_smear_comm (amount : Nat) (amounts : List Nat) (x : UInt64) :
    smear shift amount (amounts.foldl (fun y factor => smear shift (amount * factor) y) x) =
      amounts.foldl (fun y factor => smear shift (amount * factor) y) (smear shift amount x) := by
  induction amounts generalizing x with
  | nil => rfl
  | cons factor rest ih =>
    rw [List.foldl_cons, ih, List.foldl_cons, smear_comm shifting]

/-- Six doublings take any shift out of a word, so they undo what was smeared by it. -/
theorem foldl_doublings (positive : 0 < amount) (x : UInt64) :
    doublings.foldl (fun y factor => smear shift (amount * factor) y) (smear shift amount x) =
      x := by
  have powers : doublings = (List.range 6).map (2 ^ ·) := rfl
  rw [powers, smear_doubled shifting, smear_gone shifting (by omega)]

end Smear

theorem undoShiftLeft_eq (y : UInt64) (amount : Nat) : undoShiftLeft y amount =
    doublings.foldl (fun x factor => smear shiftLeft (amount * factor) x) y := by
  rw [undoShiftLeft]
  congr 1
  funext x factor
  split
  case isTrue small =>
    simp only [smear, shiftLeft]
    have places : (UInt64.ofNat (amount * factor)).toNat = amount * factor :=
      Nat.mod_eq_of_lt (by omega)
    rw [← UInt64.ofBitVec_toBitVec (x <<< UInt64.ofNat (amount * factor)),
      toBitVec_shiftLeft x _ (by omega), places]
  case isFalse far => exact (smear_gone shifting_left (by omega) x).symm

theorem undoShiftRight_eq (y : UInt64) (amount : Nat) : undoShiftRight y amount =
    doublings.foldl (fun x factor => smear shiftRight (amount * factor) x) y := by
  rw [undoShiftRight]
  congr 1
  funext x factor
  split
  case isTrue small =>
    simp only [smear, shiftRight]
    have places : (UInt64.ofNat (amount * factor)).toNat = amount * factor :=
      Nat.mod_eq_of_lt (by omega)
    rw [← UInt64.ofBitVec_toBitVec (x >>> UInt64.ofNat (amount * factor)),
      toBitVec_shiftRight x _ (by omega), places]
  case isFalse far => exact (smear_gone shifting_right (by omega) x).symm

theorem undoShiftLeft_smear (positive : 0 < amount) (x : UInt64) :
    undoShiftLeft (smear shiftLeft amount x) amount = x := by
  rw [undoShiftLeft_eq, foldl_doublings shifting_left positive]

theorem smear_undoShiftLeft (positive : 0 < amount) (y : UInt64) :
    smear shiftLeft amount (undoShiftLeft y amount) = y := by
  rw [undoShiftLeft_eq, foldl_smear_comm shifting_left, foldl_doublings shifting_left positive]

theorem undoShiftRight_smear (positive : 0 < amount) (x : UInt64) :
    undoShiftRight (smear shiftRight amount x) amount = x := by
  rw [undoShiftRight_eq, foldl_doublings shifting_right positive]

theorem smear_undoShiftRight (positive : 0 < amount) (y : UInt64) :
    smear shiftRight amount (undoShiftRight y amount) = y := by
  rw [undoShiftRight_eq, foldl_smear_comm shifting_right, foldl_doublings shifting_right positive]

/-! ### Rounds -/

theorem substitute_eq (x : UInt64) :
    substitute x = smear shiftRight 2 (smear shiftLeft 3 x) := rfl

theorem diffuse_eq (x : UInt64) : diffuse x = smear shiftRight 1 x := rfl

theorem unsubstitute_substitute (x : UInt64) : unsubstitute (substitute x) = x := by
  rw [substitute_eq, unsubstitute, undoShiftRight_smear (by decide),
    undoShiftLeft_smear (by decide)]

theorem substitute_unsubstitute (y : UInt64) : substitute (unsubstitute y) = y := by
  rw [substitute_eq, unsubstitute, smear_undoShiftLeft (by decide),
    smear_undoShiftRight (by decide)]

theorem undiffuse_diffuse (x : UInt64) : undiffuse (diffuse x) = x := by
  rw [diffuse_eq, undiffuse, undoShiftRight_smear (by decide)]

theorem diffuse_undiffuse (y : UInt64) : diffuse (undiffuse y) = y := by
  rw [diffuse_eq, undiffuse, smear_undoShiftRight (by decide)]

theorem unround_round (words : UInt64 × UInt64) (key : UInt64) :
    unround key (round words key) = words := by
  obtain ⟨a, b⟩ := words
  simp only [Magenta.round, unround, xor_twice, undiffuse_diffuse]
  rw [UInt64.xor_assoc _ b key, UInt64.xor_comm b key, ← UInt64.xor_assoc]
  simp only [xor_twice, unsubstitute_substitute]

theorem round_unround (key : UInt64) (words : UInt64 × UInt64) :
    round (unround key words) key = words := by
  obtain ⟨a, b⟩ := words
  simp only [Magenta.round, unround, substitute_unsubstitute, diffuse_undiffuse]
  generalize undiffuse (b ^^^ a) = right
  rw [UInt64.xor_assoc _ right key, UInt64.xor_comm right key, ← UInt64.xor_assoc]
  simp only [xor_twice]

/-- The two words of a block, either of them any word. -/
def layout : Layout (UInt64 × UInt64) blockBytes where
  split := split
  join := join
  Fits _ := True
  split_fits _ _ := trivial
  length_join words := by simp [join, blockBytes]
  split_join := by
    rintro ⟨a, b⟩ -
    have width : (Bytes.ofLittleEndian 8 a.toNat).length = 8 := length_ofLittleEndian 8 _
    simp only [split, join, List.take_left' width, List.drop_left' width, word_ofLittleEndian]
  join_split := by
    intro block full
    obtain ⟨front, back⟩ := length_take_drop (m := 8) (n := 8) full
    simp only [join, split, ofLittleEndian_word _ front, ofLittleEndian_word _ back,
      List.take_append_drop]

theorem split_join (words : UInt64 × UInt64) : split (join words) = words :=
  layout.split_join words trivial

theorem join_split (full : block.length = 16) : join (split block) = block :=
  layout.join_split block full

/-- A cipher with round keys runs its rounds over the words of a block. -/
theorem encryptBlock_keyed {cipher : Magenta} {keys : List UInt64} {block : Bytes}
    (keyed : cipher.roundKeys = some keys) (present : keys ≠ []) (full : block.length = blockBytes) :
    encryptBlock cipher block =
      .ok (join ((runKeys cipher.rounds keys).foldl round (split block))) := by
  simp only [encryptBlock, onBlock, keyed, full, present, false_and, ↓reduceIte]

theorem decryptBlock_keyed {cipher : Magenta} {keys : List UInt64} {block : Bytes}
    (keyed : cipher.roundKeys = some keys) (present : keys ≠ []) (full : block.length = blockBytes) :
    decryptBlock cipher block =
      .ok (join ((runKeys cipher.rounds keys).foldr unround (split block))) := by
  simp only [decryptBlock, onBlock, keyed, full, present, false_and, ↓reduceIte]

/-- Under any round keys at all MAGENTA permutes the blocks of 16 bytes. -/
theorem permutes {cipher : Magenta} {keys : List UInt64} (keyed : cipher.roundKeys = some keys)
    (present : keys ≠ []) : Permutes cipher blockBytes := by
  refine layout.permutes ((runKeys cipher.rounds keys).foldl round)
    ((runKeys cipher.rounds keys).foldr unround)
    (fun _ full => encryptBlock_keyed keyed present full)
    (fun _ full => decryptBlock_keyed keyed present full)
    (fun _ _ => trivial) (fun _ _ => trivial) ?_ ?_
  · intro words _
    exact foldr_undo_foldl (fun _ => True) id (fun _ _ _ => trivial)
      (fun state key _ => unround_round state key) _ words trivial
  · intro words _
    exact foldl_step_foldr (fun _ => True) id (fun _ _ _ => trivial)
      (fun key state _ => round_unround key state) _ words trivial

/-! ### The number of round keys -/

variable {rounds : Nat}

theorem keyCount_eq (counted : 2 * (rounds + 1) < 2 ^ 64) : keyCount rounds = 2 * (rounds + 1) :=
  Nat.mod_eq_of_lt counted

theorem keyCount_pos (counted : 2 * (rounds + 1) < 2 ^ 64) : 0 < keyCount rounds := by
  rw [keyCount_eq counted]
  exact Nat.mul_pos Nat.two_pos (Nat.succ_pos _)

theorem length_expandKey (rounds : Nat) (key : Bytes) :
    (expandKey rounds key).length = keyCount rounds := by
  rw [expandKey, List.length_map, List.length_range]

theorem expandKey_eq_nil : expandKey rounds key = [] ↔ keyCount rounds = 0 := by
  rw [← List.length_eq_zero_iff, length_expandKey]

theorem expandKey_ne_nil (present : 0 < keyCount rounds) (key : Bytes) :
    expandKey rounds key ≠ [] :=
  fun none => Nat.ne_of_gt present (expandKey_eq_nil.mp none)

/-- No round keys at all are counted only where there are rounds to want one. -/
theorem rounds_ne_zero (none : keyCount rounds = 0) : rounds ≠ 0 := by
  rintro rfl
  cases none

/-- Rounds that find no round keys answer no block. -/
theorem onBlock_scheduleless (wanted : rounds ≠ 0) (block : Bytes)
    (rounding : List UInt64 → UInt64 × UInt64 → UInt64 × UInt64) :
    ∃ e, onBlock ⟨rounds, some []⟩ block rounding = .error e := by
  by_cases full : block.length = blockBytes
  · refine ⟨.aborted .emptySchedule, ?_⟩
    simp only [onBlock, full, wanted, ne_eq, not_false_eq_true, and_self, ↓reduceIte]
  · exact ⟨_, if_neg full⟩

/-! ### Every number of rounds -/

/-- The round keys that can be had are had for every key but the empty one. -/
theorem setKey_fits (written : key ≠ []) (cipher : Magenta)
    (room : scheduleBytes cipher.rounds < 2 ^ 63) : setKey cipher key =
      ({ cipher with roundKeys := some (expandKey cipher.rounds key) }, .ok ()) := by
  have short : scheduleBytes cipher.rounds ≤ Bytes.maxLength := Nat.le_pred_of_lt room
  simp only [setKey, if_neg written, checkRoom_eq_ok.mpr short]

/-- Round keys that would take up more bytes than a buffer can hold are not made. -/
theorem setKey_oversize (written : key ≠ []) (cipher : Magenta)
    (long : ¬ scheduleBytes cipher.rounds < 2 ^ 63) :
    setKey cipher key = (cipher, .error (.aborted .oversize)) := by
  have short : ¬ scheduleBytes cipher.rounds ≤ Bytes.maxLength :=
    fun short => long (Nat.lt_succ_of_le short)
  simp only [setKey, if_neg written, checkRoom_oversize short]

/-- A key that is taken leaves its round keys behind. -/
theorem setKey_keyed {cipher keyed : Magenta} (taken : setKey cipher key = (keyed, .ok ())) :
    keyed = { cipher with roundKeys := some (expandKey cipher.rounds key) } := by
  by_cases written : key = []
  · rw [setKey, if_pos written] at taken
    cases taken
  · by_cases room : scheduleBytes cipher.rounds < 2 ^ 63
    · rw [setKey_fits written cipher room] at taken
      cases taken
      rfl
    · rw [setKey_oversize written cipher room] at taken
      cases taken

/-- A key that is taken makes a permutation of the cipher if it makes any round keys. -/
theorem permutes_taken {cipher keyed : Magenta} (present : 0 < keyCount cipher.rounds)
    (taken : setKey cipher key = (keyed, .ok ())) : Permutes keyed blockBytes := by
  rw [setKey_keyed taken]
  exact permutes rfl (expandKey_ne_nil present key)

/-- A key that is taken and makes no round keys leaves a cipher of no use. -/
theorem mute_taken {cipher keyed : Magenta} (none : keyCount cipher.rounds = 0)
    (taken : setKey cipher key = (keyed, .ok ())) : Mute keyed := by
  have wanted := rounds_ne_zero none
  rw [setKey_keyed taken, expandKey_eq_nil.mpr none]
  exact fun block => ⟨onBlock_scheduleless wanted block (fun keys words => keys.foldl round words),
    onBlock_scheduleless wanted block (fun keys words => keys.foldr unround words)⟩

/-- With whatever number of rounds and whatever keys it has had, MAGENTA takes every key but the
empty one and permutes the blocks of 16 bytes under it exactly if there are round keys by the count
of a machine word, and not more than a buffer can hold. -/
theorem setKey_permutes_iff_room (cipher : Magenta) (written : key ≠ []) :
    (∃ keyed, setKey cipher key = (keyed, .ok ()) ∧ Permutes keyed 16) ↔
      0 < keyCount cipher.rounds ∧ scheduleBytes cipher.rounds < 2 ^ 63 := by
  constructor
  · rintro ⟨keyed, taken, answers⟩
    refine ⟨Nat.pos_of_ne_zero fun none => ?_, ?_⟩
    · -- An empty schedule is taken, and then gives the first round no key.
      obtain ⟨out, answer, _⟩ := answers.encrypts (List.replicate 16 0) List.length_replicate
      obtain ⟨⟨e, refused⟩, _⟩ := mute_taken none taken (List.replicate 16 0)
      cases refused.symm.trans answer
    · refine Decidable.byContradiction fun long => ?_
      rw [setKey_oversize written cipher long] at taken
      cases taken
  · rintro ⟨present, room⟩
    have taken := setKey_fits written cipher room
    exact ⟨_, taken, permutes_taken present taken⟩

theorem counted_of_room (room : 16 * (rounds + 1) < 2 ^ 63) : 2 * (rounds + 1) < 2 ^ 64 := by
  omega

/-- Round keys that can be counted can be had if 16 bytes for each round, and for one more, are a
number with a sign. -/
theorem room_iff (counted : 2 * (rounds + 1) < 2 ^ 64) :
    scheduleBytes rounds < 2 ^ 63 ↔ 16 * (rounds + 1) < 2 ^ 63 := by
  rw [scheduleBytes, keyCount_eq counted, ← Nat.mul_assoc]

/-- With any number of rounds whose round keys can be counted, and whatever keys it has had, MAGENTA
takes every key but the empty one and permutes the blocks of 16 bytes under it, as long as the 16
bytes that the round keys take up for each round, and for one more, can be counted by a signed
number. -/
theorem setKey_permutes_iff (cipher : Magenta) (counted : 2 * (cipher.rounds + 1) < 2 ^ 64)
    (written : key ≠ []) :
    (∃ keyed, setKey cipher key = (keyed, .ok ()) ∧ Permutes keyed 16) ↔
      16 * (cipher.rounds + 1) < 2 ^ 63 := by
  rw [setKey_permutes_iff_room cipher written, and_iff_right (keyCount_pos counted),
    room_iff counted]

/-- The largest number of rounds that can be had, under a key that takes the place of another. -/
theorem setKey_permutes_iff_most :
    2 * (2 ^ 59 - 2 + 1) < 2 ^ 64 ∧
      ∃ keyed, setKey (setKey (withRounds (2 ^ 59 - 2)) [7]).1 [1, 2] = (keyed, .ok ()) ∧
        Permutes keyed 16 := by
  have counted : 2 * (2 ^ 59 - 2 + 1) < 2 ^ 64 := by decide
  have room : 16 * (2 ^ 59 - 2 + 1) < 2 ^ 63 := by decide
  have before := setKey_fits (List.cons_ne_nil 7 []) (withRounds (2 ^ 59 - 2))
    ((room_iff counted).mpr room)
  rw [before]
  exact ⟨counted, (setKey_permutes_iff _ counted (List.cons_ne_nil 1 [2])).mpr room⟩

/-- With 2 ^ 59 rounds the round keys can be counted, and their bytes cannot. -/
theorem setKey_uncounted (written : key ≠ []) :
    setKey (withRounds (2 ^ 59)) key = (withRounds (2 ^ 59), .error (.aborted .oversize)) := by
  have long : ¬ scheduleBytes (2 ^ 59) < 2 ^ 63 := by
    rw [room_iff (by decide)]
    decide
  exact setKey_oversize written (withRounds (2 ^ 59)) long

/-- A cipher of so many rounds stays without a key, and no block is answered. -/
theorem oversize_stays_unkeyed :
    2 * (2 ^ 59 + 1) < 2 ^ 64 ∧
      setKey (withRounds (2 ^ 59)) [0] = (withRounds (2 ^ 59), .error (.aborted .oversize)) ∧
      ∀ block, encryptBlock (setKey (withRounds (2 ^ 59)) [0]).1 block =
          .error (.crypto .keyNotSet) ∧
        decryptBlock (setKey (withRounds (2 ^ 59)) [0]).1 block = .error (.crypto .keyNotSet) := by
  have refused := setKey_uncounted (List.cons_ne_nil 0 [])
  refine ⟨by decide, refused, fun block => ?_⟩
  rw [refused]
  exact ⟨rfl, rfl⟩

end RoomCipher.MagentaInversion
