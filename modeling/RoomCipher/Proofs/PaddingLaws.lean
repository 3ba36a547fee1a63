import Mathlib.Data.List.DropRight
import RoomCipher.Padding
import RoomCipher.Proofs.ByteLaws
import RoomCipher.Proofs.Outcomes

/-! What padding adds and what taking it off leaves. All schemes but zero padding
are read from the end: the last byte says how many bytes go, so what comes before
them never matters. Zero padding has no such mark, and takes any zeros of the
message that come last along with its own. -/
namespace RoomCipher.PaddingLaws
open Outcomes Padding

/-! ### Adding -/

theorem needed_ok (positive : 0 < blockSize) (length : Nat) :
    needed length blockSize = .ok (blockSize - length % blockSize) := by
  rw [needed, if_neg (Nat.ne_of_gt positive)]

/-- The message and its padding are a whole number of blocks, the last of which is padded. -/
theorem needed_fills (positive : 0 < blockSize) (length : Nat) :
    0 < blockSize - length % blockSize ∧ blockSize - length % blockSize ≤ blockSize ∧
      blockSize ∣ length + (blockSize - length % blockSize) := by
  have below := Nat.mod_lt length positive
  refine ⟨by omega, by omega, length / blockSize + 1, ?_⟩
  have parts := Nat.div_add_mod length blockSize
  rw [Nat.mul_succ]
  omega

/-- Up to half of what a buffer can hold, a message and its padding have room exactly where one
block has: a shorter message is filled up to that block, and a longer one at most doubled. -/
theorem checkRoom_padded (needs : needed length blockSize = .ok count)
    (held : 2 * length ≤ Bytes.maxLength) :
    Bytes.checkRoom (length + count) = Bytes.checkRoom blockSize := by
  have positive : 0 < blockSize := by
    rcases Nat.eq_zero_or_pos blockSize with none | positive
    · simp [needed, none] at needs
    · exact positive
  cases (needed_ok positive length).symm.trans needs
  rcases Nat.lt_or_ge length blockSize with within | beyond
  · rw [Nat.mod_eq_of_lt within, Nat.add_sub_cancel' (Nat.le_of_lt within)]
  · have filled : length + (blockSize - length % blockSize) ≤ 2 * length := by omega
    rw [ByteLaws.checkRoom_eq_ok.mpr (Nat.le_trans filled held),
      ByteLaws.checkRoom_eq_ok.mpr (by omega)]

@[simp] theorem length_draw (source : Entropy) (count : Nat) :
    (source.draw count).1.length = count := by
  simp [Entropy.draw]

theorem length_filling (scheme : Padding) (positive : 0 < count) (source : Entropy) :
    (filling scheme count source).1.length = count := by
  cases scheme <;> simp [filling] <;> omega

/-- Only noise is drawn. -/
theorem filling_source (determined : scheme ≠ .iso10126) (count : Nat) (source other : Entropy) :
    filling scheme count other = ((filling scheme count source).1, other) := by
  cases scheme with
  | iso10126 => exact absurd rfl determined
  | _ => rfl

/-- A message is padded unless the length of its padding has to fit a byte and does not. -/
theorem add_fitting (positive : 0 < blockSize) (data : Bytes)
    (fits : ¬ (scheme ≠ .zeros ∧ maxLength < blockSize - data.length % blockSize))
    (roomy : blockSize ≤ Bytes.maxLength) (source : Entropy) :
    add scheme blockSize data source =
      .ok (data ++ (filling scheme (blockSize - data.length % blockSize) source).1,
        (filling scheme (blockSize - data.length % blockSize) source).2) := by
  have room := ByteLaws.checkRoom_eq_ok.mpr roomy
  simp only [add, needed_ok positive, bind, Except.bind, fits, ↓reduceIte, room, pure, Except.pure]

theorem add_short (scheme : Padding) (positive : 0 < blockSize) (data : Bytes)
    (short : blockSize - data.length % blockSize ≤ maxLength) (roomy : blockSize ≤ Bytes.maxLength)
    (source : Entropy) :
    add scheme blockSize data source =
      .ok (data ++ (filling scheme (blockSize - data.length % blockSize) source).1,
        (filling scheme (blockSize - data.length % blockSize) source).2) :=
  add_fitting positive data (fun long => Nat.not_lt.mpr short long.2) roomy source

/-- What is not too long to be padded fails where a block is too long for any buffer. -/
theorem add_oversize (positive : 0 < blockSize) (data : Bytes)
    (fits : ¬ (scheme ≠ .zeros ∧ maxLength < blockSize - data.length % blockSize))
    (oversize : ¬ blockSize ≤ Bytes.maxLength) (source : Entropy) :
    add scheme blockSize data source = .error (.aborted .oversize) := by
  have refused := ByteLaws.checkRoom_oversize oversize
  simp only [add, needed_ok positive, bind, Except.bind, fits, ↓reduceIte, refused]

theorem add_long (marked : scheme ≠ .zeros) (positive : 0 < blockSize) (data : Bytes)
    (long : maxLength < blockSize - data.length % blockSize) (source : Entropy) :
    add scheme blockSize data source =
      .error (.padding (.tooLong (blockSize - data.length % blockSize))) := by
  rw [add, needed_ok positive]
  exact if_pos ⟨marked, long⟩

/-- No block of up to 255 bytes is too long to be padded. -/
theorem add_ok (scheme : Padding) (positive : 0 < blockSize) (narrow : blockSize ≤ maxLength)
    (data : Bytes) (source : Entropy) :
    add scheme blockSize data source =
      .ok (data ++ (filling scheme (blockSize - data.length % blockSize) source).1,
        (filling scheme (blockSize - data.length % blockSize) source).2) := by
  have count := (needed_fills positive data.length).2.1
  have byte : maxLength ≤ Bytes.maxLength := by decide
  exact add_short scheme positive data (Nat.le_trans count narrow) (Nat.le_trans narrow byte) source

theorem add_written (written : data ≠ [])
    (added : add scheme blockSize data source = .ok (padded, rest)) : padded ≠ [] := by
  obtain ⟨count, _, filled⟩ := bind_eq_ok.mp added
  split at filled
  · cases filled
  · obtain ⟨_, _, made⟩ := bind_eq_ok.mp filled
    cases made
    exact List.append_ne_nil_of_left_ne_nil written _

/-- Whole blocks in front of a message have no part in its padding. -/
theorem add_append (scheme : Padding) {front : Bytes} (aligned : blockSize ∣ front.length)
    (back : Bytes) (source : Entropy) :
    add scheme blockSize (front ++ back) source =
      (add scheme blockSize back source).map fun (padded, source) => (front ++ padded, source) := by
  obtain ⟨blocks, length⟩ := aligned
  have same : needed (front ++ back).length blockSize = needed back.length blockSize := by
    simp only [needed, List.length_append, length, Nat.mul_add_mod]
  simp only [add, same, bind, Except.bind]
  cases needed back.length blockSize with
  | error e => rfl
  | ok count =>
    simp only
    split
    · rfl
    · cases Bytes.checkRoom blockSize with
      | error e => rfl
      | ok _ => simp [pure, Except.pure, Except.map, List.append_assoc]

/-! ### Removing -/

theorem dropZeros_append (front back : Bytes) :
    dropZeros (front ++ back) =
      if dropZeros back = [] then dropZeros front else front ++ dropZeros back := by
  simp only [dropZeros, List.reverse_append, List.dropWhile_append, List.isEmpty_iff,
    List.reverse_eq_nil_iff]
  split <;> simp

@[simp] theorem dropZeros_replicate (count : Nat) : dropZeros (List.replicate count 0) = [] := by
  simp [dropZeros]

/-- What goes with the zeros at the end of a message is nothing but zeros. -/
theorem dropZeros_lost (data : Bytes) :
    ∃ lost, data = dropZeros data ++ List.replicate lost 0 := by
  have zeros : data.rtakeWhile (· == 0) =
      List.replicate (data.rtakeWhile (· == 0)).length 0 := by
    refine List.eq_replicate_of_mem fun b member => ?_
    simpa using List.mem_rtakeWhile_imp member
  exact ⟨_, zeros ▸ List.rdropWhile_append_rtakeWhile.symm⟩

/-- A message ends where a tail of as many bytes as its last one says begins. PKCS #7 wants them
all to say so. -/
theorem remove_eq_ok (marked : scheme ≠ .zeros) :
    remove scheme data = .ok message ↔
      ∃ tail last, data = message ++ tail ∧ tail.getLast? = some last ∧
        tail.length = last.toNat ∧ (scheme = .pkcs7 → ∀ b ∈ tail, b = last) := by
  constructor
  · intro removed
    rw [remove] at removed
    cases ending : data.getLast? with
    | none => simp [ending] at removed
    | some last =>
      simp only [ending, marked, ↓reduceIte] at removed
      split at removed
      · cases removed
      next fits =>
        have bound : last.toNat ≤ data.length := by omega
        have tail_full : (data.drop (data.length - last.toNat)).length = last.toNat := by
          rw [List.length_drop]
          omega
        split at removed
        · cases removed
        next alike =>
          cases removed
          refine ⟨data.drop (data.length - last.toNat), last, by simp, ?_, tail_full, ?_⟩
          · rw [List.getLast?_drop, if_neg (by omega), ending]
          · intro strict b member
            simp only [strict, true_and, Decidable.not_not, List.all_eq_true, beq_iff_eq] at alike
            exact alike b member
  · rintro ⟨tail, last, rfl, ending, length, alike⟩
    have written : tail ≠ [] := by
      rintro rfl
      simp at ending
    have positive := List.length_pos_iff.mpr written
    have fits : ¬ (last.toNat = 0 ∨ (message ++ tail).length < last.toNat) := by
      rw [List.length_append]
      omega
    have start : (message ++ tail).length - last.toNat = message.length := by
      rw [List.length_append]
      omega
    have uniform : ¬ (scheme = .pkcs7 ∧ ¬ tail.all (· == last)) := by
      rintro ⟨strict, mixed⟩
      exact mixed (List.all_eq_true.mpr fun b member => beq_iff_eq.mpr (alike strict b member))
    rw [remove, List.getLast?_append, ending, Option.some_or]
    simp only [marked, ↓reduceIte, fits, start, List.drop_left, List.take_left, uniform]

theorem remove_zeros (written : data ≠ []) : remove .zeros data = .ok (dropZeros data) := by
  rw [remove]
  cases ending : data.getLast? with
  | none => exact absurd (List.getLast?_eq_none_iff.mp ending) written
  | some last => rfl

/-- Bytes in front of a marked tail stay in front of what is left of it. -/
theorem remove_append (marked : scheme ≠ .zeros) (front tail rest : Bytes) :
    remove scheme (front ++ tail) = .ok (front ++ rest) ↔ remove scheme tail = .ok rest := by
  simp only [remove_eq_ok marked, List.append_assoc, List.append_cancel_left_eq]

/-- The same under any padding, as long as it leaves something of the tail: zeros could go on into
what is in front. -/
theorem remove_behind (kept : scheme = .zeros → rest ≠ []) (front tail : Bytes) :
    remove scheme (front ++ tail) = .ok (front ++ rest) ↔ remove scheme tail = .ok rest := by
  by_cases unmarked : scheme = .zeros
  · subst unmarked
    have left := List.length_pos_iff.mpr (kept rfl)
    have shorter : dropZeros front ≠ front ++ rest := by
      intro same
      have bound : (dropZeros front).length ≤ front.length :=
        (List.rdropWhile_prefix (· == 0) front).length_le
      rw [same, List.length_append] at bound
      omega
    by_cases written : tail = []
    · have empty : remove .zeros [] ≠ .ok rest := nofun
      rw [written, List.append_nil]
      refine iff_of_false ?_ empty
      intro removed
      by_cases nothing : front = []
      · rw [nothing] at removed
        cases removed
      · exact shorter (Except.ok.inj ((remove_zeros nothing).symm.trans removed))
    · rw [remove_zeros written, remove_zeros (List.append_ne_nil_of_right_ne_nil front written),
        Except.ok.injEq, Except.ok.injEq, dropZeros_append]
      split
      next zeros =>
        rw [zeros]
        exact iff_of_false shorter (kept rfl).symm
      next => rw [List.append_cancel_left_eq]
  · exact remove_append unmarked front tail rest

theorem dropZeros_reach {front tail : Bytes}
    (reach : front.length ≤ (dropZeros (front ++ tail)).length) :
    dropZeros (front ++ tail) = front ++ dropZeros tail := by
  rw [dropZeros_append] at reach ⊢
  split
  next zeros =>
    rw [if_pos zeros] at reach
    have kept : dropZeros front = front :=
      (List.rdropWhile_prefix (· == 0) front).eq_of_length_le reach
    rw [zeros, kept, List.append_nil]
  next => rfl

/-- Taking the padding off the end of a message alone is taking it off the message exactly if the
padding does not reach into what is in front. -/
theorem remove_agrees_iff (front : Bytes) (written : tail ≠ []) :
    (∀ message, remove scheme (front ++ tail) = .ok message ↔
      (remove scheme tail).map (front ++ ·) = .ok message) ↔
    ∀ message, remove scheme (front ++ tail) = .ok message → front.length ≤ message.length := by
  simp only [map_eq_ok]
  constructor
  · intro agree message removed
    obtain ⟨rest, _, rfl⟩ := (agree message).mp removed
    rw [List.length_append]
    exact Nat.le_add_right _ _
  · intro reach message
    by_cases unmarked : scheme = .zeros
    · subst unmarked
      have whole := remove_zeros (List.append_ne_nil_of_right_ne_nil front written)
      have same := dropZeros_reach (reach _ whole)
      simp [whole, remove_zeros written, same]
    · constructor
      · intro removed
        obtain ⟨padding, last, whole, _⟩ := (remove_eq_ok unmarked).mp removed
        obtain ⟨rest, rfl⟩ := List.prefix_of_prefix_length_le (List.prefix_append front tail)
          (whole ▸ List.prefix_append message padding) (reach message removed)
        exact ⟨rest, (remove_append unmarked front tail rest).mp removed, rfl⟩
      · rintro ⟨rest, removed, rfl⟩
        exact (remove_append unmarked front tail rest).mpr removed

/-- However many zeros are put on, they come off, and the last zeros of the data with them. -/
theorem remove_zeros_filled (positive : 0 < count) (data : Bytes) :
    remove .zeros (data ++ List.replicate count 0) = .ok (dropZeros data) := by
  have written : data ++ List.replicate count 0 ≠ [] := by
    simp [Nat.ne_of_gt positive]
  rw [remove_zeros written, dropZeros_append, if_pos (dropZeros_replicate count)]

/-- Padding comes off again, and under zero padding the last zeros of the message with it. -/
theorem remove_filled (scheme : Padding) (positive : 0 < count) (short : count ≤ maxLength)
    (data : Bytes) (source : Entropy) :
    remove scheme (data ++ (filling scheme count source).1) =
      .ok (if scheme = .zeros then dropZeros data else data) := by
  by_cases unmarked : scheme = .zeros
  · subst unmarked
    exact remove_zeros_filled positive data
  · rw [if_neg unmarked]
    have byte : (UInt8.ofNat count).toNat = count :=
      Nat.mod_eq_of_lt (Nat.lt_of_le_of_lt short (by decide))
    refine (remove_eq_ok unmarked).mpr ⟨_, UInt8.ofNat count, rfl, ?_,
      (length_filling scheme positive source).trans byte.symm, ?_⟩
    · cases scheme with
      | zeros => exact absurd rfl unmarked
      | ansiX923 => simp [filling]
      | iso10126 => simp [filling]
      | pkcs7 => simp [filling, List.getLast?_replicate, Nat.ne_of_gt positive]
    · rintro rfl b member
      exact List.eq_of_mem_replicate member

/-- PKCS #7 accepts what it could have written for blocks of some size, whatever their size is. -/
theorem remove_pkcs7 (source : Entropy) :
    remove .pkcs7 data = .ok message ↔
      ∃ count, 0 < count ∧ count ≤ maxLength ∧
        data = message ++ (filling .pkcs7 count source).1 := by
  constructor
  · intro removed
    obtain ⟨tail, last, rfl, ending, length, alike⟩ := (remove_eq_ok (by decide)).mp removed
    have written : tail ≠ [] := by
      rintro rfl
      simp at ending
    have uniform : tail = List.replicate last.toNat (UInt8.ofNat last.toNat) := by
      rw [UInt8.ofNat_toNat]
      exact List.eq_replicate_iff.mpr ⟨length, alike rfl⟩
    refine ⟨last.toNat, ?_, Nat.le_of_lt_succ last.toNat_lt, by rw [uniform, filling]⟩
    rw [← length]
    exact List.length_pos_iff.mpr written
  · rintro ⟨count, positive, short, rfl⟩
    exact remove_filled .pkcs7 positive short message source

/-- Up to a block, only one number of bytes fills the last block of a message. -/
theorem needed_unique (positive : 0 < count) (fits : count ≤ blockSize)
    (aligned : blockSize ∣ length + count) : count = blockSize - length % blockSize := by
  have below := Nat.mod_lt length (Nat.lt_of_lt_of_le positive fits)
  rw [← Nat.div_add_mod length blockSize, Nat.add_assoc] at aligned
  have rest := (Nat.dvd_add_right (Nat.dvd_mul_right blockSize _)).mp aligned
  have whole : length % blockSize + count = blockSize :=
    Nat.eq_of_dvd_of_lt_two_mul (by omega) rest (by omega)
  omega

/-- What padding does to a message, all in all: it completes the last block, comes off again, and is
the same every time unless it is noise. -/
theorem add_fills (scheme : Padding) (positive : 0 < blockSize) (narrow : blockSize ≤ maxLength)
    (data : Bytes) (source : Entropy) :
    ∃ tail rest, add scheme blockSize data source = .ok (data ++ tail, rest) ∧
      tail.length = blockSize - data.length % blockSize ∧ blockSize ∣ (data ++ tail).length ∧
      remove scheme (data ++ tail) = .ok (if scheme = .zeros then dropZeros data else data) ∧
      (scheme ≠ .iso10126 →
        ∀ other, add scheme blockSize data other = .ok (data ++ tail, other)) := by
  obtain ⟨needs, fits, whole⟩ := needed_fills positive data.length
  have length := length_filling scheme needs source
  refine ⟨_, _, add_ok scheme positive narrow data source, length, ?_,
    remove_filled scheme needs (Nat.le_trans fits narrow) data source, ?_⟩
  · rw [List.length_append, length]
    exact whole
  · intro determined other
    rw [add_ok scheme positive narrow data other, filling_source determined _ source other]

end RoomCipher.PaddingLaws
