import Mathlib.Order.Bounds.Defs
import RoomCipher.Proofs.PaddingLaws

/-! Which data are padded messages. A scheme tells the message from the padding by its grammar
alone: neither the size of a block nor the length of the data enters into it, so what it accepts is
a message followed by up to 255 bytes of padding, or by zeros. Padding a message writes such data,
as short as whole blocks allow, and fails only where the length of the padding does not fit a byte
or a block does not fit into memory. -/
namespace RoomCipher.PaddingGrammar
open Padding PaddingLaws

/-- Bytes that do not end in a zero. -/
def Bare (message : Bytes) : Prop := message.getLast? ≠ some 0

/-- Data that a scheme reads as a message with its padding. -/
def Padded (scheme : Padding) (message data : Bytes) : Prop :=
  match scheme with
  | .zeros => data ≠ [] ∧ Bare message ∧ ∃ count, data = message ++ List.replicate count 0
  | .pkcs7 => ∃ count, 1 ≤ count ∧ count ≤ 255 ∧
      data = message ++ List.replicate count (UInt8.ofNat count)
  | .ansiX923 | .iso10126 => ∃ tail : Bytes, 1 ≤ tail.length ∧ tail.length ≤ 255 ∧
      tail.getLast? = some (UInt8.ofNat tail.length) ∧ data = message ++ tail

/-! ### Taking padding off -/

/-- What is left without the zeros at the end is the one part in front of zeros that does not end
in a zero itself. -/
theorem dropZeros_eq_iff :
    dropZeros data = message ↔ Bare message ∧ ∃ count, data = message ++ List.replicate count 0 := by
  constructor
  · rintro rfl
    refine ⟨?_, dropZeros_lost data⟩
    intro ending
    have written : dropZeros data ≠ [] := by
      intro nothing
      simp [nothing] at ending
    have last := List.rdropWhile_last_not (· == 0) data written
    rw [List.getLast?_eq_some_getLast written] at ending
    exact last (beq_iff_eq.mpr (Option.some.inj ending))
  · rintro ⟨bare, count, rfl⟩
    rw [dropZeros_append, if_pos (dropZeros_replicate count)]
    refine List.rdropWhile_eq_self_iff.mpr ?_
    intro written zero
    rw [Bare, List.getLast?_eq_some_getLast written] at bare
    exact bare (congrArg some (beq_iff_eq.mp zero))

theorem remove_zeros_eq_ok :
    remove .zeros data = .ok message ↔ data ≠ [] ∧ dropZeros data = message := by
  constructor
  · intro removed
    have written : data ≠ [] := by
      rintro rfl
      cases removed
    rw [remove_zeros written] at removed
    exact ⟨written, Except.ok.inj removed⟩
  · rintro ⟨written, rfl⟩
    exact remove_zeros written

/-- Schemes that look at nothing but the last byte take off any bytes that it counts. -/
theorem remove_counted (marked : scheme ≠ .zeros) (lenient : scheme ≠ .pkcs7) :
    remove scheme data = .ok message ↔
      ∃ tail : Bytes, 1 ≤ tail.length ∧ tail.length ≤ 255 ∧
        tail.getLast? = some (UInt8.ofNat tail.length) ∧ data = message ++ tail := by
  rw [remove_eq_ok marked]
  constructor
  · rintro ⟨tail, last, rfl, ending, length, _⟩
    have written : tail ≠ [] := by
      rintro rfl
      cases ending
    refine ⟨tail, List.length_pos_iff.mpr written, ?_, ?_, rfl⟩
    · rw [length]
      exact Nat.le_of_lt_succ last.toNat_lt
    · rw [ending, length, UInt8.ofNat_toNat]
  · rintro ⟨tail, _, short, ending, rfl⟩
    have byte : (UInt8.ofNat tail.length).toNat = tail.length :=
      Nat.mod_eq_of_lt (Nat.lt_succ_of_le short)
    exact ⟨tail, _, rfl, ending, byte.symm, fun strict => absurd strict lenient⟩

/-- Removal follows the grammar. -/
theorem remove_eq_ok_iff_padded (scheme : Padding) (data message : Bytes) :
    remove scheme data = .ok message ↔ Padded scheme message data := by
  cases scheme with
  | zeros => rw [remove_zeros_eq_ok, dropZeros_eq_iff, Padded]
  | ansiX923 => exact remove_counted (by decide) (by decide)
  | iso10126 => exact remove_counted (by decide) (by decide)
  | pkcs7 => exact remove_pkcs7 ⟨fun _ => 0, 0, 0⟩

/-! ### Putting padding on -/

/-- Whether the padding of so many bytes is too long for its last byte to say how long it is. -/
def Overlong (scheme : Padding) (blockSize length : Nat) : Prop :=
  scheme ≠ .zeros ∧ 255 < blockSize - length % blockSize

/-- What a message comes to: the whole blocks that are the first to be longer than it is, with the
message in front. The padding comes off again, and with zero padding the zeros that the message ends
in. -/
structure Completes (scheme : Padding) (blockSize : Nat) (data padded : Bytes) : Prop where
  next_multiple : IsLeast {length | blockSize ∣ length ∧ data.length < length} padded.length
  starts : data <+: padded
  comes_off : ∃ message, remove scheme padded = .ok message ∧
    if scheme = .zeros then Bare message ∧ ∃ count, data = message ++ List.replicate count 0
    else message = data

/-- The padding of a message is the least there can be. -/
theorem length_padded (positive : 1 ≤ blockSize) (length : Nat) :
    IsLeast {n | blockSize ∣ n ∧ length < n} (length + (blockSize - length % blockSize)) := by
  obtain ⟨some_bytes, _, whole⟩ := needed_fills positive length
  refine ⟨⟨whole, Nat.lt_add_of_pos_right some_bytes⟩, ?_⟩
  rintro n ⟨⟨blocks, rfl⟩, longer⟩
  have parts := Nat.div_add_mod length blockSize
  have below := Nat.mod_lt length positive
  have further : length / blockSize < blocks := (Nat.div_lt_iff_lt_mul positive).mpr (by
    rwa [Nat.mul_comm] at longer)
  have enough := Nat.mul_le_mul_left blockSize further
  rw [Nat.mul_succ] at enough
  omega

/-- A message is completed whenever its padding is not too long and a block can be had. -/
theorem add_completes (positive : 1 ≤ blockSize) (fits : ¬ Overlong scheme blockSize data.length)
    (roomy : blockSize ≤ Bytes.maxLength) (source : Entropy) :
    ∃ padded rest, add scheme blockSize data source = .ok (padded, rest) ∧
      Completes scheme blockSize data padded := by
  obtain ⟨some_bytes, _, _⟩ := needed_fills positive data.length
  refine ⟨_, _, add_fitting positive data fits roomy source, ?_, List.prefix_append _ _, ?_⟩
  · rw [List.length_append, length_filling scheme some_bytes source]
    exact length_padded positive data.length
  · by_cases unmarked : scheme = .zeros
    · subst unmarked
      exact ⟨_, remove_zeros_filled some_bytes data, dropZeros_eq_iff.mp rfl⟩
    · have short : blockSize - data.length % blockSize ≤ maxLength :=
        Nat.not_lt.mp fun long => fits ⟨unmarked, long⟩
      have removed := remove_filled scheme some_bytes short data source
      rw [if_neg unmarked] at removed
      exact ⟨data, removed, by rw [if_neg unmarked]⟩

/-- There are two ways to fail: a length that does not fit its byte, and a block that does not fit
into memory. The first is looked at first. -/
theorem add_eq_error (positive : 1 ≤ blockSize) (scheme : Padding) (data : Bytes)
    (source : Entropy) (e : Error) :
    add scheme blockSize data source = .error e ↔
      Overlong scheme blockSize data.length ∧
          e = .padding (.tooLong (blockSize - data.length % blockSize)) ∨
        ¬ Overlong scheme blockSize data.length ∧ Bytes.maxLength < blockSize ∧
          e = .aborted .oversize := by
  by_cases long : Overlong scheme blockSize data.length
  · rw [add_long long.1 positive data long.2]
    simp [long, eq_comm]
  · by_cases roomy : blockSize ≤ Bytes.maxLength
    · obtain ⟨padded, rest, added, _⟩ := add_completes positive long roomy source
      rw [added]
      simp [long, Nat.not_lt.mpr roomy]
    · rw [add_oversize positive data long roomy source]
      simp [long, Nat.lt_of_not_le roomy, eq_comm]

/-- Padding a message in blocks of any size fails exactly if the scheme counts the padding in a byte
and the count does not fit, or else if a block is longer than any buffer. Otherwise it completes the
message, and the padding comes off again. What comes off, and off what data, is the grammar of the
scheme, whatever the data are. -/
theorem padding_grammar (positive : 1 ≤ blockSize) (scheme : Padding) (data : Bytes)
    (source : Entropy) :
    (∀ e, add scheme blockSize data source = .error e ↔
      Overlong scheme blockSize data.length ∧
          e = .padding (.tooLong (blockSize - data.length % blockSize)) ∨
        ¬ Overlong scheme blockSize data.length ∧ 2 ^ 63 - 1 < blockSize ∧
          e = .aborted .oversize) ∧
    (¬ Overlong scheme blockSize data.length → blockSize ≤ 2 ^ 63 - 1 →
      ∃ padded rest, add scheme blockSize data source = .ok (padded, rest) ∧
        Completes scheme blockSize data padded) ∧
    ∀ padded message, remove scheme padded = .ok message ↔ Padded scheme message padded :=
  ⟨add_eq_error positive scheme data source,
    fun fits roomy => add_completes positive fits roomy source, remove_eq_ok_iff_padded scheme⟩

/-- Blocks of 300 bytes. Sixty bytes leave 240 of them to be padded, a single one too many; and
whatever a block is, one byte may be a message of none and its padding. -/
theorem padding_grammar_wide :
    1 ≤ 300 ∧ ¬ Overlong .pkcs7 300 (List.replicate 60 (7 : UInt8)).length ∧ 300 ≤ 2 ^ 63 - 1 ∧
      Overlong .pkcs7 300 [(7 : UInt8)].length ∧
      (∃ padded rest,
        add .pkcs7 300 (List.replicate 60 7) ⟨fun _ => 0, 0, 0⟩ = .ok (padded, rest) ∧
          Completes .pkcs7 300 (List.replicate 60 7) padded) ∧
      add .pkcs7 300 [7] ⟨fun _ => 0, 0, 0⟩ = .error (.padding (.tooLong 299)) ∧
      remove .pkcs7 [1] = .ok [] := by
  have positive : 1 ≤ 300 := by decide
  have roomy : 300 ≤ 2 ^ 63 - 1 := by decide
  have fits : ¬ Overlong .pkcs7 300 (List.replicate 60 (7 : UInt8)).length := by
    rintro ⟨_, long⟩
    exact absurd long (by decide)
  have long : Overlong .pkcs7 300 [(7 : UInt8)].length := ⟨by decide, by decide⟩
  obtain ⟨_, completes, grammar⟩ :=
    padding_grammar positive .pkcs7 (List.replicate 60 7) ⟨fun _ => 0, 0, 0⟩
  obtain ⟨fails, _, _⟩ := padding_grammar positive .pkcs7 [7] ⟨fun _ => 0, 0, 0⟩
  exact ⟨positive, fits, roomy, long, completes fits roomy, (fails _).mpr (.inl ⟨long, rfl⟩),
    (grammar [1] []).mpr ⟨1, Nat.le_refl 1, by decide, rfl⟩⟩

/-- Zero padding is never too long, and still there is no block of this size to be had. -/
theorem oversize_block_refused :
    1 ≤ 2 ^ 63 ∧ ¬ Overlong .zeros (2 ^ 63) ([] : Bytes).length ∧
      ∀ source, add .zeros (2 ^ 63) [] source = .error (.aborted .oversize) := by
  have fits : ¬ Overlong .zeros (2 ^ 63) ([] : Bytes).length := fun long => long.1 rfl
  exact ⟨Nat.one_le_two_pow, fits,
    add_oversize (Nat.two_pow_pos 63) [] fits (by decide)⟩

end RoomCipher.PaddingGrammar
