import RoomCipher.Bytes.Hex

/-! Numbers as hex text. The shortest bytes of a number denote it, every byte is read
back from its two digits, and no digit is a blank that trimming would take away. So a
number is read back from its own text, except zero, whose text is empty. -/
namespace RoomCipher.HexText
open Hex

/-! ### Bytes of a number -/

theorem value_append (front : Bytes) (last : UInt8) :
    Bytes.value (front ++ [last]) = Bytes.value front * 256 + last.toNat := by
  rw [Bytes.value, Bytes.value, List.foldl_append]
  rfl

theorem value_minimal (n : Nat) : Bytes.value (Bytes.minimal n) = n := by
  induction n using Nat.strongRecOn with
  | ind n ih =>
    cases n with
    | zero => rw [Bytes.minimal]; rfl
    | succ n =>
      rw [Bytes.minimal, value_append, ih ((n + 1) / 256) (by omega), UInt8.toNat_ofNat']
      exact Nat.div_add_mod' (n + 1) 256

theorem minimal_ne_nil (positive : 0 < n) : Bytes.minimal n ≠ [] := by
  cases n with
  | zero => cases positive
  | succ n =>
    rw [Bytes.minimal]
    exact List.append_ne_nil_of_right_ne_nil _ (List.cons_ne_nil _ _)

/-! ### Digits -/

theorem digitValue?_digit : ∀ n < 16, digitValue? (digit n) = some n := by decide

theorem digit_narrow : ∀ n < 16, (digit n).utf8Size = 1 := by decide

theorem digit_visible : ∀ n < 16, Text.isBlank (digit n) = false := by decide

/-- A character that the digits of bytes are written with. -/
def IsDigit (c : Char) : Prop := ∃ n < 16, c = digit n

theorem high_lt (b : UInt8) : b.toNat / 16 < 16 := by
  have := b.toNat_lt
  omega

theorem low_lt (b : UInt8) : b.toNat % 16 < 16 := Nat.mod_lt _ (by decide)

theorem encodeChars_digits (bytes : Bytes) : ∀ c ∈ encodeChars bytes, IsDigit c := by
  induction bytes with
  | nil => exact fun c member => nomatch member
  | cons b bs ih =>
    intro c member
    rcases List.mem_cons.mp member with rfl | member
    · exact ⟨_, high_lt b, rfl⟩
    · rcases List.mem_cons.mp member with rfl | member
      · exact ⟨_, low_lt b, rfl⟩
      · exact ih c member

theorem length_encodeChars (bytes : Bytes) : (encodeChars bytes).length = 2 * bytes.length := by
  induction bytes with
  | nil => rfl
  | cons b bs ih => simp only [encodeChars, List.length_cons, ih]; omega

theorem encodeChars_ne_nil (written : bytes ≠ []) : encodeChars bytes ≠ [] := by
  cases bytes with
  | nil => exact absurd rfl written
  | cons b bs => exact List.cons_ne_nil _ _

theorem decodePairs_encodeChars (bytes : Bytes) (offset : Nat) :
    decodePairs offset (encodeChars bytes) = .ok bytes := by
  induction bytes generalizing offset with
  | nil => rfl
  | cons b bs ih =>
    have halves : UInt8.ofNat (b.toNat / 16 * 16 + b.toNat % 16) = b := by
      rw [Nat.div_add_mod', UInt8.ofNat_toNat]
    simp only [encodeChars, decodePairs, digitAt, digitValue?_digit _ (high_lt b),
      digitValue?_digit _ (low_lt b), ih, halves, bind, Except.bind, pure, Except.pure]

/-! ### Text -/

/-- Where every character takes one byte, a text has as many bytes as characters. -/
theorem byteCount_narrow {text : List Char} (narrow : ∀ c ∈ text, c.utf8Size = 1) (count : Nat) :
    text.foldl (fun bytes c => bytes + c.utf8Size) count = count + text.length := by
  induction text generalizing count with
  | nil => rfl
  | cons c rest ih =>
    rw [List.foldl_cons, ih fun other member => narrow other (List.mem_cons_of_mem _ member),
      narrow c List.mem_cons_self, List.length_cons]
    omega

theorem decode_encodeChars (bytes : Bytes) : decode (encodeChars bytes) = .ok bytes := by
  have narrow : ∀ c ∈ encodeChars bytes, c.utf8Size = 1 := by
    intro c member
    obtain ⟨n, small, rfl⟩ := encodeChars_digits bytes c member
    exact digit_narrow n small
  have even : (encodeChars bytes).foldl (fun bytes c => bytes + c.utf8Size) 0 % 2 ≠ 1 := by
    rw [byteCount_narrow narrow, length_encodeChars]
    omega
  rw [decode, if_neg even, decodePairs_encodeChars]

/-- Nothing is dropped from a text that does not begin with a blank. -/
theorem dropWhile_visible {text : List Char} (visible : ∀ c ∈ text.head?, Text.isBlank c = false) :
    text.dropWhile Text.isBlank = text := by
  cases text with
  | nil => rfl
  | cons c rest => rw [List.dropWhile_cons, visible c rfl]; rfl

/-- Nothing is trimmed from a text without blanks. -/
theorem trim_visible {text : List Char} (visible : ∀ c ∈ text, Text.isBlank c = false) :
    Text.trim text = text := by
  rw [Text.trim, dropWhile_visible fun c first => visible c (List.mem_of_head? first),
    dropWhile_visible fun c last => visible c (List.mem_reverse.mp (List.mem_of_head? last)),
    List.reverse_reverse]

/-- A positive number is read back from its text. -/
theorem toNat_ofNat (positive : 0 < n) : Hex.toNat (Hex.ofNat n) = .ok n := by
  have visible : ∀ c ∈ encodeChars (Bytes.minimal n), Text.isBlank c = false := by
    intro c member
    obtain ⟨digit, small, rfl⟩ := encodeChars_digits _ c member
    exact digit_visible digit small
  have written : encodeChars (Bytes.minimal n) ≠ [] := encodeChars_ne_nil (minimal_ne_nil positive)
  rw [Hex.toNat, Hex.ofNat, encode, String.toList_ofList, trim_visible visible]
  split
  next empty => exact absurd empty written
  next =>
    rw [decode_encodeChars]
    exact congrArg Except.ok (value_minimal n)

/-- Zero is written as nothing, which is refused. -/
theorem toNat_ofNat_zero : Hex.toNat (Hex.ofNat 0) = .error (.exchange (.encoding "empty string")) := by
  rw [Hex.toNat, Hex.ofNat, Bytes.minimal]
  rfl

end RoomCipher.HexText
