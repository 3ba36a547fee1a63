import Mathlib.Data.List.Induction
import Mathlib.Data.Nat.Digits.Defs
import RoomCipher.Proofs.ByteLaws
import RoomCipher.Proofs.HexText
import RoomCipher.Proofs.Outcomes

/-! Which texts denote a number, and which of them is its own. A text denotes a number if,
blanks around it aside, it consists of pairs of hex digits, in either case; what it
denotes is what those digits stand for in base sixteen, so zeros in front do not count.
The text that a number is written as is the one among them that is lower-case, has no
blanks and does not begin with a pair of zeros. Zero has no such text. -/
namespace RoomCipher.HexNumerals
open Hex HexText

/-! ### Digits -/

/-- The digits that numbers are written with, in their order. -/
def lowerDigits : List Char := "0123456789abcdef".toList

/-- The digits in either case. -/
def hexDigits : List Char := "0123456789abcdefABCDEF".toList

/-- What a digit counts for: its place in the order, whatever its case. -/
def rank (c : Char) : Nat := lowerDigits.idxOf c.toLower

/-- What is to hold of every character of a list is checked one by one. -/
private theorem forall_of_all {chars : List Char} {p : Char → Prop} [DecidablePred p]
    (checked : (chars.all fun c => decide (p c)) = true) : ∀ c ∈ chars, p c := fun c member =>
  of_decide_eq_true (List.all_eq_true.mp checked c member)

theorem digitValue?_rank : ∀ c ∈ hexDigits, digitValue? c = some (rank c) :=
  forall_of_all (by decide)

theorem rank_lt : ∀ c ∈ hexDigits, rank c < 16 := forall_of_all (by decide)

theorem digit_rank : ∀ c ∈ hexDigits, digit (rank c) = c.toLower := forall_of_all (by decide)

theorem hexDigit_visible : ∀ c ∈ hexDigits, Text.isBlank c = false := forall_of_all (by decide)

theorem hexDigit_narrow : ∀ c ∈ hexDigits, c.utf8Size = 1 := forall_of_all (by decide)

theorem lower_hexDigit : ∀ c ∈ lowerDigits, c ∈ hexDigits ∧ c.toLower = c :=
  forall_of_all (by decide)

theorem digit_lower : ∀ n < 16, digit n ∈ lowerDigits := by decide

theorem idxOf_digit : ∀ n < 16, lowerDigits.idxOf (digit n) = n := by decide

/-- A character between two others is a digit if all between them are. -/
private theorem hexDigit_between {first last : Char} (count : Nat)
    (run : ∀ i < count, Char.ofNat (first.toNat + i) ∈ hexDigits)
    (span : last.toNat < first.toNat + count) (above : first ≤ c) (below : c ≤ last) :
    c ∈ hexDigits := by
  have low : first.toNat ≤ c.toNat := UInt32.le_iff_toNat_le.mp (Char.le_def.mp above)
  have high : c.toNat ≤ last.toNat := UInt32.le_iff_toNat_le.mp (Char.le_def.mp below)
  have member := run (c.toNat - first.toNat) (by omega)
  rwa [Nat.add_sub_cancel' low, Char.ofNat_toNat] at member

/-- Nothing but a digit has a value, and its value is its rank. -/
theorem digitValue?_eq_some : digitValue? c = some n ↔ c ∈ hexDigits ∧ rank c = n := by
  constructor
  · intro value
    have member : c ∈ hexDigits := by
      unfold digitValue? at value
      split at value
      next range => exact hexDigit_between 10 (by decide) (by decide) range.1 range.2
      next =>
        split at value
        next range => exact hexDigit_between 6 (by decide) (by decide) range.1 range.2
        next =>
          split at value
          next range => exact hexDigit_between 6 (by decide) (by decide) range.1 range.2
          next => cases value
    refine ⟨member, ?_⟩
    rw [digitValue?_rank c member] at value
    exact Option.some.inj value
  · rintro ⟨member, rfl⟩
    exact digitValue?_rank c member

theorem digitAt_eq_ok : digitAt c offset = .ok n ↔ c ∈ hexDigits ∧ rank c = n := by
  rw [← digitValue?_eq_some, digitAt]
  cases digitValue? c <;> simp

/-! ### Pairs of digits -/

/-- What digits stand for in base sixteen, the first one counting most. -/
def numeral (digits : List Char) : Nat := Nat.ofDigits 16 (digits.map rank).reverse

theorem decodePairs_cons : decodePairs offset (c :: d :: rest) = .ok bytes ↔
    c ∈ hexDigits ∧ d ∈ hexDigits ∧ ∃ tail, decodePairs (offset + 2) rest = .ok tail ∧
      UInt8.ofNat (rank c * 16 + rank d) :: tail = bytes := by
  rw [decodePairs]
  simp only [Outcomes.bind_eq_ok, digitAt_eq_ok, pure, Except.pure, Except.ok.injEq]
  constructor
  · rintro ⟨_, ⟨high, rfl⟩, _, ⟨low, rfl⟩, tail, read, joined⟩
    exact ⟨high, low, tail, read, joined⟩
  · rintro ⟨high, low, tail, read, joined⟩
    exact ⟨_, ⟨high, rfl⟩, _, ⟨low, rfl⟩, tail, read, joined⟩

/-- A single digit is half of a byte. -/
theorem decodePairs_single : decodePairs offset [c] ≠ .ok bytes := by
  rw [decodePairs, ne_eq, Outcomes.bind_eq_ok]
  rintro ⟨_, _, refused⟩
  cases refused

/-- The two digits of the byte that they denote are the same digits in lower case. -/
theorem encodeChars_pair (high : c ∈ hexDigits) (low : d ∈ hexDigits) (tail : Bytes) :
    encodeChars (UInt8.ofNat (rank c * 16 + rank d) :: tail) =
      c.toLower :: d.toLower :: encodeChars tail := by
  have c_lt := rank_lt c high
  have d_lt := rank_lt d low
  have byte : (UInt8.ofNat (rank c * 16 + rank d)).toNat = rank c * 16 + rank d :=
    Nat.mod_eq_of_lt (by omega)
  have upper : (rank c * 16 + rank d) / 16 = rank c := by omega
  have lower : (rank c * 16 + rank d) % 16 = rank d := by omega
  rw [encodeChars, byte, upper, lower, digit_rank c high, digit_rank d low]

/-- What is read as bytes consists of digits, and in lower case it is what the bytes are written
as. -/
theorem decodePairs_spelled {text : List Char} (read : decodePairs offset text = .ok bytes) :
    (∀ c ∈ text, c ∈ hexDigits) ∧ text.map Char.toLower = encodeChars bytes := by
  induction offset, text using decodePairs.induct generalizing bytes with
  | case1 offset =>
    cases read
    exact ⟨fun c member => (nomatch member), rfl⟩
  | case2 offset c => exact absurd read decodePairs_single
  | case3 offset c d rest ih =>
    obtain ⟨high, low, tail, more, rfl⟩ := decodePairs_cons.mp read
    obtain ⟨digits, spelled⟩ := ih more
    rw [encodeChars_pair high low, ← spelled, List.forall_mem_cons, List.forall_mem_cons]
    exact ⟨⟨high, low, digits⟩, rfl⟩

/-- Every even number of digits is read as bytes. -/
theorem decodePairs_digits {text : List Char} (digits : ∀ c ∈ text, c ∈ hexDigits)
    (even : text.length % 2 = 0) (offset : Nat) : ∃ bytes, decodePairs offset text = .ok bytes := by
  induction offset, text using decodePairs.induct with
  | case1 offset => exact ⟨[], rfl⟩
  | case2 offset c => cases even
  | case3 offset c d rest ih =>
    obtain ⟨high, others⟩ := List.forall_mem_cons.mp digits
    obtain ⟨low, others⟩ := List.forall_mem_cons.mp others
    have fewer : rest.length % 2 = 0 := by
      rw [List.length_cons, List.length_cons] at even
      omega
    obtain ⟨tail, more⟩ := ih others fewer
    exact ⟨_, decodePairs_cons.mpr ⟨high, low, tail, more, rfl⟩⟩

/-- The digits of bytes stand for the number that the bytes denote. -/
theorem ofDigits_encodeChars (bytes : Bytes) :
    Nat.ofDigits 16 ((encodeChars bytes).map lowerDigits.idxOf).reverse = Bytes.value bytes := by
  induction bytes with
  | nil => rfl
  | cons b bs ih =>
    have width : 16 ^ (2 * bs.length) = 256 ^ bs.length := Nat.pow_mul 16 2 bs.length
    have halves := Nat.div_add_mod' b.toNat 16
    simp only [encodeChars, List.map_cons, List.reverse_cons, List.append_assoc,
      List.singleton_append, Nat.ofDigits_append, ih, List.length_reverse, List.length_map,
      length_encodeChars, width, idxOf_digit _ (high_lt b), idxOf_digit _ (low_lt b),
      Nat.ofDigits_cons, Nat.ofDigits_nil, ByteLaws.value_cons]
    congr 2
    omega

theorem numeral_spelled {text : List Char} (spelled : text.map Char.toLower = encodeChars bytes) :
    numeral text = Bytes.value bytes := by
  rw [← ofDigits_encodeChars, ← spelled, List.map_map]
  rfl

/-- Digits take one byte each, so an even number of them passes the check on the bytes. -/
theorem decode_eq_ok {text : List Char} : decode text = .ok bytes ↔
    decodePairs 0 text = .ok bytes := by
  rw [decode]
  constructor
  · intro read
    split at read
    · cases read
    · exact read
  · intro read
    obtain ⟨digits, spelled⟩ := decodePairs_spelled read
    have length := congrArg List.length spelled
    rw [List.length_map, length_encodeChars] at length
    rw [byteCount_narrow fun c member => hexDigit_narrow c (digits c member), if_neg (by omega),
      read]

/-! ### Blanks around the digits -/

/-- Digits that denote a number: pairs of them, at least one, and nothing else. -/
structure Denotes (digits : List Char) (n : Nat) : Prop where
  written : digits ≠ []
  even : digits.length % 2 = 0
  hex : ∀ c ∈ digits, c ∈ hexDigits
  value : numeral digits = n

/-- A text of such digits, with nothing but blanks before and after them. -/
def Spells (text : String) (n : Nat) : Prop :=
  ∃ front digits back, text.toList = front ++ digits ++ back ∧
    (∀ c ∈ front, Text.isBlank c = true) ∧ (∀ c ∈ back, Text.isBlank c = true) ∧ Denotes digits n

/-- Of a text that has no blanks but before and after it, the rest is left. -/
theorem trim_framed {front core back : List Char} (before : ∀ c ∈ front, Text.isBlank c = true)
    (after : ∀ c ∈ back, Text.isBlank c = true) (written : core ≠ [])
    (visible : ∀ c ∈ core, Text.isBlank c = false) : Text.trim (front ++ core ++ back) = core := by
  have first : ∀ c ∈ (core ++ back).head?, Text.isBlank c = false := by
    obtain ⟨d, rest, rfl⟩ := List.exists_cons_of_ne_nil written
    exact fun c first => visible c (List.mem_of_head? first)
  have last : ∀ c ∈ core.reverse.head?, Text.isBlank c = false := fun c last =>
    visible c (List.mem_reverse.mp (List.mem_of_head? last))
  rw [Text.trim, List.append_assoc, List.dropWhile_append_of_pos before, dropWhile_visible first,
    List.reverse_append, List.dropWhile_append_of_pos fun c member =>
      after c (List.mem_reverse.mp member), dropWhile_visible last, List.reverse_reverse]

/-- What is trimmed away are blanks. -/
theorem trim_frames (text : List Char) : ∃ front back, text = front ++ Text.trim text ++ back ∧
    (∀ c ∈ front, Text.isBlank c = true) ∧ ∀ c ∈ back, Text.isBlank c = true := by
  have blank (text : List Char) : ∀ c ∈ text.takeWhile Text.isBlank, Text.isBlank c = true :=
    List.all_eq_true.mp List.all_takeWhile
  refine ⟨text.takeWhile Text.isBlank,
    ((text.dropWhile Text.isBlank).reverse.takeWhile Text.isBlank).reverse, ?_, blank text,
    fun c member => blank _ c (List.mem_reverse.mp member)⟩
  rw [Text.trim, List.append_assoc, ← List.reverse_append, List.takeWhile_append_dropWhile,
    List.reverse_reverse, List.takeWhile_append_dropWhile]

theorem denotes_trim_iff {text : String} : Denotes (Text.trim text.toList) n ↔ Spells text n := by
  constructor
  · intro denotes
    obtain ⟨front, back, framed, before, after⟩ := trim_frames text.toList
    exact ⟨front, _, back, framed, before, after, denotes⟩
  · rintro ⟨front, digits, back, framed, before, after, denotes⟩
    have visible : ∀ c ∈ digits, Text.isBlank c = false := fun c member =>
      hexDigit_visible c (denotes.hex c member)
    rwa [framed, trim_framed before after denotes.written visible]

/-- Texts are read if and only if they spell a number, and then it is the number that is read. -/
theorem toNat_eq_ok {text : String} : Hex.toNat text = .ok n ↔ Spells text n := by
  rw [← denotes_trim_iff, Hex.toNat]
  generalize Text.trim text.toList = digits
  constructor
  · intro read
    split at read
    · cases read
    next written =>
      split at read
      next bytes decoded =>
        cases read
        obtain ⟨hex, spelled⟩ := decodePairs_spelled (decode_eq_ok.mp decoded)
        have length := congrArg List.length spelled
        rw [List.length_map, length_encodeChars] at length
        exact ⟨written, by omega, hex, numeral_spelled spelled⟩
      next => cases read
  · rintro ⟨written, even, hex, rfl⟩
    obtain ⟨bytes, decoded⟩ := decodePairs_digits hex even 0
    split
    · exact absurd rfl written
    · rw [decode_eq_ok.mpr decoded, numeral_spelled (decodePairs_spelled decoded).2]

/-! ### The text of a number -/

/-- The text that a number is written as: pairs of lower-case digits that do not begin with a pair
of zeros. -/
structure Canonical (text : List Char) : Prop where
  lower : ∀ c ∈ text, c ∈ lowerDigits
  even : text.length % 2 = 0
  significant : ¬ ['0', '0'] <+: text

/-- The shortest bytes of a number do not begin with zero. -/
theorem head_minimal (n : Nat) : (Bytes.minimal n).head? ≠ some 0 := by
  induction n using Nat.strongRecOn with
  | ind n ih =>
    cases n with
    | zero =>
      rw [Bytes.minimal]
      intro zero
      cases zero
    | succ n =>
      rw [Bytes.minimal, List.head?_append]
      have significant := ih ((n + 1) / 256) (by omega)
      cases first : (Bytes.minimal ((n + 1) / 256)).head? with
      | some b => rwa [first] at significant
      | none =>
        -- There is only the last byte, so the number is below 256 and is not zero.
        have alone : (n + 1) / 256 = 0 := by
          have empty := value_minimal ((n + 1) / 256)
          rw [List.head?_eq_none_iff.mp first] at empty
          exact empty.symm
        intro zero
        have last : (UInt8.ofNat (n + 1)).toNat = 0 := congrArg UInt8.toNat (Option.some.inj zero)
        rw [UInt8.toNat_ofNat'] at last
        omega

/-- Bytes that do not begin with zero are the shortest of their number. -/
theorem minimal_value {bytes : Bytes} (significant : bytes.head? ≠ some 0) :
    Bytes.minimal (Bytes.value bytes) = bytes := by
  induction bytes using List.reverseRecOn with
  | nil => rw [Bytes.value, List.foldl_nil, Bytes.minimal]
  | append_singleton front last ih =>
    have shorter : Bytes.minimal (Bytes.value front) = front := by
      refine ih fun zero => significant ?_
      rw [List.head?_append, zero]
      rfl
    have bound := last.toNat_lt
    have positive : Bytes.value front * 256 + last.toNat ≠ 0 := by
      intro none_left
      have empty : Bytes.value front = 0 := by omega
      rw [empty, Bytes.minimal] at shorter
      rw [← shorter] at significant
      exact significant (congrArg some (UInt8.toNat_inj.mp (by simpa using by omega)))
    obtain ⟨n, counted⟩ := Nat.exists_eq_succ_of_ne_zero positive
    have upper : (n + 1) / 256 = Bytes.value front := by omega
    have lower : UInt8.ofNat (n + 1) = last := by
      apply UInt8.toNat_inj.mp
      rw [UInt8.toNat_ofNat']
      omega
    rw [value_append, counted, Bytes.minimal, upper, shorter, lower]

/-- A pair of zeros is what a byte of zero is written as, and no other byte. -/
theorem zeros_prefix_iff {bytes : Bytes} :
    ['0', '0'] <+: encodeChars bytes ↔ bytes.head? = some 0 := by
  cases bytes with
  | nil => simp [encodeChars]
  | cons b bs =>
    rw [encodeChars, List.cons_prefix_cons, List.cons_prefix_cons, List.head?_cons, Option.some_inj]
    constructor
    · rintro ⟨high, low, -⟩
      have upper : 0 = b.toNat / 16 :=
        (congrArg lowerDigits.idxOf high).trans (idxOf_digit _ (high_lt b))
      have lower : 0 = b.toNat % 16 :=
        (congrArg lowerDigits.idxOf low).trans (idxOf_digit _ (low_lt b))
      apply UInt8.toNat_inj.mp
      rw [UInt8.toNat_zero]
      omega
    · rintro rfl
      exact ⟨rfl, rfl, List.nil_prefix⟩

theorem canonical_ofNat (n : Nat) : Canonical (Hex.ofNat n).toList := by
  rw [Hex.ofNat, encode, String.toList_ofList]
  refine ⟨fun c member => ?_, ?_, fun zeros => head_minimal n (zeros_prefix_iff.mp zeros)⟩
  · obtain ⟨i, small, rfl⟩ := encodeChars_digits _ c member
    exact digit_lower i small
  · rw [length_encodeChars]
    omega

/-- No other text like that denotes the number: what it is read as is written as the text itself. -/
theorem canonical_unique {text : String} (canonical : Canonical text.toList)
    (read : Hex.toNat text = .ok n) : text = Hex.ofNat n := by
  have lower := canonical.lower
  have trimmed : Text.trim text.toList = text.toList := trim_visible fun c member =>
    hexDigit_visible c (lower_hexDigit c (lower c member)).1
  have denotes := denotes_trim_iff.mpr (toNat_eq_ok.mp read)
  rw [trimmed] at denotes
  obtain ⟨bytes, decoded⟩ := decodePairs_digits denotes.hex denotes.even 0
  have spelled := (decodePairs_spelled decoded).2
  have value := (numeral_spelled spelled).symm.trans denotes.value
  have unchanged : text.toList.map Char.toLower = text.toList :=
    (List.map_congr_left fun c member => (lower_hexDigit c (lower c member)).2).trans
      (List.map_id' _)
  rw [unchanged] at spelled
  have significant : bytes.head? ≠ some 0 := by
    rw [ne_eq, ← zeros_prefix_iff, ← spelled]
    exact canonical.significant
  rw [Hex.ofNat, ← value, minimal_value significant, encode, ← spelled, String.ofList_toList]

/-- Different numbers have different texts. -/
theorem ofNat_injective : Function.Injective Hex.ofNat := by
  intro m n same
  have digits : encodeChars (Bytes.minimal m) = encodeChars (Bytes.minimal n) :=
    String.ofList_injective same
  have bytes : decodePairs 0 (encodeChars (Bytes.minimal m)) = .ok (Bytes.minimal n) := by
    rw [digits, decodePairs_encodeChars]
  rw [decodePairs_encodeChars] at bytes
  rw [← value_minimal m, Except.ok.inj bytes, value_minimal]

/-! ### Numbers as text -/

/-- A text is read if and only if, blanks around it aside, it consists of pairs of hex digits in
either case, and then as the number that they stand for. A positive number is written in lower-case
pairs that do not begin with zeros, is read back from that text, and from no other one like it. Of
two texts that are read, the numbers are written alike if and only if they are the same number. -/
theorem hex_numerals :
    (∀ text n, Hex.toNat text = .ok n ↔ Spells text n) ∧
      (∀ n, 0 < n → Canonical (Hex.ofNat n).toList ∧ Hex.toNat (Hex.ofNat n) = .ok n ∧
        ∀ text, Canonical text.toList → Hex.toNat text = .ok n → text = Hex.ofNat n) ∧
      ∀ s t m n, Spells s m → Spells t n →
        ((Hex.toNat s).map Hex.ofNat = (Hex.toNat t).map Hex.ofNat ↔ m = n) := by
  refine ⟨fun text n => toNat_eq_ok, fun n positive => ⟨canonical_ofNat n, toNat_ofNat positive,
    fun text => canonical_unique⟩, fun s t m n spells_m spells_n => ?_⟩
  rw [toNat_eq_ok.mpr spells_m, toNat_eq_ok.mpr spells_n]
  constructor
  · intro same
    exact ofNat_injective (Except.ok.inj same)
  · rintro rfl
    rfl

/-- Blanks, capitals and zeros in front make no difference to what is read, and are not written
again. -/
theorem hex_numerals_padded :
    Spells "\t00aBC0 \n" 0xabc0 ∧ Spells "ABC0" 0xabc0 ∧ 0 < 0xabc0 ∧
      Hex.toNat "\t00aBC0 \n" = .ok 0xabc0 ∧
      (Hex.toNat "\t00aBC0 \n").map Hex.ofNat = (Hex.toNat "ABC0").map Hex.ofNat ∧
      Canonical (Hex.ofNat 0xabc0).toList ∧ Hex.toNat (Hex.ofNat 0xabc0) = .ok 0xabc0 := by
  have padded : Spells "\t00aBC0 \n" 0xabc0 :=
    ⟨['\t'], "00aBC0".toList, [' ', '\n'], by decide, forall_of_all (by decide),
      forall_of_all (by decide), by decide, by decide, forall_of_all (by decide), by decide⟩
  have plain : Spells "ABC0" 0xabc0 :=
    ⟨[], "ABC0".toList, [], by decide, List.forall_mem_nil _, List.forall_mem_nil _, by decide,
      by decide, forall_of_all (by decide), by decide⟩
  have positive : 0 < 0xabc0 := by decide
  obtain ⟨read, written, alike⟩ := hex_numerals
  obtain ⟨canonical, back, -⟩ := written 0xabc0 positive
  exact ⟨padded, plain, positive, (read _ _).mpr padded, (alike _ _ _ _ padded plain).mpr rfl,
    canonical, back⟩

end RoomCipher.HexNumerals
