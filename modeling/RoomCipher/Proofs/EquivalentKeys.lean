import RoomCipher.Proofs.KeyedContexts
import RoomCipher.Proofs.Rc5Refinement

/-! Which keys are one key to RC5. The bytes of a key are packed into words, the last of
which is filled up with zeros, and nothing but the words is mixed into the schedule. So a
key can be told from its words only as far as the zeros that fill it up: keys of different
lengths are interchangeable if they fill the same number of words and differ by zeros at
the end. Of keys that fill all their words no two have the same words. -/
namespace RoomCipher.EquivalentKeys
open Rc5 ByteLaws Rc5Inversion Rc5Refinement

variable {word : WordSize} {key other : Bytes}

/-- How many words a key takes up. -/
def wordCount (word : WordSize) (key : Bytes) : Nat :=
  (key.length + (word.bytes - 1)) / word.bytes

/-- The key with zeros at the end, as long as the words it takes up. -/
def filled (word : WordSize) (key : Bytes) : Bytes :=
  key ++ List.replicate (wordCount word key * word.bytes - key.length) 0

/-- Two keys take up the same number of words, and are the same once these are filled up. -/
structure SameWords (word : WordSize) (key other : Bytes) : Prop where
  count : wordCount word key = wordCount word other
  filled_eq : filled word key = filled word other

/-- A key that takes up whole words. -/
def Whole (word : WordSize) (key : Bytes) : Prop := word.bytes ∣ key.length

/-- A key of 1 to 255 bytes. -/
structure Usable (key : Bytes) : Prop where
  written : key ≠ []
  short : key.length ≤ 255

/-! ### Zeros at the end -/

theorem littleEndian_zeros (bytes : Bytes) (count : Nat) :
    Bytes.littleEndian (bytes ++ List.replicate count 0) = Bytes.littleEndian bytes := by
  induction bytes with
  | nil =>
    rw [List.nil_append]
    induction count with
    | zero => rfl
    | succ count ih => simp only [List.replicate_succ, Bytes.littleEndian, ih, UInt8.toNat_zero]
  | cons b bytes ih => rw [List.cons_append, Bytes.littleEndian, ih, Bytes.littleEndian]

/-- The bytes of a number that was read from fewer bytes end in zeros. -/
theorem ofLittleEndian_short {bytes : Bytes} (short : bytes.length ≤ length) :
    Bytes.ofLittleEndian length (Bytes.littleEndian bytes) =
      bytes ++ List.replicate (length - bytes.length) 0 := by
  have whole := ofLittleEndian_littleEndian (bytes ++ List.replicate (length - bytes.length) 0)
  rwa [littleEndian_zeros, List.length_append, List.length_replicate,
    Nat.add_sub_cancel' short] at whole

theorem wordCount_nil (word : WordSize) : wordCount word [] = 0 := by
  have positive := bytes_pos word
  exact Nat.div_eq_of_lt (by rw [List.length_nil]; omega)

theorem filled_nil (word : WordSize) : filled word [] = [] := by
  rw [filled, wordCount_nil, Nat.zero_mul]
  rfl

/-- A first word is followed by the words of the rest. -/
theorem wordCount_written (written : key ≠ []) :
    wordCount word key = wordCount word (key.drop word.bytes) + 1 := by
  have positive := bytes_pos word
  have some_bytes := List.length_pos_iff.mpr written
  rw [wordCount, wordCount, List.length_drop, ← Nat.add_div_right _ positive]
  -- A key that ends within its first word takes up that one, and nothing is left of it.
  by_cases short : key.length ≤ word.bytes
  · rw [Nat.div_eq_of_lt_le (k := 1) (by omega) (by omega),
      Nat.div_eq_of_lt_le (k := 1) (by omega) (by omega)]
  · congr 1
    omega

theorem length_le_words (word : WordSize) (key : Bytes) :
    key.length ≤ wordCount word key * word.bytes := by
  have positive := bytes_pos word
  have rest := Nat.div_add_mod (key.length + (word.bytes - 1)) word.bytes
  have small := Nat.mod_lt (key.length + (word.bytes - 1)) positive
  rw [wordCount, Nat.mul_comm]
  omega

theorem length_filled (word : WordSize) (key : Bytes) :
    (filled word key).length = wordCount word key * word.bytes := by
  rw [filled, List.length_append, List.length_replicate,
    Nat.add_sub_cancel' (length_le_words word key)]

/-- A key is filled up piece by piece. -/
theorem filled_written (written : key ≠ []) : filled word key =
    key.take word.bytes ++ List.replicate (word.bytes - (key.take word.bytes).length) 0 ++
      filled word (key.drop word.bytes) := by
  rw [filled, wordCount_written written]
  by_cases short : key.length ≤ word.bytes
  · rw [List.drop_eq_nil_of_le short, List.take_of_length_le short, filled_nil, wordCount_nil,
      List.append_nil, Nat.zero_add, Nat.one_mul]
  · have front : (key.take word.bytes).length = word.bytes :=
      List.length_take_of_le (Nat.le_of_not_le short)
    have zeros : (wordCount word (key.drop word.bytes) + 1) * word.bytes - key.length =
        wordCount word (key.drop word.bytes) * word.bytes - (key.drop word.bytes).length := by
      rw [List.length_drop, Nat.succ_mul]
      omega
    rw [front, Nat.sub_self, List.replicate_zero, List.append_nil, filled, ← List.append_assoc,
      List.take_append_drop, zeros]

/-- Whole words leave nothing to fill up. -/
theorem filled_whole (whole : Whole word key) : filled word key = key := by
  obtain ⟨count, length⟩ := whole
  have words : wordCount word key = count := by
    have positive := bytes_pos word
    rw [wordCount, length, Nat.mul_add_div positive, Nat.div_eq_of_lt (by omega), Nat.add_zero]
  rw [filled, words, Nat.mul_comm, ← length, Nat.sub_self, List.replicate_zero, List.append_nil]

/-- Keys that are the same once they are filled up take up the same number of words. -/
theorem sameWords_iff : SameWords word key other ↔ filled word key = filled word other := by
  refine ⟨SameWords.filled_eq, fun same => ⟨?_, same⟩⟩
  have lengths := congrArg List.length same
  rw [length_filled, length_filled] at lengths
  exact Nat.eq_of_mul_eq_mul_right (bytes_pos word) lengths

/-- A zero behind a key that ends within a word is one of the zeros that fill it up. -/
theorem sameWords_zero (ragged : ¬ Whole word key) : SameWords word key (key ++ [0]) := by
  have count : wordCount word (key ++ [0]) = wordCount word key := by
    rw [Whole] at ragged
    simp only [wordCount, List.length_append, List.length_singleton]
    cases word <;> simp only [WordSize.bytes, WordSize.bits] at ragged ⊢ <;> omega
  have within : key.length ≠ wordCount word key * word.bytes := fun full =>
    ragged ⟨wordCount word key, full.trans (Nat.mul_comm _ _)⟩
  have zeros : wordCount word key * word.bytes - key.length =
      wordCount word key * word.bytes - (key.length + 1) + 1 := by
    have covered := length_le_words word key
    omega
  rw [sameWords_iff, filled, filled, count, List.length_append, List.length_singleton, zeros,
    List.replicate_succ, List.append_assoc, List.singleton_append]

/-! ### Packed words -/

/-- The word of one piece of a key. -/
def packPiece (word : WordSize) (piece : Bytes) : UInt64 :=
  piece.foldr (fun b packed => word.add (packed <<< 8) b.toUInt64) 0

/-- The bytes of packed words. -/
def unpack (word : WordSize) (words : List UInt64) : Bytes :=
  words.flatMap fun packed => Bytes.ofLittleEndian word.bytes packed.toNat

theorem packKey_append (full : piece.length = word.bytes) (key : Bytes) :
    packKey word (piece ++ key) = packPiece word piece :: packKey word key := by
  rw [packKey, pieces_block_append (bytes_pos word) full]
  rfl

theorem packKey_written (written : key ≠ []) : packKey word key =
    packPiece word (key.take word.bytes) :: packKey word (key.drop word.bytes) := by
  rw [packKey, pieces_written (bytes_pos word) written]
  rfl

theorem packKey_nil (word : WordSize) : packKey word [] = [] := by
  rw [packKey, pieces_nil]
  rfl

/-- Zeros behind a piece are not seen in its word. -/
theorem packPiece_zeros (piece : Bytes) (count : Nat) :
    packPiece word (piece ++ List.replicate count 0) = packPiece word piece := by
  rw [packPiece, packPiece, packed_register, packed_register, littleEndian_zeros]

/-- No piece outgrows its word. -/
theorem toNat_packPiece {piece : Bytes} (short : piece.length ≤ word.bytes) :
    (packPiece word piece).toNat = Bytes.littleEndian piece := by
  have small : Bytes.littleEndian piece < 2 ^ word.bits :=
    calc Bytes.littleEndian piece < 256 ^ piece.length := littleEndian_lt piece
      _ ≤ 256 ^ word.bytes := Nat.pow_le_pow_right (by decide) short
      _ = 2 ^ word.bits := bytes_bits word
  rw [packPiece, packed_register, toNat_register, BitVec.toNat_ofNat, Nat.mod_eq_of_lt small]

/-- A proof about every key goes from what is behind the first word to the whole. -/
theorem byWords {motive : Bytes → Prop} (word : WordSize) (nil : motive [])
    (more : ∀ key, key ≠ [] → motive (key.drop word.bytes) → motive key) (key : Bytes) :
    motive key := by
  induction length : key.length using Nat.strongRecOn generalizing key with
  | _ _ ih =>
    subst length
    by_cases written : key = []
    · exact written ▸ nil
    · have positive := bytes_pos word
      have some_bytes := List.length_pos_iff.mpr written
      exact more key written (ih _ (by rw [List.length_drop]; omega) _ rfl)

/-- The words know the key up to the zeros that fill it up. -/
theorem unpack_packKey (word : WordSize) (key : Bytes) :
    unpack word (packKey word key) = filled word key := by
  induction key using byWords word with
  | nil => rw [packKey_nil, filled_nil]; rfl
  | more key written rest =>
    have short := List.length_take_le word.bytes key
    rw [packKey_written written, filled_written written, ← rest, ← ofLittleEndian_short short,
      ← toNat_packPiece short]
    rfl

/-- The zeros that fill a key up do not change its words. -/
theorem packKey_filled (word : WordSize) (key : Bytes) :
    packKey word (filled word key) = packKey word key := by
  induction key using byWords word with
  | nil => rw [filled_nil]
  | more key written rest =>
    have short := List.length_take_le word.bytes key
    have full : (key.take word.bytes ++
        List.replicate (word.bytes - (key.take word.bytes).length) 0).length = word.bytes := by
      rw [List.length_append, List.length_replicate, Nat.add_sub_cancel' short]
    rw [filled_written written, packKey_append full, packPiece_zeros, rest,
      packKey_written written]

theorem packKey_eq_iff : packKey word key = packKey word other ↔ SameWords word key other := by
  rw [sameWords_iff]
  constructor
  · intro same
    rw [← unpack_packKey, same, unpack_packKey]
  · intro same
    rw [← packKey_filled, same, packKey_filled]

theorem packKey_whole_iff (whole : Whole word key) (entire : Whole word other) :
    packKey word key = packKey word other ↔ key = other := by
  rw [packKey_eq_iff, sameWords_iff, filled_whole whole, filled_whole entire]

/-! ### Schedules -/

/-- Nothing but the words of a key is mixed into the schedule. -/
theorem expandKey_words (rounds : Nat) (same : packKey word key = packKey word other) :
    expandKey word rounds key = expandKey word rounds other := by
  rw [expandKey, expandKey, same]

/-- Two ciphers take two keys, have the same schedule then, and treat every block the same. -/
def Interchangeable (first second : Rc5) (key other : Bytes) : Prop :=
  ∃ keyed rekeyed, setKey first key = (keyed, .ok ()) ∧ setKey second other = (rekeyed, .ok ()) ∧
    keyed.schedule.isSome ∧ keyed.schedule = rekeyed.schedule ∧
    ∀ block, encryptBlock keyed block = encryptBlock rekeyed block ∧
      decryptBlock keyed block = decryptBlock rekeyed block

theorem interchangeable {first second : Rc5} (words : second.word = first.word)
    (rounds : second.rounds = first.rounds) (usable : Usable key) (too : Usable other)
    (same : SameWords first.word key other) : Interchangeable first second key other := by
  have schedules := expandKey_words first.rounds (packKey_eq_iff.mpr same)
  refine ⟨_, _, setKey_eq first usable.written usable.short,
    setKey_eq second too.written too.short, rfl, ?_, ?_⟩
  · rw [schedules, words, rounds]
  · rw [schedules, words, rounds]
    exact fun _ => ⟨rfl, rfl⟩

/-! ### Keys of contexts -/

/-- A context with blocks of 16 bytes has a key of two, three or four words of eight. -/
theorem withCipher_whole {C : Type} [BlockCipher C] {cipher : C} {context : Context C}
    (size : BlockCipher.blockSize cipher = 16)
    (built : Context.withCipher cipher key iv config = .ok context) : Whole .w64 key := by
  have agreed := (KeyedContexts.withCipher_eq built).2.1
  have length : key.length = 16 ∨ key.length = 24 ∨ key.length = 32 := by
    rcases KeyedContexts.withCipher_keySize built with usual | block
    · simpa only [Context.keySizes, List.mem_cons, List.not_mem_nil, or_false] using usual
    · exact .inl (block.trans (agreed.symm.trans size))
  rcases length with length | length | length <;> rw [Whole, length] <;> decide

/-- Usable keys of the same words are interchangeable in ciphers of one word size and one number of
rounds, whatever keys these had before, and every key that ends within a word has the same words as
the key with another zero. Only such keys have the same words, so that keys of whole words are told
apart by them; and the keys that a context gives to the standard cipher are all of whole words. -/
theorem key_length_unbound :
    (∀ (first second : Rc5) (key other : Bytes), second.word = first.word →
      second.rounds = first.rounds → Usable key → Usable other →
      SameWords first.word key other → Interchangeable first second key other) ∧
    (∀ (word : WordSize) (key : Bytes), ¬ Whole word key → SameWords word key (key ++ [0])) ∧
    (∀ (word : WordSize) (key other : Bytes),
      packKey word key = packKey word other ↔ SameWords word key other) ∧
    (∀ (word : WordSize) (key other : Bytes), Whole word key → Whole word other →
      (packKey word key = packKey word other ↔ key = other)) ∧
    (∀ (key iv : Bytes) (config : Config) (context : Context Rc5),
      Context.withCipher Rc5.standard key iv config = .ok context →
        Whole Rc5.standard.word key) ∧
    ∀ (key iv : Bytes) (config : Config) (context : Context Builtin), config.algorithm = .rc5 →
      Context.ofConfig key iv config = .ok context → Whole Rc5.standard.word key := by
  refine ⟨fun _ _ _ _ words rounds usable too same => interchangeable words rounds usable too same,
    fun _ _ ragged => sameWords_zero ragged, fun _ _ _ => packKey_eq_iff,
    fun _ _ _ whole entire => packKey_whole_iff whole entire,
    fun _ _ _ _ built => withCipher_whole rfl built, ?_⟩
  intro key iv config context named built
  rw [Context.ofConfig, named] at built
  exact withCipher_whole rfl built

/-- Three bytes of a key of two 16-bit words, with and without the zero behind them. -/
theorem key_length_unbound_three : Interchangeable ⟨.w16, 12, none⟩ ⟨.w16, 12, some [7]⟩ [1, 2, 3]
    [1, 2, 3, 0] :=
  key_length_unbound.1 _ _ _ _ rfl rfl ⟨by decide, by decide⟩ ⟨by decide, by decide⟩
    ⟨by decide, by decide⟩

end RoomCipher.EquivalentKeys
