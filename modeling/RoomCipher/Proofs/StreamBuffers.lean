import RoomCipher.Proofs.Keystreams

/-! The buffer of a stream, and what it is to have none. The settings bound the number of
blocks from below only, so that the count of bytes may wrap around. What is left may be a
shorter buffer, which does no harm, or no buffer at all. A transfer takes a read of no
bytes for the end of the input; with a buffer it is, but without one every read is of no
bytes, and the whole message is lost unnoticed. -/
namespace RoomCipher.StreamBuffers
open KeyedContexts ChannelRuns TransferFaults StreamTransfers Transfer
open Keystreams (contents reads_flatten)

variable {C : Type} [BlockCipher C] {context : Context C} {reader rest : Reader}

/-! ### Reads -/

/-- Nothing is left to read, up to interruptions. An event without bytes says so too. -/
def AtEnd : Reader → Prop
  | [] => True
  | .bytes data :: _ => data = []
  | .fault fault :: rest => fault.kind = .interrupted ∧ AtEnd rest

/-- Whoever asks for so many bytes at a time is given none only at the end of the input. -/
def SeesEnd (limit : Nat) : Prop :=
  ∀ reader rest : Reader, reader.readSome limit = (.ok [], rest) → AtEnd reader

/-- At the end there are no bytes and no fault. -/
theorem atEnd_iff (reader : Reader) :
    AtEnd reader ↔ contents reader = [] ∧ failure? reader = none := by
  induction reader with
  | nil => simp [AtEnd, contents, failure?]
  | cons event rest ih =>
    cases event with
    | fault fault =>
      by_cases interrupted : fault.kind = .interrupted <;>
        simp [AtEnd, contents, failure?, interrupted, ih]
    | bytes data => by_cases empty : data = [] <;> simp [AtEnd, contents, failure?, empty]

/-- Without a buffer a read of no bytes succeeds whatever there is to read. -/
theorem readSome_unbuffered (data : Bytes) (rest : Reader) :
    ∃ left, Reader.readSome 0 (.bytes data :: rest) = (.ok [], left) := by
  simp only [Reader.readSome, Reader.read]
  split
  next empty => exact ⟨rest, by rw [List.length_eq_zero_iff.mp (Nat.le_zero.mp empty)]⟩
  · exact ⟨_, rfl⟩

theorem seesEnd_iff : SeesEnd limit ↔ 0 < limit := by
  constructor
  · intro sees
    refine Nat.pos_of_ne_zero fun unbuffered => ?_
    obtain ⟨left, answer⟩ := readSome_unbuffered [0] []
    cases sees _ left (unbuffered ▸ answer)
  · intro positive reader rest answer
    have given := readSome_answer positive reader
    rw [answer] at given
    cases given with
    | finished _ pieces failure =>
      rw [atEnd_iff, ← reads_flatten positive, pieces]
      exact ⟨rfl, failure⟩
    | piece _ _ written => exact absurd rfl written

/-! ### Transfers -/

/-- With such a buffer a transfer hands on all the bytes there are, whatever is done with them, and
ends with the fault that ends the input, if one does. -/
def HandsOn (limit : Nat) : Prop :=
  ∀ reader, ∃ pieces : List Bytes, pieces.flatten = contents reader ∧
    ∀ {S : Type} (update : S → Bytes → S × Except Error Bytes) (state : S) (writer : Writer)
      (written : Nat), pump update limit state writer written reader =
        ((deliver update state writer written pieces).1,
          failing (deliver update state writer written pieces).2 (failure? reader))

theorem handsOn (positive : 0 < limit) : HandsOn limit := fun reader =>
  ⟨reads limit reader, reads_flatten positive reader, fun _ state writer written =>
    pump_reads positive state writer written reader⟩

/-- Without a buffer nothing is handed on, and any data are as good as none. -/
theorem pump_unbuffered {S : Type} (update : S → Bytes → S × Except Error Bytes) (state : S)
    (writer : Writer) (written : Nat) (reader : Reader) :
    pump update 0 state writer written (withoutFaults reader) =
      pump update 0 state writer written [] := by
  induction reader with
  | nil => rfl
  | cons event rest ih =>
    cases event with
    | fault fault => exact ih
    | bytes data =>
      obtain ⟨left, answer⟩ := readSome_unbuffered data (withoutFaults rest)
      rw [withoutFaults_bytes, pump_step, answer, pump_step]
      rfl

theorem encryptStream_unbuffered (unbuffered : context.streamBuffer = 0) (reader : Reader)
    (writer : Writer) (source : Entropy) :
    context.encryptStream (withoutFaults reader) writer source =
      context.encryptStream [] writer source := by
  simp only [Context.encryptStream, unbuffered, pump_unbuffered]

theorem decryptStream_unbuffered (unbuffered : context.streamBuffer = 0) (reader : Reader)
    (writer : Writer) :
    context.decryptStream (withoutFaults reader) writer = context.decryptStream [] writer := by
  simp only [Context.decryptStream, unbuffered, pump_unbuffered]

/-! ### Lengths -/

theorem streamBuffer_mod {cipher : C}
    (built : Context.withCipher cipher key iv config = .ok context) :
    context.streamBuffer = config.streamBlocks * config.blockSize % 2 ^ 64 := by
  rw [Context.streamBuffer, Context.blockSize, withCipher_config built]
  rfl

/-- There is a buffer of the length asked for if and only if that length can be counted, and then
it is not empty. There is any buffer at all if and only if the length is no multiple of what can be
counted. Then reads of no bytes come only at the end of the input and everything is handed on; or
else the message is lost, and nothing tells it from an empty one. -/
theorem streamBuffer_exact {cipher : C} {context : Context C}
    (built : Context.withCipher cipher key iv config = .ok context) :
    (context.streamBuffer = config.streamBlocks * config.blockSize ↔
        config.streamBlocks * config.blockSize ≤ 2 ^ 64 - 1) ∧
      (config.streamBlocks * config.blockSize ≤ 2 ^ 64 - 1 → 0 < context.streamBuffer) ∧
      (SeesEnd context.streamBuffer ↔ ¬ 2 ^ 64 ∣ config.streamBlocks * config.blockSize) ∧
      (SeesEnd context.streamBuffer → HandsOn context.streamBuffer) ∧
      (¬ SeesEnd context.streamBuffer → ∀ reader writer source,
        context.encryptStream (withoutFaults reader) writer source =
            context.encryptStream [] writer source ∧
          context.decryptStream (withoutFaults reader) writer =
            context.decryptStream [] writer) := by
  have asked : 0 < config.streamBlocks * config.blockSize :=
    Nat.mul_pos (withCipher_streamBlocks built) (withCipher_eq built).1
  rw [seesEnd_iff, streamBuffer_mod built]
  refine ⟨?_, ?_, ?_, handsOn, ?_⟩
  · constructor
    · intro exact_length
      have small := Nat.mod_lt (config.streamBlocks * config.blockSize) (Nat.two_pow_pos 64)
      omega
    · exact fun counted => Nat.mod_eq_of_lt (Nat.lt_of_le_sub_one (Nat.two_pow_pos 64) counted)
  · intro counted
    rwa [Nat.mod_eq_of_lt (Nat.lt_of_le_sub_one (Nat.two_pow_pos 64) counted)]
  · rw [Nat.pos_iff_ne_zero, ne_eq, Nat.dvd_iff_mod_eq_zero]
  · intro none_there reader writer source
    have unbuffered : context.streamBuffer = 0 :=
      (streamBuffer_mod built).trans (Nat.eq_zero_of_not_pos none_there)
    exact ⟨encryptStream_unbuffered unbuffered reader writer source,
      decryptStream_unbuffered unbuffered reader writer⟩

/-- A buffer of three times what can be counted and one block more. One block is left of it. -/
theorem streamBuffer_exact_shortened :
    ∃ context, Context.withCipher Magenta.standard (List.replicate 16 5) (List.replicate 16 2)
        { Config.sequential with streamBlocks := 3 <<< 60 + 1 } = .ok context ∧
      context.streamBuffer ≠ (3 <<< 60 + 1) * 16 ∧ HandsOn context.streamBuffer := by
  have built : Context.withCipher Magenta.standard (List.replicate 16 5) (List.replicate 16 2)
      { Config.sequential with streamBlocks := 3 <<< 60 + 1 } = .ok _ := rfl
  obtain ⟨counted, _, sees, hands_on, _⟩ := streamBuffer_exact built
  exact ⟨_, built, fun same => absurd (counted.mp same) (by decide),
    hands_on (sees.mpr (by decide))⟩

/-- A buffer of exactly as many bytes as cannot be counted any more. The settings are accepted,
nothing is left of the buffer, and every message is encrypted like an empty one. -/
theorem streamBuffer_lost :
    ∃ context, Context.withCipher Magenta.standard (List.replicate 16 5) (List.replicate 16 2)
        { Config.sequential with streamBlocks := 1 <<< 60 } = .ok context ∧
      ¬ (1 <<< 60) * 16 ≤ 2 ^ 64 - 1 ∧ context.streamBuffer = 0 ∧
      ¬ SeesEnd context.streamBuffer ∧
      ∀ data writer source, context.encryptStream [.bytes data] writer source =
        context.encryptStream [] writer source := by
  have built : Context.withCipher Magenta.standard (List.replicate 16 5) (List.replicate 16 2)
      { Config.sequential with streamBlocks := 1 <<< 60 } = .ok _ := rfl
  have unbuffered := streamBuffer_mod built
  refine ⟨_, built, by decide, unbuffered, ?_, fun data => ?_⟩
  · rw [seesEnd_iff, unbuffered]
    decide
  · exact encryptStream_unbuffered unbuffered [.bytes data]

end RoomCipher.StreamBuffers
