import Mathlib.Algebra.BigOperators.Ring.List
import Mathlib.Algebra.Ring.Nat
import RoomCipher.Cipher.Magenta
import RoomCipher.Proofs.ChainSteps
import RoomCipher.Proofs.PaddingLaws

/-! A message in parts. Whatever a chain has been through, a part that is cut between
blocks into smaller ones comes to the same: all of it goes through exactly if all of
them do, one after the other, and then the outputs are the same and so is the chain
that is left. How many workers take care of which part makes no difference. -/
namespace RoomCipher.ChainParts
open Chain ChainSteps PaddingLaws

/-- The chains that there can be: one starts with a message, and then anything is done to it in any
order, with any cipher, whether it succeeds or not. -/
inductive Reachable : Chain → Prop
  | start (mode : Mode) (iv : Bytes) (blockSize : Nat) : Reachable (Chain.start mode iv blockSize)
  | beginEncrypt (chain next : Chain) (header : Bytes) (source rest : Entropy)
    (reached : Reachable chain) (begun : chain.beginEncrypt source = .ok (next, header, rest)) :
    Reachable next
  | beginDecrypt (chain : Chain) (header : Bytes) (reached : Reachable chain) :
    Reachable (chain.beginDecrypt header).1
  | encrypt {C : Type} [BlockCipher C] (chain : Chain) (cipher : C) (data : Bytes) (workers : Nat)
    (reached : Reachable chain) : Reachable (chain.encrypt cipher data workers).1
  | decrypt {C : Type} [BlockCipher C] (chain : Chain) (cipher : C) (data : Bytes) (workers : Nat)
    (reached : Reachable chain) : Reachable (chain.decrypt cipher data workers).1

variable {C : Type} [BlockCipher C]

/-- A part leaves everything but the register and the count alone, even where it fails. -/
theorem advance_fixed (chain : Chain) (direction : Direction) (cipher : C) (data : Bytes)
    (workers : Nat) : (chain.advance direction cipher data workers).1 =
      { chain with
        feedback := (chain.advance direction cipher data workers).1.feedback
        position := (chain.advance direction cipher data workers).1.position } := by
  rw [advance]
  cases chain.checkAligned data with
  | error e => rfl
  | ok _ =>
    obtain ⟨register, result⟩ := chain.transform direction cipher data workers
    cases result <;> rfl

theorem advance_fits {chain : Chain} (fits : DeltaFits chain) (direction : Direction) (cipher : C)
    (data : Bytes) (workers : Nat) :
    DeltaFits (chain.advance direction cipher data workers).1 := by
  rw [advance_fixed]
  exact fits

/-- A header step before encryption draws a block in the RandomDelta mode and does nothing in the
others. -/
theorem beginEncrypt_cases {chain next : Chain}
    (begun : chain.beginEncrypt source = .ok (next, header, rest)) :
    (chain.mode = .randomDelta ∧ header.length = chain.blockSize ∧
      next = { chain with delta := header }) ∨ (chain.mode ≠ .randomDelta ∧ next = chain) := by
  rw [beginEncrypt] at begun
  split at begun
  next drawn =>
    obtain ⟨_, _, made⟩ := Outcomes.bind_eq_ok.mp begun
    cases made
    exact .inl ⟨drawn, length_draw source chain.blockSize, rfl⟩
  next plain =>
    cases begun
    exact .inr ⟨plain, rfl⟩

/-- One before decryption takes the block from the header, if the header is as long as the mode
wants it to be. -/
theorem beginDecrypt_cases (chain : Chain) (header : Bytes) :
    (∃ e, chain.beginDecrypt header = (chain, .error e)) ∨
      (chain.mode = .randomDelta ∧ header.length = chain.blockSize ∧
        chain.beginDecrypt header = ({ chain with delta := header }, .ok ())) ∨
      (chain.mode ≠ .randomDelta ∧ chain.beginDecrypt header = (chain, .ok ())) := by
  rw [beginDecrypt]
  split
  · exact .inl ⟨_, rfl⟩
  next complete =>
    split
    next drawn =>
      rw [headerLength, if_pos drawn] at complete
      exact .inr (.inl ⟨drawn, Decidable.not_not.mp complete, rfl⟩)
    next plain => exact .inr (.inr ⟨plain, rfl⟩)

theorem beginDecrypt_fixed (chain : Chain) (header : Bytes) :
    (chain.beginDecrypt header).1 =
      { chain with delta := (chain.beginDecrypt header).1.delta } := by
  rcases beginDecrypt_cases chain header with ⟨_, left⟩ | ⟨_, _, taken⟩ | ⟨_, left⟩
  · rw [left]
  · rw [taken]
  · rw [left]

theorem beginEncrypt_fits {chain next : Chain} (fits : DeltaFits chain)
    (begun : chain.beginEncrypt source = .ok (next, header, rest)) : DeltaFits next := by
  rcases beginEncrypt_cases begun with ⟨_, full, rfl⟩ | ⟨_, rfl⟩
  · exact .inr full
  · exact fits

theorem beginDecrypt_fits {chain : Chain} (fits : DeltaFits chain) (header : Bytes) :
    DeltaFits (chain.beginDecrypt header).1 := by
  rcases beginDecrypt_cases chain header with ⟨_, left⟩ | ⟨_, full, taken⟩ | ⟨_, left⟩
  · rw [left]
    exact fits
  · rw [taken]
    exact .inr full
  · rw [left]
    exact fits

/-- A delta comes from a header, and a header is one block long. -/
theorem reachable_fits {chain : Chain} (reached : Reachable chain) : DeltaFits chain := by
  induction reached with
  | start mode iv blockSize => exact .inl rfl
  | beginEncrypt chain next header source rest reached begun fits =>
    exact beginEncrypt_fits fits begun
  | beginDecrypt chain header reached fits => exact beginDecrypt_fits fits header
  | encrypt chain cipher data workers reached fits =>
    exact advance_fits fits .encrypt cipher data workers
  | decrypt chain cipher data workers reached fits =>
    exact advance_fits fits .decrypt cipher data workers

/-- The parts of a message one after the other, each with a number of workers, until one fails. -/
def inParts (take : Chain → Bytes → Nat → Chain × Except Error Bytes) :
    Chain → List (Bytes × Nat) → Chain × Except Error Bytes
  | chain, [] => (chain, .ok [])
  | chain, (part, workers) :: rest =>
    match take chain part workers with
    | (next, .error e) => (next, .error e)
    | (next, .ok out) =>
      let (last, result) := inParts take next rest
      (last, result.map (out ++ ·))

theorem delivered_inParts (take : Chain → Bytes → Nat → Chain × Except Error Bytes)
    (chain : Chain) (part : Bytes) (workers : Nat) (rest : List (Bytes × Nat)) :
    delivered (inParts take chain ((part, workers) :: rest)) = (do
      let (next, out) ← delivered (take chain part workers)
      let (last, outs) ← delivered (inParts take next rest)
      return (last, out ++ outs)) := by
  rw [inParts]
  obtain ⟨next, outcome⟩ := take chain part workers
  cases outcome with
  | error e => rfl
  | ok out =>
    simp only [delivered, Except.toOption, Option.map_some, bind, Option.bind_some]
    cases (inParts take next rest).2 <;> rfl

/-- What a chain makes of a message and of its parts, as far as it succeeds. -/
theorem delivered_parts (cipher : C) (direction : Direction) {chain : Chain}
    (positive : 0 < chain.blockSize) (fits : DeltaFits chain) (workers : Nat)
    (parts : List (Bytes × Nat)) (aligned : ∀ part ∈ parts, chain.blockSize ∣ part.1.length) :
    delivered (chain.advance direction cipher (parts.flatMap (·.1)) workers) =
      delivered (inParts (·.advance direction cipher) chain parts) := by
  induction parts generalizing chain with
  | nil =>
    rw [List.flatMap_nil, advance_nil cipher direction positive fits]
    rfl
  | cons part rest ih =>
    obtain ⟨part, share⟩ := part
    have first : chain.blockSize ∣ part.length := aligned (part, share) (by simp)
    have later : ∀ other ∈ rest, chain.blockSize ∣ other.1.length :=
      fun other member => aligned other (by simp [member])
    have together : chain.blockSize ∣ (rest.flatMap (·.1)).length := by
      rw [List.length_flatMap]
      refine List.dvd_sum fun length member => ?_
      obtain ⟨other, present, rfl⟩ := List.mem_map.mp member
      exact later other present
    rw [List.flatMap_cons, advance_append cipher direction chain part _ workers share workers positive
      fits first together, delivered_inParts]
    cases taken : delivered (chain.advance direction cipher part share) with
    | none => rfl
    | some result =>
      obtain ⟨middle, out⟩ := result
      -- The rest starts from a chain of the same block size whose delta still fits.
      have middle_eq : middle = (chain.advance direction cipher part share).1 :=
        (congrArg Prod.fst (delivered_eq_some.mp taken)).symm
      have size : middle.blockSize = chain.blockSize := by rw [middle_eq, advance_fixed]
      have middle_fits : DeltaFits middle := middle_eq ▸ advance_fits fits direction cipher part share
      simp only [bind, Option.bind_some]
      rw [ih (size ▸ positive) middle_fits (size ▸ later)]

/-- A part of a message may be cut further wherever blocks meet, and each cut have its own workers:
it succeeds if and only if they all do, with the same output and the same chain at the end. -/
theorem inParts_agrees {chain : Chain} (reached : Reachable chain) (positive : 0 < chain.blockSize)
    (cipher : C) (parts : List (Bytes × Nat))
    (aligned : ∀ part ∈ parts, chain.blockSize ∣ part.1.length) (workers : Nat) (last : Chain)
    (out : Bytes) :
    (chain.encrypt cipher (parts.flatMap (·.1)) workers = (last, .ok out) ↔
      inParts (·.encrypt cipher) chain parts = (last, .ok out)) ∧
    (chain.decrypt cipher (parts.flatMap (·.1)) workers = (last, .ok out) ↔
      inParts (·.decrypt cipher) chain parts = (last, .ok out)) := by
  have agree (direction : Direction) :=
    delivered_parts cipher direction positive (reachable_fits reached) workers parts aligned
  constructor
  · rw [← delivered_eq_some, ← delivered_eq_some]
    exact Eq.congr_left (agree .encrypt)
  · rw [← delivered_eq_some, ← delivered_eq_some]
    exact Eq.congr_left (agree .decrypt)

/-- MAGENTA under a short key. -/
def keyed : Magenta := (Magenta.standard.setKey [1, 2, 3]).1

/-- A chain whose register is no longer the starting block. -/
def used : Chain :=
  ((Chain.start .pcbc (List.replicate 16 9) 16).decrypt keyed (List.replicate 16 5) 1).1

/-- Three blocks in three parts, the middle one empty and without workers. -/
def threeParts : List (Bytes × Nat) := [(List.replicate 32 6, 1), ([], 0), (List.replicate 16 7, 8)]

theorem inParts_agrees_used :
    Reachable used ∧ 0 < used.blockSize ∧
      (∀ part ∈ threeParts, used.blockSize ∣ part.1.length) ∧
      ∃ last out, used.encrypt keyed (threeParts.flatMap (·.1)) 4 = (last, .ok out) ∧
        inParts (·.encrypt keyed) used threeParts = (last, .ok out) := by
  have reached : Reachable used := .decrypt _ keyed _ 1 (.start .pcbc (List.replicate 16 9) 16)
  have positive : 0 < used.blockSize := by decide +kernel
  have aligned : ∀ part ∈ threeParts, used.blockSize ∣ part.1.length := by decide +kernel
  have succeeds : (delivered (used.encrypt keyed (threeParts.flatMap (·.1)) 4)).isSome := by
    decide +kernel
  obtain ⟨⟨last, out⟩, whole⟩ := Option.isSome_iff_exists.mp succeeds
  have encrypted := delivered_eq_some.mp whole
  have parts := (inParts_agrees reached positive keyed threeParts aligned 4 last out).1.mp encrypted
  exact ⟨reached, positive, aligned, last, out, encrypted, parts⟩

end RoomCipher.ChainParts
