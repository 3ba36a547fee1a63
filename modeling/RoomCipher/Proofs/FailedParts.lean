import RoomCipher.Proofs.ChainParts

/-! What a part of a message that fails leaves behind. The count and the delta of the chain are what
they were. So is the register in the modes that hand their blocks to the workers. In the modes that
go from block to block it has followed the blocks before the failure, and the chain carries on from
there as if those blocks, which are not counted, had been a part of their own. -/
namespace RoomCipher.FailedParts
open Chain ByteLaws ChainSteps ChainParts

variable {C : Type} [BlockCipher C]

/-- What a mode does with its register, if it keeps one. -/
def register? : Mode → Option Feedback
  | .cbc => some .cbc
  | .pcbc => some .pcbc
  | .cfb => some .cfb
  | .ofb => some .ofb
  | .ecb | .ctr | .randomDelta => none

theorem transform_register {chain : Chain} (keeps : register? chain.mode = some kept)
    (direction : Direction) (cipher : C) (data : Bytes) (workers : Nat) :
    chain.transform direction cipher data workers =
      Feedback.run (kept.step cipher direction) chain.feedback
        (Bytes.pieces chain.blockSize data) := by
  obtain ⟨mode, blockSize, iv, feedback, position, delta⟩ := chain
  cases mode <;> cases keeps <;> rfl

theorem transform_still {chain : Chain} (keeps : register? chain.mode = none)
    (direction : Direction) (cipher : C) (data : Bytes) (workers : Nat) :
    (chain.transform direction cipher data workers).1 = chain.feedback := by
  obtain ⟨mode, blockSize, iv, feedback, position, delta⟩ := chain
  cases mode <;> cases keeps <;> cases direction <;> rfl

/-! ### Where a part fails -/

/-- How far a mode gets through some blocks: those before number `k` take the register to `reached`,
and the block with that number fails and leaves it at `left`. -/
structure HaltsAt (step : Bytes → Bytes → Bytes × Except Error Bytes) (register : Bytes)
    (blocks : List Bytes) (k : Nat) (reached left : Bytes) (e : Error) : Prop where
  before : ∃ out, Feedback.run step register (blocks.take k) = (reached, .ok out)
  halt : ∃ block, blocks[k]? = some block ∧ step reached block = (left, .error e)

section Run

variable {step : Bytes → Bytes → Bytes × Except Error Bytes}

theorem run_cons_ok (taken : step register block = (next, .ok out)) :
    Feedback.run step register (block :: rest) = (last, result) ↔
      ∃ later, Feedback.run step next rest = (last, later) ∧ later.map (out ++ ·) = result := by
  simp only [Feedback.run, taken, Prod.ext_iff]
  constructor
  · rintro ⟨same, mapped⟩
    exact ⟨_, ⟨same, rfl⟩, mapped⟩
  · rintro ⟨later, ⟨same, rfl⟩, mapped⟩
    exact ⟨same, mapped⟩

theorem run_cons_error (failed : step register block = (left, .error e)) :
    Feedback.run step register (block :: rest) = (left, .error e) := by
  simp only [Feedback.run, failed]

/-- The blocks fail exactly if there is one at which they do. -/
theorem run_eq_error {blocks : List Bytes} :
    Feedback.run step register blocks = (left, .error e) ↔
      ∃ k reached, HaltsAt step register blocks k reached left e := by
  induction blocks generalizing register with
  | nil =>
    constructor
    · intro done
      cases done
    · rintro ⟨k, reached, _, block, found, _⟩
      cases found
  | cons block rest ih =>
    cases first : step register block with
    | mk next result =>
      cases result with
      | error cause =>
        rw [run_cons_error first]
        constructor
        · intro same
          cases same
          exact ⟨0, register, ⟨[], rfl⟩, block, rfl, first⟩
        · rintro ⟨k, reached, ⟨out, before⟩, halted, found, halt⟩
          cases k with
          | zero =>
            cases before
            cases found
            exact first.symm.trans halt
          | succ k =>
            rw [List.take_succ_cons, run_cons_error first] at before
            cases before
      | ok out =>
        rw [run_cons_ok first]
        constructor
        · rintro ⟨later, failed, mapped⟩
          cases later with
          | ok outs => cases mapped
          | error cause =>
            cases mapped
            obtain ⟨k, reached, ⟨outs, before⟩, halt⟩ := ih.mp failed
            refine ⟨k + 1, reached, ⟨out ++ outs, ?_⟩, halt⟩
            rw [List.take_succ_cons, run_cons_ok first]
            exact ⟨_, before, rfl⟩
        · rintro ⟨k, reached, ⟨outs, before⟩, halted, found, halt⟩
          cases k with
          | zero =>
            cases before
            cases found
            cases first.symm.trans halt
          | succ k =>
            rw [List.take_succ_cons, run_cons_ok first] at before
            obtain ⟨later, before, mapped⟩ := before
            obtain ⟨more, rfl, _⟩ := Outcomes.map_eq_ok.mp mapped
            exact ⟨_, ih.mpr ⟨k, reached, ⟨more, before⟩, halted, found, halt⟩, rfl⟩

end Run

/-- A block that fails leaves the register alone, but for OFB, where the register is turned over
before it turns out that it does not fit the block. -/
theorem step_left {mode : Feedback} {direction : Direction} {cipher : C}
    (failed : mode.step cipher direction register block = (left, .error e)) :
    left = register ∨ mode = .ofb ∧ BlockCipher.encryptBlock cipher register = .ok left := by
  have kept {result : Except Error (Bytes × Bytes)}
      (failed : Feedback.keeping register result = (left, .error e)) : left = register := by
    cases result with
    | ok made => cases failed
    | error cause =>
      cases failed
      rfl
  cases mode with
  | cbc => cases direction <;> exact .inl (kept failed)
  | pcbc => cases direction <;> exact .inl (kept failed)
  | cfb => cases direction <;> exact .inl (kept failed)
  | ofb =>
    simp only [Feedback.step] at failed
    split at failed
    · cases failed
      exact .inl rfl
    next next turned =>
      have same : next = left := congrArg Prod.fst failed
      exact .inr ⟨rfl, same ▸ turned⟩

/-! ### What is left -/

/-- A chain that keeps a register does not look at its count. -/
theorem advance_uncounted {chain other : Chain} (keeps : register? chain.mode = some kept)
    (mode : other.mode = chain.mode) (size : other.blockSize = chain.blockSize)
    (feedback : other.feedback = chain.feedback) (direction : Direction) (cipher : C) (data : Bytes)
    (workers spread : Nat) :
    (other.advance direction cipher data workers).2 =
      (chain.advance direction cipher data spread).2 := by
  have rekeeps : register? other.mode = some kept := mode ▸ keeps
  have accepted : other.checkAligned data = chain.checkAligned data := by
    simp only [Chain.checkAligned, size]
  simp only [Chain.advance, transform_register keeps, transform_register rekeeps, accepted, size,
    feedback]
  cases chain.checkAligned data with
  | error e => rfl
  | ok _ =>
    obtain ⟨register, result⟩ := Feedback.run (kept.step cipher direction) chain.feedback
      (Bytes.pieces chain.blockSize data)
    cases result <;> rfl

/-- A part that fails is not counted, and nothing but the register shows that it was there. -/
theorem advance_error {chain next : Chain} {direction : Direction} {cipher : C}
    (answer : chain.advance direction cipher data workers = (next, .error e)) :
    next = { chain with feedback := next.feedback } ∧
      (chain.checkAligned data = .error e ∧ next.feedback = chain.feedback ∨
        chain.checkAligned data = .ok () ∧
          chain.transform direction cipher data workers = (next.feedback, .error e)) := by
  unfold Chain.advance at answer
  split at answer
  next refused =>
    cases answer
    exact ⟨rfl, .inl ⟨refused, rfl⟩⟩
  next accepted =>
    split at answer
    next failed =>
      cases answer
      exact ⟨rfl, .inr ⟨accepted, failed⟩⟩
    · cases answer

/-- The blocks before the failure are taken if they come as a part of their own. -/
theorem HaltsAt.taken {chain : Chain} {direction : Direction} {cipher : C}
    (keeps : register? chain.mode = some kept) (accepted : chain.checkAligned data = .ok ())
    (halts : HaltsAt (kept.step cipher direction) chain.feedback
      (Bytes.pieces chain.blockSize data) k reached left e) (workers : Nat) :
    ∃ out, chain.advance direction cipher (data.take (k * chain.blockSize)) workers =
      ({ chain with feedback := reached, position := chain.position + UInt64.ofNat k },
        .ok out) := by
  obtain ⟨positive, aligned⟩ := checkAligned_eq_ok.mp accepted
  obtain ⟨⟨out, before⟩, block, found, _⟩ := halts
  have bound : k < data.length / chain.blockSize := by
    rw [← length_pieces positive aligned]
    exact (List.getElem?_eq_some_iff.mp found).1
  have within : k * chain.blockSize ≤ data.length :=
    Nat.le_trans (Nat.mul_le_mul_right _ (Nat.le_of_lt bound)) (Nat.div_mul_le_self _ _)
  have length : (data.take (k * chain.blockSize)).length = k * chain.blockSize :=
    List.length_take_of_le within
  have front : chain.checkAligned (data.take (k * chain.blockSize)) = .ok () := by
    refine checkAligned_eq_ok.mpr ⟨positive, ?_⟩
    rw [length]
    exact Nat.dvd_mul_left _ _
  refine ⟨out, ?_⟩
  simp only [Chain.advance, front, transform_register keeps, pieces_take positive within, before,
    length, Nat.mul_div_cancel _ positive]

/-- In a mode that keeps a register the failure is that of some block. -/
theorem advance_run {chain next : Chain} {direction : Direction} {cipher : C}
    (answer : chain.advance direction cipher data workers = (next, .error e))
    (keeps : register? chain.mode = some kept) (accepted : chain.checkAligned data = .ok ()) :
    Feedback.run (kept.step cipher direction) chain.feedback (Bytes.pieces chain.blockSize data) =
      (next.feedback, .error e) := by
  rcases (advance_error answer).2 with ⟨refused, _⟩ | ⟨_, transformed⟩
  · cases accepted.symm.trans refused
  · rw [← transform_register keeps direction cipher data workers]
    exact transformed

theorem advance_unmoved_iff {chain next : Chain} {direction : Direction} {cipher : C}
    (answer : chain.advance direction cipher data workers = (next, .error e)) :
    next = chain ↔ register? chain.mode = none ∨ chain.checkAligned data ≠ .ok () ∨
      ∃ kept k reached, register? chain.mode = some kept ∧
        HaltsAt (kept.step cipher direction) chain.feedback (Bytes.pieces chain.blockSize data) k
          reached chain.feedback e := by
  obtain ⟨frame, outcome⟩ := advance_error answer
  constructor
  · intro same
    cases keeps : register? chain.mode with
    | none => exact .inl rfl
    | some kept =>
      by_cases accepted : chain.checkAligned data = .ok ()
      · have failed := advance_run answer keeps accepted
        rw [same] at failed
        obtain ⟨k, reached, halts⟩ := run_eq_error.mp failed
        exact .inr (.inr ⟨kept, k, reached, rfl, halts⟩)
      · exact .inr (.inl accepted)
  · intro still
    have same : next.feedback = chain.feedback := by
      rcases outcome with ⟨_, same⟩ | ⟨accepted, transformed⟩
      · exact same
      · rcases still with keeps | refused | ⟨kept, k, reached, keeps, halts⟩
        · rw [← transform_still keeps direction cipher data workers, transformed]
        · exact absurd accepted refused
        · have back := run_eq_error.mpr ⟨k, reached, halts⟩
          exact congrArg Prod.fst ((advance_run answer keeps accepted).symm.trans back)
    rw [frame, same]

/-- After the failure the chain goes on from where the blocks before it had led. -/
theorem advance_moved {chain next : Chain} {direction : Direction} {cipher : C}
    (answer : chain.advance direction cipher data workers = (next, .error e))
    (keeps : register? chain.mode = some kept) (accepted : chain.checkAligned data = .ok ()) :
    ∃ k middle out,
      HaltsAt (kept.step cipher direction) chain.feedback (Bytes.pieces chain.blockSize data) k
        middle.feedback next.feedback e ∧
      chain.advance direction cipher (data.take (k * chain.blockSize)) workers =
        (middle, .ok out) ∧
      (next.feedback = middle.feedback ∧
          (∀ {D : Type} [BlockCipher D] (way : Direction) (other : D) (retry : Bytes)
            (spread : Nat), (next.advance way other retry spread).2 =
              (middle.advance way other retry spread).2) ∨
        kept = .ofb ∧ BlockCipher.encryptBlock cipher middle.feedback = .ok next.feedback) := by
  obtain ⟨k, reached, halts⟩ := run_eq_error.mp (advance_run answer keeps accepted)
  obtain ⟨out, taken⟩ := halts.taken keeps accepted workers
  obtain ⟨block, _, halt⟩ := halts.halt
  have frame := (advance_error answer).1
  have mode : next.mode = chain.mode := by rw [frame]
  have size : next.blockSize = chain.blockSize := by rw [frame]
  refine ⟨k, _, out, halts, taken, (step_left halt).imp_left fun same => ⟨same, ?_⟩⟩
  intro D _ way other retry spread
  apply advance_uncounted
  · exact keeps
  · exact mode
  · exact size
  · exact same

/-- A part that fails leaves all of a chain but its register as it was. The register too is as it
was if the mode keeps none, if the part is not made of blocks, or if the failure finds the register
back where it started, and not otherwise. It has followed the blocks before the one at which the
part failed, so whatever the chain is given next is answered as if these had been a part of their
own, save for an OFB register that was turned over once more for the block itself. -/
theorem failed_part_unmoved_iff {chain next : Chain} {direction : Direction} {cipher : C}
    (answer : chain.advance direction cipher data workers = (next, .error e)) :
    next = { chain with feedback := next.feedback } ∧
    (next = chain ↔
      register? chain.mode = none ∨ chain.checkAligned data ≠ .ok () ∨
      ∃ kept k reached, register? chain.mode = some kept ∧
        HaltsAt (kept.step cipher direction) chain.feedback (Bytes.pieces chain.blockSize data) k
          reached chain.feedback e) ∧
    ∀ kept, register? chain.mode = some kept → chain.checkAligned data = .ok () →
      ∃ k middle out,
        HaltsAt (kept.step cipher direction) chain.feedback (Bytes.pieces chain.blockSize data) k
          middle.feedback next.feedback e ∧
        chain.advance direction cipher (data.take (k * chain.blockSize)) workers =
          (middle, .ok out) ∧
        (next.feedback = middle.feedback ∧
            (∀ {D : Type} [BlockCipher D] (way : Direction) (other : D) (retry : Bytes)
              (spread : Nat), (next.advance way other retry spread).2 =
                (middle.advance way other retry spread).2) ∨
          kept = .ofb ∧ BlockCipher.encryptBlock cipher middle.feedback = .ok next.feedback) :=
  ⟨(advance_error answer).1, advance_unmoved_iff answer,
    fun _ keeps accepted => advance_moved answer keeps accepted⟩

/-- Blocks that every key leaves as they are, save for those it refuses: the ones that begin with a
certain byte. -/
structure Picky where
  size : Nat
  refused : UInt8

/-- The block, if it is not refused. -/
def Picky.pass (cipher : Picky) (block : Bytes) : Except Error Bytes :=
  if block.head? = some cipher.refused then .error (.internal "rejected block") else .ok block

instance : BlockCipher Picky where
  algorithm _ := .magenta
  blockSize cipher := cipher.size
  isKeyed _ := true
  setKey cipher _ := (cipher, .ok ())
  encryptBlock := Picky.pass
  decryptBlock := Picky.pass

/-- Two blocks go through and the third one fails, because the second is in the register and is
refused there. The register stays at it, so a block that comes later is refused as well. -/
theorem failed_part_unmoved_iff_stuck :
    ∃ next, (Chain.start .cfb [0] 1).advance .decrypt (⟨1, 255⟩ : Picky) [1, 255, 7] 1 =
        (next, .error (.internal "rejected block")) ∧
      next.position = 0 ∧ next ≠ Chain.start .cfb [0] 1 ∧
      ∃ k middle out,
        (Chain.start .cfb [0] 1).advance .decrypt (⟨1, 255⟩ : Picky)
          (List.take (k * 1) [1, 255, 7]) 1 = (middle, .ok out) ∧
        next.feedback = middle.feedback ∧
        (middle.advance .encrypt (⟨1, 255⟩ : Picky) [9] 1).2 =
          .error (.internal "rejected block") := by
  have answer : (Chain.start .cfb [0] 1).advance .decrypt (⟨1, 255⟩ : Picky) [1, 255, 7] 1 =
      ({ Chain.start .cfb [0] 1 with feedback := [255] }, .error (.internal "rejected block")) := by
    decide +kernel
  obtain ⟨_, _, moved⟩ := failed_part_unmoved_iff answer
  obtain ⟨k, middle, out, _, taken, ⟨same, retried⟩ | ⟨other, _⟩⟩ := moved .cfb rfl rfl
  · refine ⟨_, answer, rfl, nofun, k, middle, out, taken, same, ?_⟩
    rw [← retried .encrypt (⟨1, 255⟩ : Picky) [9] 1]
    decide +kernel
  · cases other

/-- The second block is refused and the first is left in the register. What comes next is answered
differently than it would have been without the part that failed. -/
theorem failed_part_moves_register :
    ∃ next, (Chain.start .cbc [0] 1).decrypt (⟨1, 255⟩ : Picky) [1, 255] 1 =
        (next, .error (.internal "rejected block")) ∧
      next.feedback ≠ (Chain.start .cbc [0] 1).feedback ∧
      (next.decrypt (⟨1, 255⟩ : Picky) [1] 1).2 = .ok [0] ∧
      ((Chain.start .cbc [0] 1).decrypt (⟨1, 255⟩ : Picky) [1] 1).2 = .ok [1] := by
  have failed : (Chain.start .cbc [0] 1).decrypt (⟨1, 255⟩ : Picky) [1, 255] 1 =
      ({ Chain.start .cbc [0] 1 with feedback := [1] }, .error (.internal "rejected block")) := by
    decide +kernel
  refine ⟨_, failed, nofun, ?_, ?_⟩
  · decide +kernel
  · decide +kernel

end RoomCipher.FailedParts
