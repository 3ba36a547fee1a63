import RoomCipher.Proofs.ByteLaws
import RoomCipher.Proofs.Outcomes
import RoomCipher.Workers

/-! Sharing blocks among workers is the plain loop over them. Each share starts at
its own global number and stops at its own first failure, and putting the shares
together in order keeps the failure of the lowest block. What a worker adds is only
that a block function which gives up inside it looks like an internal failure. -/
namespace RoomCipher.WorkerEquivalence
open Workers ByteLaws Outcomes

/-- The loop over two runs of blocks is the loop over the first one and then over the second one
with the numbers that follow. -/
theorem run_append (f : BlockFunction) (first : Nat) (front back : List Bytes) :
    run f first (front ++ back) = (do
      let out ← run f first front
      let rest ← run f (first + front.length) back
      return out ++ rest) := by
  induction front generalizing first with
  | nil =>
    simp only [List.nil_append, List.length_nil, Nat.add_zero, run]
    cases run f first back <;> rfl
  | cons block front ih =>
    simp only [List.cons_append, run, ih, List.length_cons, Nat.add_assoc, Nat.add_comm 1]
    cases apply f first block with
    | error e => rfl
    | ok out =>
      cases run f (first + 1) front with
      | error e => rfl
      | ok outs =>
        cases run f (first + (front.length + 1)) back with
        | error e => rfl
        | ok rest => simp [bind, Except.bind, pure, Except.pure, List.append_assoc]

/-- Containing two results one after the other contains their sequence. -/
theorem contain_sequence (front : Except Error Bytes) (back : Except Error Bytes) :
    (do
      let out ← contain front
      let rest ← contain back
      return out ++ rest) = contain (do
      let out ← front
      let rest ← back
      return out ++ rest) := by
  cases front with
  | error e => cases e <;> rfl
  | ok out =>
    cases back with
    | error e => cases e <;> rfl
    | ok rest => rfl

/-- Shares of `share` blocks, each started at the number of its first block, are gathered to what
the single loop would have given. -/
theorem gather_shares (f : BlockFunction) (share first : Nat) (positive : 0 < share)
    (blocks : List Bytes) :
    gather ((Bytes.pieces share blocks).mapIdx fun i part =>
      contain (run f (first + i * share) part)) = contain (run f first blocks) := by
  obtain ⟨short, rfl⟩ : ∃ short, share = short + 1 := ⟨share - 1, by omega⟩
  -- The cut is by length, so the induction is on how many blocks are left.
  induction h : blocks.length using Nat.strongRecOn generalizing first blocks with
  | ind count ih =>
    cases blocks with
    | nil => simp [gather, run, contain]
    | cons block rest =>
      subst h
      have fewer : (rest.drop short).length < (block :: rest).length := by
        rw [List.length_drop, List.length_cons]
        omega
      have later := ih (rest.drop short).length fewer (first + (short + 1)) (rest.drop short) rfl
      have numbers (i : Nat) :
          first + (i + 1) * (short + 1) = first + (short + 1) + i * (short + 1) := by
        rw [Nat.succ_mul]
        omega
      -- A share that is short of blocks is the last one, after which no number matters.
      have next : run f (first + (short + 1)) (rest.drop short) =
          run f (first + (block :: rest.take short).length) (rest.drop short) := by
        by_cases last : rest.length ≤ short
        · simp [List.drop_eq_nil_of_le last, run]
        · simp [List.length_take, Nat.min_eq_left (Nat.le_of_not_le last)]
      have whole : block :: rest = (block :: rest.take short) ++ rest.drop short := by simp
      simp only [Bytes.pieces, List.mapIdx_cons, gather, Nat.zero_mul, Nat.add_zero, numbers, later]
      rw [contain_sequence, next, ← run_append, ← whole]

private theorem tasks_done {α β : Type} (work : Nat → α → β) (parts : List α) :
    (parts.mapIdx fun i part => Task.spawn fun _ => work i part).map Task.get =
      parts.mapIdx work := by
  apply List.ext_getElem?
  intro i
  simp only [List.getElem?_map, List.getElem?_mapIdx, Option.map_map]
  rfl

/-- What sharing blocks among workers comes to: the plain loop, and the loop as seen from outside
a worker where there is more than one. -/
theorem processBlocks_eq (f : BlockFunction) (limit : Nat) (positive : 0 < blockSize)
    (aligned : blockSize ∣ data.length) :
    processBlocks data blockSize limit f =
      if effective (data.length / blockSize) limit = 1 then run f 0 (Bytes.pieces blockSize data)
      else contain (run f 0 (Bytes.pieces blockSize data)) := by
  have nonzero : blockSize ≠ 0 := Nat.ne_of_gt positive
  obtain ⟨blocks, rfl, full⟩ := exists_blocks aligned
  have count : blocks.flatten.length / blockSize = blocks.length := by
    rw [length_flatten full, Nat.mul_div_cancel _ positive]
  simp only [processBlocks, nonzero, ↓reduceIte, count, pieces_flatten positive full]
  by_cases empty : blocks.length = 0
  · have single : effective blocks.length limit = 1 := by
      rw [empty, effective, minBlocks]
      omega
    rw [if_pos empty, if_pos single, List.eq_nil_of_length_eq_zero empty]
    rfl
  · simp only [empty, ↓reduceIte]
    split
    · rfl
    · have workers : 1 ≤ effective blocks.length limit := by
        rw [effective]
        omega
      have share : 0 < (blocks.length + effective blocks.length limit - 1) /
          effective blocks.length limit := by
        apply Nat.div_pos <;> omega
      have shares := gather_shares f _ 0 share blocks
      simp only [Nat.zero_add] at shares
      rw [tasks_done]
      exact shares

/-- Whether and what the workers deliver does not depend on how many there are. -/
theorem processBlocks_toOption (f : BlockFunction) (limit : Nat) (positive : 0 < blockSize)
    (aligned : blockSize ∣ data.length) :
    (processBlocks data blockSize limit f).toOption =
      (run f 0 (Bytes.pieces blockSize data)).toOption := by
  rw [processBlocks_eq f limit positive aligned]
  split
  · rfl
  · cases run f 0 (Bytes.pieces blockSize data) with
    | error e => cases e <;> rfl
    | ok out => rfl

/-! ### What the loop returns -/

/-- The block of data that has that number. -/
def blockAt (data : Bytes) (blockSize number : Nat) : Bytes :=
  (data.drop (number * blockSize)).take blockSize

/-- A block function does what it is for: it returns one full block. -/
def Delivers (f : BlockFunction) (blockSize number : Nat) (block out : Bytes) : Prop :=
  f number block = .ok out ∧ out.length = blockSize

/-- What is reported of a block function that does not: its own failure under the number of the
block, or how many bytes it returned instead. -/
inductive Offends (f : BlockFunction) (blockSize number : Nat) (block : Bytes) : Error → Prop
  | fails (source : Error) (answer : f number block = .error source) :
    Offends f blockSize number block (.worker number source)
  | misfits (out : Bytes) (answer : f number block = .ok out) (odd : out.length ≠ blockSize) :
    Offends f blockSize number block
      (.internal s!"block {number} produced {out.length} bytes, expected {blockSize}")

variable {f : BlockFunction} {number : Nat} {block : Bytes}

theorem apply_delivers (full : block.length = blockSize) :
    apply f number block = .ok out ↔ Delivers f blockSize number block out := by
  rw [apply, Delivers]
  cases answer : f number block with
  | error e => cases e <;> simp
  | ok given =>
    by_cases same : given.length = block.length
    · simp only [same, ↓reduceIte, Except.ok.injEq]
      constructor
      · rintro rfl
        exact ⟨rfl, same.trans full⟩
      · exact And.left
    · simp only [same, ↓reduceIte, reduceCtorEq, Except.ok.injEq, false_iff]
      rintro ⟨rfl, length⟩
      exact same (length.trans full.symm)

theorem apply_offends (full : block.length = blockSize)
    (returns : ∀ cause, f number block ≠ .error (.aborted cause)) :
    apply f number block = .error e ↔ Offends f blockSize number block e := by
  constructor
  · intro failed
    rw [apply] at failed
    split at failed
    next cause answer => exact absurd answer (returns cause)
    next source _ answer =>
      cases failed
      exact .fails source answer
    next out answer =>
      split at failed
      · cases failed
      next odd =>
        cases failed
        rw [full] at odd ⊢
        exact .misfits out answer odd
  · intro offence
    cases offence with
    | fails source answer =>
      rw [apply, answer]
      cases source with
      | aborted cause => exact absurd answer (returns cause)
      | _ => rfl
    | misfits out answer odd =>
      simp only [apply, answer, full, odd, ↓reduceIte]

private theorem number_next (first i : Nat) : first + 1 + i = first + (i + 1) := by omega

/-- The loop succeeds exactly if every call does, and joins what the calls return. -/
theorem run_eq_ok {first : Nat} {blocks : List Bytes} :
    run f first blocks = .ok out ↔ ∃ outs : List Bytes, outs.length = blocks.length ∧
      outs.flatten = out ∧ ∀ i block out, blocks[i]? = some block → outs[i]? = some out →
        apply f (first + i) block = .ok out := by
  induction blocks generalizing first out with
  | nil =>
    simp only [run, Except.ok.injEq, List.length_nil, List.length_eq_zero_iff]
    constructor
    · rintro rfl
      exact ⟨[], rfl, rfl, by simp⟩
    · rintro ⟨_, rfl, rfl, _⟩
      rfl
  | cons block rest ih =>
    simp only [run, bind_eq_ok, ih]
    constructor
    · rintro ⟨front, head, _, ⟨outs, count, rfl, tail⟩, joined⟩
      cases joined
      refine ⟨front :: outs, by simp [count], rfl, ?_⟩
      intro i other out at_block at_out
      cases i with
      | zero =>
        cases at_block
        cases at_out
        exact head
      | succ i =>
        rw [← number_next]
        exact tail i other out at_block at_out
    · rintro ⟨outs, count, rfl, calls⟩
      cases outs with
      | nil => simp at count
      | cons front outs =>
        refine ⟨front, calls 0 block front rfl rfl, _, ⟨outs, Nat.succ.inj count, rfl, ?_⟩, rfl⟩
        intro i other out at_block at_out
        rw [number_next]
        exact calls (i + 1) other out at_block at_out

/-- The loop ends with the first call that fails. -/
theorem run_eq_error {first : Nat} {blocks : List Bytes} :
    run f first blocks = .error e ↔ ∃ i block, blocks[i]? = some block ∧
      apply f (first + i) block = .error e ∧ ∀ j < i, ∀ earlier, blocks[j]? = some earlier →
        ∃ out, apply f (first + j) earlier = .ok out := by
  induction blocks generalizing first with
  | nil => simp [run]
  | cons block rest ih =>
    rw [run]
    cases head : apply f first block with
    | error source =>
      simp only [bind, Except.bind, Except.error.injEq]
      constructor
      · rintro rfl
        exact ⟨0, block, rfl, head, by simp⟩
      · rintro ⟨i, other, at_block, failed, before⟩
        cases i with
        | zero =>
          cases at_block
          exact Except.error.inj (head.symm.trans failed)
        | succ i =>
          obtain ⟨out, succeeded⟩ := before 0 (Nat.succ_pos i) block rfl
          cases head.symm.trans succeeded
    | ok front =>
      have later : (do
          let outs ← run f (first + 1) rest
          return front ++ outs) = .error e ↔ run f (first + 1) rest = .error e := by
        cases run f (first + 1) rest <;> simp [bind, Except.bind, pure, Except.pure]
      refine Iff.trans later (ih.trans ?_)
      constructor
      · rintro ⟨i, other, at_block, failed, before⟩
        refine ⟨i + 1, other, at_block, ?_, ?_⟩
        · rw [← number_next]
          exact failed
        · intro j below earlier at_earlier
          cases j with
          | zero =>
            cases at_earlier
            exact ⟨front, head⟩
          | succ j =>
            rw [← number_next]
            exact before j (Nat.lt_of_succ_lt_succ below) earlier at_earlier
      · rintro ⟨i, other, at_block, failed, before⟩
        cases i with
        | zero =>
          cases at_block
          cases head.symm.trans failed
        | succ i =>
          refine ⟨i, other, at_block, ?_, ?_⟩
          · rw [number_next]
            exact failed
          · intro j below earlier at_earlier
            rw [number_next]
            exact before (j + 1) (Nat.succ_lt_succ below) earlier at_earlier

/-- The pieces of aligned data are its blocks, each at its number. -/
theorem getElem?_pieces (positive : 0 < blockSize) (aligned : blockSize ∣ data.length) :
    (Bytes.pieces blockSize data)[number]? = some block ↔
      number < data.length / blockSize ∧ blockAt data blockSize number = block := by
  obtain ⟨blocks, rfl, full⟩ := exists_blocks aligned
  rw [pieces_flatten positive full, length_flatten full, Nat.mul_div_cancel _ positive]
  clear aligned
  induction blocks generalizing number with
  | nil => simp
  | cons first rest ih =>
    have width := full first (by simp)
    cases number with
    | zero => simp [blockAt, ← width]
    | succ number =>
      have shifted : blockAt (first :: rest).flatten blockSize (number + 1) =
          blockAt rest.flatten blockSize number := by
        rw [blockAt, List.flatten_cons, Nat.succ_mul, Nat.add_comm, ← width,
          List.drop_length_add_append]
        rfl
      rw [shifted, List.getElem?_cons_succ, List.length_cons, Nat.add_lt_add_iff_right]
      exact ih fun other member => full other (by simp [member])

theorem blockAt_flatten {blocks : List Bytes} (positive : 0 < blockSize)
    (full : ∀ block ∈ blocks, block.length = blockSize) (place : blocks[number]? = some block) :
    blockAt blocks.flatten blockSize number = block := by
  have aligned : blockSize ∣ blocks.flatten.length := by
    rw [length_flatten full]
    exact Nat.dvd_mul_left _ _
  rw [← pieces_flatten positive full, getElem?_pieces positive aligned] at place
  exact place.2

/-- Behind the last block there is nothing. -/
theorem blockAt_beyond (beyond : data.length ≤ number * blockSize) :
    blockAt data blockSize number = [] := by
  rw [blockAt, List.drop_eq_nil_of_le beyond, List.take_nil]

theorem length_blockAt (aligned : blockSize ∣ data.length)
    (bound : number < data.length / blockSize) :
    (blockAt data blockSize number).length = blockSize := by
  have within : (number + 1) * blockSize ≤ data.length := by
    calc (number + 1) * blockSize ≤ data.length / blockSize * blockSize :=
          Nat.mul_le_mul_right _ bound
      _ = data.length := Nat.div_mul_cancel aligned
  rw [Nat.succ_mul] at within
  rw [blockAt, List.length_take, List.length_drop]
  omega

/-- A block function that always returns is not seen any differently from outside a worker. -/
theorem processBlocks_eq_run (limit : Nat) (positive : 0 < blockSize)
    (aligned : blockSize ∣ data.length)
    (returns : ∀ number block cause, f number block ≠ .error (.aborted cause)) :
    processBlocks data blockSize limit f = run f 0 (Bytes.pieces blockSize data) := by
  rw [processBlocks_eq f limit positive aligned]
  split
  · rfl
  · cases outcome : run f 0 (Bytes.pieces blockSize data) with
    | ok out => rfl
    | error e =>
      obtain ⟨number, block, _, failed, _⟩ := run_eq_error.mp outcome
      have offence := (apply_offends rfl fun cause => returns _ _ cause).mp failed
      cases offence <;> rfl

/-- Sharing succeeds exactly if the call on every block does, and joins what the calls return. -/
theorem processBlocks_eq_ok (limit : Nat) (positive : 0 < blockSize)
    (aligned : blockSize ∣ data.length)
    (returns : ∀ number block cause, f number block ≠ .error (.aborted cause)) :
    processBlocks data blockSize limit f = .ok out ↔ ∃ outs : List Bytes,
      outs.length = data.length / blockSize ∧ outs.flatten = out ∧
        ∀ number out, outs[number]? = some out →
          Delivers f blockSize number (blockAt data blockSize number) out := by
  have call {number : Nat} {out : Bytes} (bound : number < data.length / blockSize) :
      apply f number (blockAt data blockSize number) = .ok out ↔
        Delivers f blockSize number (blockAt data blockSize number) out :=
    apply_delivers (length_blockAt aligned bound)
  simp only [processBlocks_eq_run limit positive aligned returns, run_eq_ok,
    length_pieces positive aligned, getElem?_pieces positive aligned, Nat.zero_add]
  refine exists_congr fun outs => and_congr_right fun count => and_congr_right fun _ => ?_
  constructor
  · intro calls number out at_out
    have bound : number < data.length / blockSize :=
      count ▸ (List.getElem?_eq_some_iff.mp at_out).1
    exact (call bound).mp (calls number _ out ⟨bound, rfl⟩ at_out)
  · rintro calls number _ out ⟨bound, rfl⟩ at_out
    exact (call bound).mpr (calls number out at_out)

/-- Sharing reports the call on the lowest block that does not return a full one. -/
theorem processBlocks_eq_error (limit : Nat) (positive : 0 < blockSize)
    (aligned : blockSize ∣ data.length)
    (returns : ∀ number block cause, f number block ≠ .error (.aborted cause)) :
    processBlocks data blockSize limit f = .error e ↔ ∃ number < data.length / blockSize,
      Offends f blockSize number (blockAt data blockSize number) e ∧
        ∀ lower < number, ∃ out,
          Delivers f blockSize lower (blockAt data blockSize lower) out := by
  simp only [processBlocks_eq_run limit positive aligned returns, run_eq_error,
    getElem?_pieces positive aligned, Nat.zero_add]
  constructor
  · rintro ⟨number, _, ⟨bound, rfl⟩, failed, before⟩
    have width := length_blockAt aligned bound
    refine ⟨number, bound, (apply_offends width (returns _ _)).mp failed, fun lower below => ?_⟩
    have within := Nat.lt_trans below bound
    obtain ⟨out, returned⟩ := before lower below _ ⟨within, rfl⟩
    exact ⟨out, (apply_delivers (length_blockAt aligned within)).mp returned⟩
  · rintro ⟨number, bound, offence, before⟩
    have width := length_blockAt aligned bound
    refine ⟨number, _, ⟨bound, rfl⟩, (apply_offends width (returns _ _)).mpr offence, ?_⟩
    rintro lower below _ ⟨within, rfl⟩
    obtain ⟨out, delivers⟩ := before lower below
    exact ⟨out, (apply_delivers (length_blockAt aligned within)).mpr delivers⟩

/-- However many workers there may be, processing blocks is going through them one after the other:
it succeeds exactly if every call returns one full block, with these blocks in order, and otherwise
reports the call on the lowest block that does not. -/
theorem processBlocks_is_loop (f : BlockFunction) (limit : Nat) (positive : 0 < blockSize)
    (aligned : blockSize ∣ data.length)
    (returns : ∀ number block cause, f number block ≠ .error (.aborted cause)) :
    processBlocks data blockSize limit f = run f 0 (Bytes.pieces blockSize data) ∧
    (∀ out, processBlocks data blockSize limit f = .ok out ↔ ∃ outs : List Bytes,
      outs.length = data.length / blockSize ∧ outs.flatten = out ∧
        ∀ number out, outs[number]? = some out →
          Delivers f blockSize number (blockAt data blockSize number) out) ∧
    ∀ e, processBlocks data blockSize limit f = .error e ↔ ∃ number < data.length / blockSize,
      Offends f blockSize number (blockAt data blockSize number) e ∧
        ∀ lower < number, ∃ out, Delivers f blockSize lower (blockAt data blockSize lower) out :=
  ⟨processBlocks_eq_run limit positive aligned returns,
    fun _ => processBlocks_eq_ok limit positive aligned returns,
    fun _ => processBlocks_eq_error limit positive aligned returns⟩

/-- A block function that refuses two of the blocks. -/
def refusing : BlockFunction := fun number block =>
  if number = 70 ∨ number = 200 then .error (.crypto .keyNotSet) else .ok block

/-- Four workers share 256 blocks, and two of them come upon a block that is refused. -/
theorem processBlocks_is_loop_shared :
    0 < 1 ∧ 1 ∣ (List.replicate 256 0 : Bytes).length ∧
      (∀ number block cause, refusing number block ≠ .error (.aborted cause)) ∧
      processBlocks (List.replicate 256 0) 1 4 refusing =
        .error (.worker 70 (.crypto .keyNotSet)) := by
  have aligned : 1 ∣ (List.replicate 256 0 : Bytes).length := Nat.one_dvd _
  have returns (number : Nat) (block : Bytes) (cause : Abort) :
      refusing number block ≠ .error (.aborted cause) := by
    rw [refusing]
    split <;> simp
  have count : (List.replicate 256 0 : Bytes).length / 1 = 256 := by
    rw [List.length_replicate, Nat.div_one]
  refine ⟨Nat.one_pos, aligned, returns, ?_⟩
  refine ((processBlocks_is_loop refusing 4 Nat.one_pos aligned returns).2.2 _).mpr ?_
  refine ⟨70, by omega, .fails _ rfl, fun lower below => ?_⟩
  refine ⟨blockAt (List.replicate 256 0) 1 lower, ?_, length_blockAt aligned (by omega)⟩
  have accepted : ¬(lower = 70 ∨ lower = 200) := by omega
  simp only [refusing, accepted, ↓reduceIte]

end RoomCipher.WorkerEquivalence
