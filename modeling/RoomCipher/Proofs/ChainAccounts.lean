import RoomCipher.Proofs.KeylessDelta

/-! Whether a chain accounts for what it is given. Its count grows by the blocks of every part that
it takes, whatever was done to it before, and a cipher that keeps the length of its blocks makes the
output as long as the input. The one exception is a chain of the RandomDelta mode that no header has
prepared: it takes all there is, counts it and gives nothing back. -/
namespace RoomCipher.ChainAccounts
open BlockCipher ChainSteps ChainParts CipherPermutation KeylessDelta

/-! ### Calls -/

/-- What can be asked of a chain, in any order. Every part comes with a cipher. -/
inductive Call where
  | beginEncrypt (source : Entropy)
  | beginDecrypt (header : Bytes)
  | advance {C : Type} [BlockCipher C] (direction : Direction) (cipher : C) (data : Bytes)
    (workers : Nat)

/-- The chain after a call, whether it succeeds or not. -/
def perform (chain : Chain) : Call → Chain
  | .beginEncrypt source =>
    match chain.beginEncrypt source with
    | .ok (next, _) => next
    | .error _ => chain
  | .beginDecrypt header => (chain.beginDecrypt header).1
  | @Call.advance _ _ direction cipher data workers =>
    (chain.advance direction cipher data workers).1

def run (chain : Chain) (calls : List Call) : Chain :=
  calls.foldl perform chain

/-- Whether a call is a header step that succeeds. -/
def prepares (chain : Chain) : Call → Bool
  | .beginEncrypt source => (chain.beginEncrypt source).isOk
  | .beginDecrypt header => (chain.beginDecrypt header).2.isOk
  | @Call.advance .. => false

/-- The blocks of a part that is taken. -/
def blocksOf (chain : Chain) : Call → Nat
  | @Call.advance _ _ direction cipher data workers =>
    if (chain.advance direction cipher data workers).2.isOk then data.length / chain.blockSize
    else 0
  | _ => 0

/-- Whether any of the calls is a header step that succeeds. -/
def prepared : Chain → List Call → Bool
  | _, [] => false
  | chain, call :: rest => prepares chain call || prepared (perform chain call) rest

/-- The blocks of all the parts that are taken. -/
def blocksTaken : Chain → List Call → Nat
  | _, [] => 0
  | chain, call :: rest => blocksOf chain call + blocksTaken (perform chain call) rest

/-- How a chain differs from one that it was before. -/
structure Accounted (before after : Chain) (blocks : Nat) (headed : Bool) : Prop where
  mode_eq : after.mode = before.mode
  size_eq : after.blockSize = before.blockSize
  position_eq : after.position = before.position + UInt64.ofNat blocks
  bare_iff : before.mode = .randomDelta → (after.delta = [] ↔ before.delta = [] ∧ headed = false)

theorem Accounted.refl (chain : Chain) : Accounted chain chain 0 false :=
  ⟨rfl, rfl, (UInt64.add_zero _).symm, fun _ => ⟨fun bare => ⟨bare, rfl⟩, And.left⟩⟩

theorem Accounted.trans {before middle after : Chain} {headed reheaded : Bool}
    (first : Accounted before middle blocks headed)
    (second : Accounted middle after more reheaded) :
    Accounted before after (blocks + more) (headed || reheaded) where
  mode_eq := second.mode_eq.trans first.mode_eq
  size_eq := second.size_eq.trans first.size_eq
  position_eq := by
    rw [second.position_eq, first.position_eq, UInt64.ofNat_add, UInt64.add_assoc]
  bare_iff drawn := by
    rw [second.bare_iff (first.mode_eq.trans drawn), first.bare_iff drawn, Bool.or_eq_false_iff,
      and_assoc]

/-- With a header of one block there is a delta. -/
theorem Accounted.headed (chain : Chain) (positive : 0 < chain.blockSize)
    (full : header.length = chain.blockSize) :
    Accounted chain { chain with delta := header } 0 true := by
  have present := List.ne_nil_of_length_pos (full ▸ positive)
  exact ⟨rfl, rfl, (UInt64.add_zero _).symm, fun _ => ⟨fun bare => absurd bare present, nofun⟩⟩

/-- Other modes have none to begin with. -/
theorem Accounted.plain {chain : Chain} (plain : chain.mode ≠ .randomDelta) :
    Accounted chain chain 0 true :=
  ⟨rfl, rfl, (UInt64.add_zero _).symm, fun drawn => absurd drawn plain⟩

theorem beginEncrypt_accounted {chain next : Chain} (positive : 0 < chain.blockSize)
    (begun : chain.beginEncrypt source = .ok (next, header, rest)) :
    Accounted chain next 0 true := by
  rcases beginEncrypt_cases begun with ⟨_, full, rfl⟩ | ⟨plain, rfl⟩
  · exact .headed chain positive full
  · exact .plain plain

theorem beginDecrypt_accounted (chain : Chain) (positive : 0 < chain.blockSize) (header : Bytes) :
    Accounted chain (chain.beginDecrypt header).1 0 (chain.beginDecrypt header).2.isOk := by
  rcases beginDecrypt_cases chain header with ⟨_, left⟩ | ⟨_, full, taken⟩ | ⟨plain, left⟩
  · rw [left]
    exact .refl chain
  · rw [taken]
    exact .headed chain positive full
  · rw [left]
    exact .plain plain

section Parts

variable {C : Type} [BlockCipher C]

/-- A part that is taken consists of blocks, and they are counted. -/
theorem advance_counts {chain next : Chain} {direction : Direction} {cipher : C}
    (answer : chain.advance direction cipher data workers = (next, .ok out)) :
    chain.blockSize ∣ data.length ∧
      next.position = chain.position + UInt64.ofNat (data.length / chain.blockSize) := by
  have accepted := checkAligned_of_ok (congrArg Prod.snd answer)
  refine ⟨(checkAligned_eq_ok.mp accepted).2, ?_⟩
  simp only [Chain.advance, accepted] at answer
  split at answer <;> cases answer
  rfl

/-- A part that fails is not counted. -/
theorem advance_refused {chain next : Chain} {direction : Direction} {cipher : C}
    (answer : chain.advance direction cipher data workers = (next, .error e)) :
    next.position = chain.position := by
  unfold Chain.advance at answer
  split at answer
  · cases answer
    rfl
  · split at answer <;> cases answer
    rfl

theorem advance_accounted (chain : Chain) (direction : Direction) (cipher : C) (data : Bytes)
    (workers : Nat) :
    Accounted chain (chain.advance direction cipher data workers).1
      (blocksOf chain (.advance direction cipher data workers)) false := by
  have fixed := advance_fixed chain direction cipher data workers
  refine ⟨by rw [fixed], by rw [fixed], ?_, fun _ => by rw [fixed]; simp⟩
  cases answer : chain.advance direction cipher data workers with
  | mk next result =>
    cases result with
    | ok out =>
      simp only [blocksOf, answer, Except.isOk, Except.toBool, ↓reduceIte]
      exact (advance_counts answer).2
    | error e =>
      simp only [blocksOf, answer, Except.isOk, Except.toBool, Bool.false_eq_true, ↓reduceIte,
        advance_refused answer]
      exact (UInt64.add_zero _).symm

end Parts

/-- Every call, by itself. -/
theorem perform_accounted (chain : Chain) (positive : 0 < chain.blockSize) (call : Call) :
    Accounted chain (perform chain call) (blocksOf chain call) (prepares chain call) := by
  cases call with
  | beginEncrypt source =>
    cases begun : chain.beginEncrypt source with
    | error e =>
      simp only [perform, blocksOf, prepares, begun]
      exact .refl chain
    | ok made =>
      obtain ⟨next, header, rest⟩ := made
      simp only [perform, blocksOf, prepares, begun]
      exact beginEncrypt_accounted positive begun
  | beginDecrypt header => exact beginDecrypt_accounted chain positive header
  | advance direction cipher data workers =>
    exact advance_accounted chain direction cipher data workers

/-- Calls one after the other. -/
theorem run_accounted (chain : Chain) (positive : 0 < chain.blockSize) (calls : List Call) :
    Accounted chain (run chain calls) (blocksTaken chain calls) (prepared chain calls) := by
  induction calls generalizing chain with
  | nil => exact .refl chain
  | cons call rest ih =>
    have first := perform_accounted chain positive call
    exact first.trans (ih (perform chain call) (first.size_eq ▸ positive))

theorem run_reachable {chain : Chain} (reached : Reachable chain) (calls : List Call) :
    Reachable (run chain calls) := by
  refine List.foldlRecOn calls perform reached fun chain reached call _ => ?_
  cases call with
  | beginEncrypt source =>
    cases begun : chain.beginEncrypt source with
    | error e =>
      simp only [perform, begun]
      exact reached
    | ok made =>
      obtain ⟨next, header, rest⟩ := made
      simp only [perform, begun]
      exact .beginEncrypt chain next header source rest reached begun
  | beginDecrypt header => exact .beginDecrypt chain header reached
  | advance direction cipher data workers =>
    cases direction with
    | encrypt => exact .encrypt chain cipher data workers reached
    | decrypt => exact .decrypt chain cipher data workers reached

/-! ### Lengths -/

section Lengths

variable {C : Type} [BlockCipher C] {cipher : C}

/-- Blocks of `size` bytes stay as long as they are, if the cipher takes them. -/
structure Keeps (cipher : C) (size : Nat) : Prop where
  encrypts : ∀ block out, block.length = size → encryptBlock cipher block = .ok out →
    out.length = size
  decrypts : ∀ block out, block.length = size → decryptBlock cipher block = .ok out →
    out.length = size

theorem Keeps.of_permutes (permutes : Permutes cipher size) : Keeps cipher size where
  encrypts block out full taken := by
    obtain ⟨other, answer, length, _⟩ := permutes.encrypts block full
    cases taken.symm.trans answer
    exact length
  decrypts block out full taken := by
    obtain ⟨other, answer, length, _⟩ := permutes.decrypts block full
    cases taken.symm.trans answer
    exact length

theorem keeping_eq_ok {result : Except Error (Bytes × Bytes)} :
    Feedback.keeping register result = (next, .ok out) ↔ result = .ok (next, out) := by
  cases result <;> simp [Feedback.keeping, Prod.ext_iff]

/-- The register has to be as long as the block for the two to be combined. -/
theorem feedback_length (keeps : Keeps cipher size) (mode : Feedback) (direction : Direction)
    (full : block.length = size)
    (taken : mode.step cipher direction register block = (next, .ok out)) : out.length = size := by
  cases mode with
  | cbc =>
    cases direction with
    | encrypt =>
      simp only [Feedback.step, keeping_eq_ok, Outcomes.bind_eq_ok] at taken
      obtain ⟨mixed, combined, locked, answer, made⟩ := taken
      cases made
      exact keeps.encrypts mixed _ ((ByteLaws.length_xor combined).trans full) answer
    | decrypt =>
      simp only [Feedback.step, keeping_eq_ok, Outcomes.bind_eq_ok] at taken
      obtain ⟨bare, answer, clear, combined, made⟩ := taken
      cases made
      exact (ByteLaws.length_xor combined).trans (keeps.decrypts block bare full answer)
  | pcbc =>
    cases direction with
    | encrypt =>
      simp only [Feedback.step, keeping_eq_ok, Outcomes.bind_eq_ok] at taken
      obtain ⟨mixed, combined, locked, answer, carry, _, made⟩ := taken
      cases made
      exact keeps.encrypts mixed _ ((ByteLaws.length_xor combined).trans full) answer
    | decrypt =>
      simp only [Feedback.step, keeping_eq_ok, Outcomes.bind_eq_ok] at taken
      obtain ⟨bare, answer, clear, combined, carry, _, made⟩ := taken
      cases made
      exact (ByteLaws.length_xor combined).trans (keeps.decrypts block bare full answer)
  | cfb =>
    have covered {mask : Bytes} (combined : Bytes.xor block mask = .ok out) : out.length = size :=
      (ByteLaws.length_xor combined).trans full
    cases direction with
    | encrypt =>
      simp only [Feedback.step, keeping_eq_ok, Outcomes.bind_eq_ok] at taken
      obtain ⟨mask, _, made, combined, same⟩ := taken
      cases same
      exact covered combined
    | decrypt =>
      simp only [Feedback.step, keeping_eq_ok, Outcomes.bind_eq_ok] at taken
      obtain ⟨mask, _, made, combined, same⟩ := taken
      cases same
      exact covered combined
  | ofb =>
    simp only [Feedback.step] at taken
    split at taken
    · cases taken
    · exact (ByteLaws.length_xor (congrArg Prod.snd taken)).trans full

/-- Outside the RandomDelta mode a block that succeeds stays as long as it is. -/
theorem blockOutcome_length {chain : Chain} {direction : Direction}
    (keeps : Keeps cipher chain.blockSize) (plain : chain.mode ≠ .randomDelta)
    (full : block.length = chain.blockSize)
    (taken : blockOutcome cipher direction chain block = (register, .ok out)) :
    out.length = chain.blockSize := by
  obtain ⟨mode, size, iv, feedback, position, delta⟩ := chain
  have applied (f : Bytes → Except Error Bytes)
      (answer : Workers.apply (fun _ => f) 0 block = .ok out) : out.length = size := by
    have filtered := apply_toOption (fun _ => f) 0 block
    rw [answer] at filtered
    have same := (Option.filter_eq_some_iff.mp filtered.symm).2
    exact (beq_iff_eq.mp same).trans full
  cases mode with
  | ecb =>
    cases direction with
    | encrypt => exact applied (encryptBlock cipher) (congrArg Prod.snd taken)
    | decrypt => exact applied (decryptBlock cipher) (congrArg Prod.snd taken)
  | ctr =>
    obtain ⟨mask, _, combined⟩ := Outcomes.bind_eq_ok.mp (congrArg Prod.snd taken)
    exact (ByteLaws.length_xor combined).trans full
  | randomDelta => exact absurd rfl plain
  | cbc => exact feedback_length keeps .cbc direction full taken
  | pcbc => exact feedback_length keeps .pcbc direction full taken
  | cfb => exact feedback_length keeps .cfb direction full taken
  | ofb => exact feedback_length keeps .ofb direction full taken

theorem stepBlock_length {chain next : Chain} {direction : Direction}
    (keeps : Keeps cipher chain.blockSize) (plain : chain.mode ≠ .randomDelta)
    (full : block.length = chain.blockSize)
    (step : stepBlock cipher direction chain block = some (next, out)) :
    out.length = chain.blockSize := by
  unfold stepBlock at step
  cases outcome : blockOutcome cipher direction chain block with
  | mk register result =>
    rw [outcome] at step
    cases result with
    | error e => cases step
    | ok out =>
      cases step
      exact blockOutcome_length keeps plain full outcome

/-- Block after block, the lengths add up. -/
theorem follow_length {chain last : Chain} {direction : Direction}
    (keeps : Keeps cipher chain.blockSize) (plain : chain.mode ≠ .randomDelta)
    (blocks : List Bytes) (full : ∀ block ∈ blocks, block.length = chain.blockSize)
    (followed : follow cipher direction chain blocks = some (last, out)) :
    out.length = blocks.flatten.length := by
  induction blocks generalizing chain out with
  | nil =>
    cases followed
    rfl
  | cons block rest ih =>
    simp only [follow, bind, Option.bind_eq_some_iff, pure, Option.some.injEq, Prod.mk.injEq]
      at followed
    obtain ⟨⟨next, front⟩, step, ⟨final, back⟩, later, rfl, rfl⟩ := followed
    have width := full block List.mem_cons_self
    have first := stepBlock_length keeps plain width step
    have fixed := stepBlock_fixed step
    have size : next.blockSize = chain.blockSize := by rw [fixed]
    have mode : next.mode = chain.mode := by rw [fixed]
    have others := ih (size ▸ keeps) (mode ▸ plain)
      (fun other member => size ▸ full other (List.mem_cons_of_mem _ member)) later
    rw [List.length_append, List.flatten_cons, List.length_append, first, width, others]

theorem advance_length {chain next : Chain} {direction : Direction}
    (positive : 0 < chain.blockSize) (fits : DeltaFits chain) (keeps : Keeps cipher chain.blockSize)
    (plain : chain.mode ≠ .randomDelta)
    (answer : chain.advance direction cipher data workers = (next, .ok out)) :
    out.length = data.length := by
  have aligned := (advance_counts answer).1
  have followed := advance_follows cipher direction chain data workers positive fits aligned
  rw [delivered_eq_some.mpr answer] at followed
  obtain ⟨blocks, rfl, full⟩ := ByteLaws.exists_blocks aligned
  rw [ByteLaws.pieces_flatten positive full] at followed
  exact follow_length keeps plain blocks full followed.symm

/-- In the RandomDelta mode it is the delta that decides. -/
theorem advance_delta {chain next : Chain} {direction : Direction}
    (drawn : chain.mode = .randomDelta)
    (answer : chain.advance direction cipher data workers = (next, .ok out)) :
    if chain.delta = [] then out = [] else out.length = data.length := by
  unfold Chain.advance at answer
  rw [transform_blend drawn] at answer
  split at answer
  · cases answer
  · cases answer
    unfold Chain.withDelta
    split
    · rfl
    · exact List.length_mapIdx

/-- A chain counts the blocks of all the parts it has ever taken and of every further one that it
takes, in 64 bits that wrap around. What it gives for that part is as long as the part itself, unless
the mode is RandomDelta and no header step has succeeded so far: then the part disappears, and it is
counted all the same. -/
theorem output_accounts_iff (positive : 0 < size) (keeps : Keeps cipher size) (mode : Mode)
    (iv : Bytes) (calls : List Call) {next : Chain} {direction : Direction}
    (answer : (run (Chain.start mode iv size) calls).advance direction cipher data workers =
      (next, .ok out)) :
    (run (Chain.start mode iv size) calls).position =
        UInt64.ofNat (blocksTaken (Chain.start mode iv size) calls) ∧
      next.position = (run (Chain.start mode iv size) calls).position +
        UInt64.ofNat (data.length / size) ∧
      (out.length = data.length ↔
        mode ≠ .randomDelta ∨ prepared (Chain.start mode iv size) calls = true ∨ data = []) ∧
      (out.length ≠ data.length → out = []) := by
  obtain ⟨mode_eq, size_eq, position_eq, bare_iff⟩ :=
    run_accounted (Chain.start mode iv size) positive calls
  have fits := reachable_fits (run_reachable (.start mode iv size) calls)
  -- From here on the chain is as good as any other with this count and this delta.
  have counted := (advance_counts answer).2
  generalize run (Chain.start mode iv size) calls = chain at *
  rw [size_eq] at counted
  refine ⟨position_eq.trans (UInt64.zero_add _), counted, ?_⟩
  by_cases drawn : mode = .randomDelta
  · have delta := advance_delta (mode_eq.trans drawn) answer
    have bare : chain.delta = [] ↔ prepared (Chain.start mode iv size) calls = false :=
      (bare_iff drawn).trans (and_iff_right rfl)
    cases headed : prepared (Chain.start mode iv size) calls with
    | true =>
      have present : chain.delta ≠ [] := fun nothing => by simp [bare.mp nothing] at headed
      rw [if_neg present] at delta
      exact ⟨⟨fun _ => .inr (.inl rfl), fun _ => delta⟩, fun other => absurd delta other⟩
    | false =>
      rw [if_pos (bare.mpr headed)] at delta
      subst delta
      refine ⟨?_, fun _ => rfl⟩
      simp [drawn, eq_comm]
  · have same := advance_length (size_eq ▸ positive) fits (size_eq ▸ keeps) (mode_eq ▸ drawn) answer
    exact ⟨⟨fun _ => .inl drawn, fun _ => same⟩, fun other => absurd same other⟩

theorem keyed_keeps : Keeps keyed 16 := by
  have taken : setKey Magenta.standard [1, 2, 3] = (keyed, .ok ()) := rfl
  exact .of_permutes (KeyedContexts.KeyedCipher.permutes
    KeyedContexts.workable_magenta taken)

/-- Two blocks that come after a header of the wrong length, and three that come after a proper one.
All five are counted, and the three come out. -/
theorem output_accounts_iff_headed :
    ∃ next out,
      0 < 16 ∧ Keeps keyed 16 ∧
      (run (Chain.start .randomDelta (List.replicate 16 0) 16)
        [.beginDecrypt [1], .advance .decrypt keyed (List.replicate 32 7) 1,
          .beginDecrypt (List.replicate 16 2)]).advance .decrypt keyed (List.replicate 48 9) 1 =
        (next, .ok out) ∧
      next.position = 5 ∧ out.length = 48 := by
  have answer : (run (Chain.start .randomDelta (List.replicate 16 0) 16)
      [.beginDecrypt [1], .advance .decrypt keyed (List.replicate 32 7) 1,
        .beginDecrypt (List.replicate 16 2)]).advance .decrypt keyed (List.replicate 48 9) 1 =
      (_, .ok _) := rfl
  obtain ⟨counted, further, whole, _⟩ :=
    output_accounts_iff (Nat.zero_lt_succ 15) keyed_keeps .randomDelta _ _ answer
  refine ⟨_, _, Nat.zero_lt_succ 15, keyed_keeps, answer, ?_, whole.mpr (.inr (.inl rfl))⟩
  rw [further, counted]
  rfl

/-- A chain that no header has prepared: it takes a block, counts it, and gives nothing for it. -/
theorem drops_without_header :
    ∃ next out, Keeps keyed 16 ∧
      (Chain.start .randomDelta (List.replicate 16 0) 16).encrypt keyed (List.replicate 16 65) 1 =
        (next, .ok out) ∧
      next.position = 1 ∧ out.length ≠ 16 :=
  ⟨_, [], keyed_keeps, rfl, rfl, nofun⟩

end Lengths

end RoomCipher.ChainAccounts
