import RoomCipher.Context
import RoomCipher.Proofs.Loki97Inversion
import RoomCipher.Proofs.MagentaInversion
import RoomCipher.Proofs.Rc5Inversion

/-! What a context owes to the checks it was made under. The ciphers of this library
permute their blocks under every key they take, whatever their parameters, except for
two numbers of rounds that leave MAGENTA without any round key, and no block is longer
than 16 bytes. A context over one of them therefore always has a cipher that answers, a
starting block where the mode needs one, and a block size that every padding can fill. -/
namespace RoomCipher.KeyedContexts
open BlockCipher CipherPermutation

/-- A cipher that permutes its blocks under every key it takes, whatever came before, if there is
anything for it to work with, and refuses them all if there is not. -/
class KeyedCipher (C : Type) [BlockCipher C] where
  /-- What the parameters have to be like for a key that is taken to be of use. -/
  Workable : C → Prop
  permutes : ∀ {cipher keyed : C} {key : Bytes}, Workable cipher →
    setKey cipher key = (keyed, .ok ()) → Permutes keyed (blockSize cipher)
  mute : ∀ {cipher keyed : C} {key : Bytes}, ¬Workable cipher →
    setKey cipher key = (keyed, .ok ()) → Mute keyed
  blockSize_le : ∀ cipher : C, blockSize cipher ≤ defaultBlockSize

open KeyedCipher (Workable)

instance : KeyedCipher Loki97 where
  Workable _ := True
  permutes _ taken :=
    have ⟨_, keyed⟩ := Loki97Inversion.setKey_keyed taken
    Loki97Inversion.permutes keyed
  mute idle _ := absurd trivial idle
  blockSize_le _ := Nat.le_refl _

instance : KeyedCipher Magenta where
  Workable cipher := 0 < Magenta.keyCount cipher.rounds
  permutes present taken := MagentaInversion.permutes_taken present taken
  mute idle taken := MagentaInversion.mute_taken (Nat.eq_zero_of_not_pos idle) taken
  blockSize_le _ := Nat.le_refl _

instance : KeyedCipher Rc5 where
  Workable _ := True
  permutes {cipher keyed key} _ taken := by
    obtain ⟨word, schedule, scheduled⟩ := Rc5Inversion.setKey_keyed taken
    have size : blockSize cipher = keyed.blockBytes :=
      congrArg (fun word => 2 * Rc5.WordSize.bytes word) word.symm
    rw [size]
    exact Rc5Inversion.permutes scheduled
  mute idle _ := absurd trivial idle
  blockSize_le cipher := by
    change 2 * cipher.word.bytes ≤ 16
    cases cipher.word <;> decide

/-- Of the numbers of rounds that a machine word holds, the two that leave MAGENTA without a round
key are those that come right before a half of the whole range and before the end of it. -/
theorem workable_magenta_iff (cipher : Magenta) (held : cipher.rounds < 2 ^ 64) :
    Workable cipher ↔ cipher.rounds ≠ 2 ^ 63 - 1 ∧ cipher.rounds ≠ 2 ^ 64 - 1 := by
  change 0 < 2 * (cipher.rounds + 1) % 2 ^ 64 ↔ _
  omega

/-- A cipher behind a common type does there what it does by itself. -/
structure Behind {C D : Type} [BlockCipher C] [BlockCipher D] (wrap : C → D) : Prop where
  setKey_eq : ∀ cipher key, setKey (wrap cipher) key = (setKey cipher key).map wrap id
  encryptBlock_eq : ∀ cipher block, encryptBlock (wrap cipher) block = encryptBlock cipher block
  decryptBlock_eq : ∀ cipher block, decryptBlock (wrap cipher) block = decryptBlock cipher block

section Behind

variable {C D : Type} [BlockCipher C] [BlockCipher D] {wrap : C → D} {wrapped : D} {cipher : C}

/-- A key that is taken there has been taken by the cipher itself. -/
theorem Behind.taken (behind : Behind wrap)
    (there : setKey (wrap cipher) key = (wrapped, .ok ())) :
    ∃ keyed, wrapped = wrap keyed ∧ setKey cipher key = (keyed, .ok ()) := by
  rw [behind.setKey_eq, Prod.ext_iff] at there
  exact ⟨_, there.1.symm, Prod.ext rfl there.2⟩

variable [KeyedCipher C]

theorem Behind.permutes (behind : Behind wrap) (workable : Workable cipher)
    (there : setKey (wrap cipher) key = (wrapped, .ok ())) :
    Permutes wrapped (blockSize cipher) := by
  obtain ⟨keyed, rfl, taken⟩ := behind.taken there
  obtain ⟨encrypts, decrypts⟩ := KeyedCipher.permutes workable taken
  constructor <;> simpa only [behind.encryptBlock_eq, behind.decryptBlock_eq]

theorem Behind.mute (behind : Behind wrap) (idle : ¬Workable cipher)
    (there : setKey (wrap cipher) key = (wrapped, .ok ())) : Mute wrapped := by
  obtain ⟨keyed, rfl, taken⟩ := behind.taken there
  intro block
  rw [behind.encryptBlock_eq, behind.decryptBlock_eq]
  exact KeyedCipher.mute idle taken block

end Behind

theorem behind_loki97 : Behind Builtin.loki97 :=
  ⟨fun _ _ => rfl, fun _ _ => rfl, fun _ _ => rfl⟩

theorem behind_rc5 : Behind Builtin.rc5 :=
  ⟨fun _ _ => rfl, fun _ _ => rfl, fun _ _ => rfl⟩

theorem behind_magenta : Behind Builtin.magenta :=
  ⟨fun _ _ => rfl, fun _ _ => rfl, fun _ _ => rfl⟩

instance : KeyedCipher Builtin where
  Workable
    | .loki97 cipher => Workable cipher
    | .rc5 cipher => Workable cipher
    | .magenta cipher => Workable cipher
  permutes {cipher _ _} workable there := by
    cases cipher with
    | loki97 cipher => exact behind_loki97.permutes workable there
    | rc5 cipher => exact behind_rc5.permutes workable there
    | magenta cipher => exact behind_magenta.permutes workable there
  mute {cipher _ _} idle there := by
    cases cipher with
    | loki97 cipher => exact behind_loki97.mute idle there
    | rc5 cipher => exact behind_rc5.mute idle there
    | magenta cipher => exact behind_magenta.mute idle there
  blockSize_le cipher := by
    cases cipher with
    | loki97 cipher => exact KeyedCipher.blockSize_le cipher
    | rc5 cipher => exact KeyedCipher.blockSize_le cipher
    | magenta cipher => exact KeyedCipher.blockSize_le cipher

theorem workable_magenta : Workable Magenta.standard :=
  MagentaInversion.keyCount_pos (by decide)

/-- With its usual parameters every cipher can work. -/
theorem workable_standard (algorithm : Algorithm) :
    Workable (Builtin.ofAlgorithm algorithm) := by
  cases algorithm with
  | loki97 | rc5 => trivial
  | magenta => exact workable_magenta

/-! ### Contexts -/

variable {C : Type} [BlockCipher C]

/-- The cipher can work, unless the mode does without it. No context can do with less: without this
it encrypts nothing at all (`SilentContexts.encrypt_answers_iff`). -/
def Usable [KeyedCipher C] (cipher : C) (mode : Mode) : Prop :=
  mode ≠ .randomDelta → Workable cipher

/-- A context in working order. -/
structure Sound (context : Context C) : Prop where
  permutes : context.config.mode ≠ .randomDelta → Permutes context.cipher context.blockSize
  positive : 0 < context.blockSize
  narrow : context.blockSize ≤ Padding.maxLength
  iv_full : context.config.mode.requiresIv → context.iv.length = context.blockSize

theorem validate_eq_ok {config : Config} : config.validate = .ok () ↔
    config.blockSize ≠ 0 ∧ config.workers ≠ 0 ∧ config.streamBlocks ≠ 0 := by
  rw [Config.validate]
  split
  next zero => simp [zero]
  next blocks =>
    split
    next zero => simp [zero]
    next workers =>
      split
      next zero => simp [zero]
      next streams => exact ⟨fun _ => ⟨blocks, workers, streams⟩, fun _ => rfl⟩

theorem withCipher_valid {cipher : C} {context : Context C}
    (built : Context.withCipher cipher key iv config = .ok context) :
    config.validate = .ok () := by
  cases checked : config.validate with
  | error e => simp [Context.withCipher, checked, bind, Except.bind] at built
  | ok _ => rfl

/-- A context has a key of one of the usual lengths, or one as long as a block. -/
theorem withCipher_keySize {cipher : C} {context : Context C}
    (built : Context.withCipher cipher key iv config = .ok context) :
    key.length ∈ Context.keySizes ∨ key.length = config.blockSize := by
  have valid := withCipher_valid built
  refine Decidable.byContradiction fun unusual => ?_
  have refused := not_or.mp unusual
  simp [Context.withCipher, valid, refused, bind, Except.bind] at built

/-- What a context is, once all the checks have passed. -/
theorem withCipher_eq {cipher : C} {context : Context C}
    (built : Context.withCipher cipher key iv config = .ok context) :
    0 < config.blockSize ∧ blockSize cipher = config.blockSize ∧
      (config.mode.requiresIv → iv.length = config.blockSize) ∧
      ∃ keyed, setKey cipher key = (keyed, .ok ()) ∧
        context = { cipher := keyed, key, config
                    iv := if config.mode.requiresIv then iv else [] } := by
  simp only [Context.withCipher, bind, Except.bind] at built
  split at built
  · cases built
  next valid =>
    have positive : 0 < config.blockSize := Nat.pos_of_ne_zero (validate_eq_ok.mp valid).1
    split at built
    · cases built
    split at built
    · cases built
    next agreed =>
      split at built
      · cases built
      next iv_fits =>
        split at built
        · cases built
        next taken =>
          cases built
          refine ⟨positive, Decidable.not_not.mp agreed, ?_, _, Prod.ext rfl taken, rfl⟩
          intro required
          exact Decidable.not_not.mp fun other => iv_fits ⟨required, other⟩

theorem withCipher_config {cipher : C} {context : Context C}
    (built : Context.withCipher cipher key iv config = .ok context) : context.config = config := by
  obtain ⟨_, _, _, _, _, rfl⟩ := withCipher_eq built
  rfl

theorem withCipher_sound [KeyedCipher C] {cipher : C} {context : Context C}
    (usable : Usable cipher config.mode)
    (built : Context.withCipher cipher key iv config = .ok context) : Sound context := by
  obtain ⟨positive, agreed, iv_fits, keyed, taken, rfl⟩ := withCipher_eq built
  refine ⟨fun coded => ?_, positive, ?_, ?_⟩
  · have permutes : Permutes keyed (blockSize cipher) := KeyedCipher.permutes (usable coded) taken
    rw [agreed] at permutes
    exact permutes
  · have narrow := KeyedCipher.blockSize_le cipher
    rw [agreed] at narrow
    exact Nat.le_trans narrow (by decide)
  · intro required
    simp only [Context.blockSize] at required ⊢
    rw [if_pos required]
    exact iv_fits required

end RoomCipher.KeyedContexts
