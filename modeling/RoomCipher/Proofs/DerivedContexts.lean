import RoomCipher.Proofs.ByteLaws
import RoomCipher.Proofs.ModularPowers
import RoomCipher.Session.Basic

/-! From an offered key to a context. A key in range leads to a power that both sides
share, and the digest of that power is long enough for a key and a starting block of
the usual size, which all the ciphers of this library take. So where the settings are
usable and blocks have the usual size, the range of the offered key decides alone. -/
namespace RoomCipher.DerivedContexts
open Exchange BlockCipher

/-! ### Key material -/

theorem length_digest (message : Bytes) :
    (Sha256.digest message).length = Sha256.digestBytes := by
  simp [Sha256.digest, Sha256.State.bytes, Sha256.digestBytes]

theorem length_cut (secret : Nat) (short : ivBytes ≤ Sha256.digestBytes) :
    (SessionKeys.cut secret ivBytes).key.length = sessionKeyBytes ∧
      (SessionKeys.cut secret ivBytes).iv.length = ivBytes := by
  simp only [SessionKeys.cut, List.length_take, length_digest]
  exact ⟨by decide, Nat.min_eq_left short⟩

/-! ### Contexts -/

/-- Every algorithm takes a key as long as a session key. -/
theorem setKey_standard (algorithm : Algorithm) {key : Bytes} (width : key.length = sessionKeyBytes) :
    ∃ keyed, setKey (Builtin.ofAlgorithm algorithm) key = (keyed, .ok ()) := by
  have written : key ≠ [] := by
    rintro rfl
    cases width
  suffices taken : (setKey (Builtin.ofAlgorithm algorithm) key).2 = .ok () from
    ⟨_, Prod.ext rfl taken⟩
  cases algorithm with
  | loki97 =>
    have whole : key.length = Loki97.keyBytes := width
    change (Loki97.setKey Loki97.new key).2 = .ok ()
    rw [Loki97.setKey, if_pos whole]
  | rc5 =>
    change (Rc5.setKey Rc5.standard key).2 = .ok ()
    rw [Rc5.setKey, if_neg written, if_neg (by rw [width]; decide)]
  | magenta =>
    change (Magenta.setKey Magenta.standard key).2 = .ok ()
    rw [Magenta.setKey, if_neg written]
    rfl

theorem blockSize_standard (algorithm : Algorithm) :
    blockSize (Builtin.ofAlgorithm algorithm) = defaultBlockSize := by
  cases algorithm <;> rfl

/-- A context is made if nothing that is checked is amiss. -/
theorem withCipher_made {C : Type} [BlockCipher C] {cipher keyed : C} {config : Config}
    (valid : config.validate = .ok ()) (size : key.length ∈ Context.keySizes)
    (agreed : blockSize cipher = config.blockSize) (full : iv.length = config.blockSize)
    (taken : setKey cipher key = (keyed, .ok ())) :
    ∃ context, Context.withCipher cipher key iv config = .ok context := by
  simp [Context.withCipher, valid, size, agreed, full, taken, bind, Except.bind, pure, Except.pure]

/-- Settings that are usable and have blocks of the usual size give a context over every secret. -/
theorem ofConfig_made {config : Config} (valid : config.validate = .ok ())
    (usual : config.blockSize = defaultBlockSize) (secret : Nat) :
    ∃ keys context, SessionKeys.deriveFor secret config.blockSize = .ok keys ∧
      Context.ofConfig keys.key keys.iv config = .ok context := by
  have short : config.blockSize ≤ Sha256.digestBytes := usual ▸ by decide
  obtain ⟨key_full, iv_full⟩ := length_cut secret short
  obtain ⟨keyed, taken⟩ := setKey_standard config.algorithm key_full
  obtain ⟨context, made⟩ := withCipher_made valid (key_full ▸ by decide)
    ((blockSize_standard config.algorithm).trans usual.symm) iv_full taken
  refine ⟨_, context, ?_, made⟩
  rw [SessionKeys.deriveFor, if_neg]
  rw [usual]
  decide

/-! ### Offered keys -/

theorem validatePublicKey_eq_ok {parameters : Parameters} (modulus : 1 < parameters.prime) :
    parameters.validatePublicKey key = .ok () ↔ 1 < key ∧ key < parameters.prime - 1 := by
  have positive : parameters.prime ≠ 0 := by omega
  rw [Parameters.validatePublicKey, if_neg positive]
  split
  next outside =>
    constructor
    · intro accepted
      cases accepted
    · omega
  next inside =>
    have between : 1 < key ∧ key < parameters.prime - 1 := by omega
    exact ⟨fun _ => between, fun _ => rfl⟩

/-- A key out of range leads to no context, whatever the settings. -/
theorem deriveContext_refused {session : Session} (modulus : 1 < session.parameters.prime)
    (outside : ¬(1 < key ∧ key < session.parameters.prime - 1)) :
    session.deriveContext key = .error (.exchange .publicKey) := by
  have refused : session.parameters.validatePublicKey key = .error (.exchange .publicKey) := by
    rw [Parameters.validatePublicKey, if_neg (by omega), if_pos (by omega)]
  rw [Session.deriveContext, KeyPair.sharedSecret, refused]
  rfl

/-- A key in range leads to the context of its power. -/
theorem deriveContext_raised {session : Session} (modulus : 1 < session.parameters.prime)
    (above : 1 < key) (below : key < session.parameters.prime - 1) :
    session.deriveContext key = (do
      let keys ← SessionKeys.deriveFor
        (key ^ session.keyPair.privateKey % session.parameters.prime) session.config.blockSize
      Context.ofConfig keys.key keys.iv session.config) := by
  have accepted := (validatePublicKey_eq_ok modulus).mpr ⟨above, below⟩
  have raised : checkModulus session.parameters.prime = .ok () := if_neg (by omega)
  rw [← ModularPowers.powMod_eq]
  simp only [Session.deriveContext, KeyPair.sharedSecret, accepted, sharedKey, raised]
  rfl

end RoomCipher.DerivedContexts
