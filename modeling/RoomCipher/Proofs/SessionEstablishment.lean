import RoomCipher.Proofs.FirstKey
import RoomCipher.Proofs.KeyedContexts

/-! Which sessions can be established at all. What a session is made from is checked
without regard to the cipher; whether its blocks have the size that is set is seen
only when a key comes in. All the ciphers take blocks of the usual size, so settings
with any other are let through when the session is made and refused with every key. -/
namespace RoomCipher.SessionEstablishment
open BlockCipher Exchange DerivedContexts SessionRuns FirstKey

/-- What is said of blocks that are not of the usual size once they are needed. Whether the digest
is long enough for a starting block is looked at before the cipher is. -/
def complaint (blockSize : Nat) : ConfigError :=
  if Sha256.digestBytes < blockSize then
    .parameter s!"cannot derive a {blockSize}-byte IV from a {Sha256.digestBytes}-byte digest"
  else .blockSizeMismatch defaultBlockSize blockSize

/-- A cipher with other blocks than the settings say is found out before it sees the key. -/
theorem withCipher_mismatched {C : Type} [BlockCipher C] {cipher : C} {config : Config}
    (valid : config.validate = .ok ()) (size : key.length ∈ Context.keySizes)
    (other : blockSize cipher ≠ config.blockSize) (iv : Bytes) :
    Context.withCipher cipher key iv config =
      .error (.config (.blockSizeMismatch (blockSize cipher) config.blockSize)) := by
  simp [Context.withCipher, valid, size, other, bind, Except.bind]

/-! ### Unusual blocks -/

/-- A session without a context whose settings passed the checks it was made under, but with blocks
that are not of the usual size. -/
structure Misfit (session : Session) : Prop where
  valid : session.config.validate = .ok ()
  modulus : 1 < session.parameters.prime
  unusual : session.config.blockSize ≠ defaultBlockSize
  unestablished : session.isEstablished = false

variable {session : Session}

/-- A key in range is refused as well, on account of the settings. -/
theorem Misfit.deriveContext_eq (misfit : Misfit session) (above : 1 < key)
    (below : key < session.parameters.prime - 1) :
    session.deriveContext key = .error (.config (complaint session.config.blockSize)) := by
  have positive := (KeyedContexts.validate_eq_ok.mp misfit.valid).1
  rw [deriveContext_raised misfit.modulus above below, SessionKeys.deriveFor, complaint]
  -- Either the digest is too short for a starting block, or the cipher has other blocks.
  by_cases long : Sha256.digestBytes < session.config.blockSize
  · rw [if_pos (.inr long), if_pos long]
    rfl
  · rw [if_neg (not_or.mpr ⟨positive, long⟩), if_neg long]
    obtain ⟨key_full, _⟩ := length_cut
      (key ^ session.keyPair.privateKey % session.parameters.prime) (Nat.le_of_not_lt long)
    have usual := blockSize_standard session.config.algorithm
    refine (withCipher_mismatched misfit.valid (key_full ▸ by decide) ?_ _).trans ?_
    · rw [usual]
      exact misfit.unusual.symm
    · rw [usual]

/-- No key leads to a context. -/
theorem Misfit.deriveContext_ne (misfit : Misfit session) (key : Nat) (context : Context Builtin) :
    session.deriveContext key ≠ .ok context := by
  intro derived
  by_cases inside : 1 < key ∧ key < session.parameters.prime - 1
  · cases derived.symm.trans (misfit.deriveContext_eq inside.1 inside.2)
  · cases derived.symm.trans (deriveContext_refused misfit.modulus inside)

theorem Misfit.accept_refused (misfit : Misfit session)
    (waiting : session.state = .awaitingPeerKey) (foreign : peer ≠ session.clientId)
    (above : 1 < key) (below : key < session.parameters.prime - 1) :
    session.accept peer key =
      (session, .error (.config (complaint session.config.blockSize))) := by
  rw [accept_waiting waiting foreign, misfit.deriveContext_eq above below]

theorem Misfit.accept_unchanged (misfit : Misfit session) (peer : String) (key : Nat) :
    (session.accept peer key).1 = session := by
  obtain ⟨next, answer, result, reply⟩ := accept_reply session peer key
  rw [result]
  cases reply with
  | own | late | refused => rfl
  | noted foreign established =>
    have unestablished := misfit.unestablished
    rw [Session.isEstablished, established] at unestablished
    cases unestablished
  | joined context foreign waiting derived => exact absurd derived (misfit.deriveContext_ne key _)

/-- Whatever is done to such a session, it is not established by it. -/
theorem Misfit.run (misfit : Misfit session) (actions : List Action) :
    Misfit (run session actions) := by
  refine List.foldlRecOn actions perform misfit fun reached misfit action _ => ?_
  by_cases closing : action = .close
  · subst closing
    exact { misfit with unestablished := rfl }
  · refine perform_keeps Misfit (fun next peer key misfit => ?_) misfit closing
    rw [misfit.accept_unchanged]
    exact misfit

/-! ### New sessions -/

theorem create_misfit {start : Session} {config : Config}
    (created : Session.create roomId clientId config parameters source = .ok (start, rest))
    (unusual : config.blockSize ≠ defaultBlockSize) : Misfit start := by
  obtain ⟨valid, modulus, _, _, rfl⟩ := create_made created
  exact ⟨valid, modulus, unusual, rfl⟩

/-- A session that was made can be established if and only if its blocks have the usual size.
Otherwise the first key of another member, though acceptable, is refused on account of settings
that were there from the start, and nothing that is done to the session establishes it. -/
theorem establishes_iff_usual {start : Session} {config : Config}
    (created : Session.create roomId clientId config parameters source = .ok (start, rest))
    (foreign : peer ≠ clientId) (acceptable : parameters.validatePublicKey key = .ok ()) :
    ((start.accept peer key).2 = .ok true ↔ config.blockSize = defaultBlockSize) ∧
      (config.blockSize ≠ defaultBlockSize →
        start.accept peer key = (start, .error (.config (complaint config.blockSize))) ∧
        ∀ actions, (run start actions).isEstablished = false) := by
  obtain ⟨valid, modulus, pair, _, made⟩ := create_made created
  have waiting : start.state = .awaitingPeerKey := congrArg Session.state made
  have named : start.clientId = clientId := congrArg Session.clientId made
  have group : start.parameters = parameters := congrArg Session.parameters made
  have settings : start.config = config := congrArg Session.config made
  subst named group settings
  obtain ⟨above, below⟩ := (validatePublicKey_eq_ok modulus).mp acceptable
  by_cases usual : start.config.blockSize = defaultBlockSize
  · obtain ⟨_, _, _, _, accepted⟩ :=
      accept_usable ⟨waiting, valid, usual, modulus⟩ ⟨foreign, above, below⟩
    exact ⟨⟨fun _ => usual, fun _ => congrArg Prod.snd accepted⟩, fun other => absurd usual other⟩
  · have misfit := create_misfit created usual
    have refused := misfit.accept_refused waiting foreign above below
    refine ⟨⟨fun joined => ?_, fun held => absurd held usual⟩, fun _ => ⟨refused, ?_⟩⟩
    · rw [refused] at joined
      cases joined
    · exact fun actions => (misfit.run actions).unestablished

/-- Blocks of half the usual size, and a key of another member. -/
theorem establishes_iff_usual_half :
    ∃ start rest,
      Session.create "room" "alice" { Config.sequential with blockSize := 8 } ⟨23, 5⟩
        ⟨fun _ => 6, 0, 1⟩ = .ok (start, rest) ∧
      "bob" ≠ "alice" ∧ Parameters.validatePublicKey ⟨23, 5⟩ 9 = .ok () ∧
      ((start.accept "bob" 9).2 = .ok true ↔ 8 = defaultBlockSize) ∧
      (8 ≠ defaultBlockSize →
        start.accept "bob" 9 = (start, .error (.config (complaint 8))) ∧
        ∀ actions, (run start actions).isEstablished = false) := by
  have created : Session.create "room" "alice" { Config.sequential with blockSize := 8 } ⟨23, 5⟩
      ⟨fun _ => 6, 0, 1⟩ = .ok (_, _) := rfl
  have acceptable : Parameters.validatePublicKey ⟨23, 5⟩ 9 = .ok () := rfl
  have foreign : "bob" ≠ "alice" := by decide
  exact ⟨_, _, created, foreign, acceptable, establishes_iff_usual created foreign acceptable⟩

/-- A session that is made without complaint and refuses an acceptable key for its settings. -/
theorem create_lets_misfit_through :
    ∃ start rest,
      Session.create "room" "alice" { Config.sequential with blockSize := 8 } ⟨23, 5⟩
        ⟨fun _ => 6, 0, 1⟩ = .ok (start, rest) ∧
      "bob" ≠ start.clientId ∧ start.parameters.validatePublicKey 9 = .ok () ∧
      (start.accept "bob" 9).2 = .error (.config (.blockSizeMismatch 16 8)) := by
  have created : Session.create "room" "alice" { Config.sequential with blockSize := 8 } ⟨23, 5⟩
      ⟨fun _ => 6, 0, 1⟩ = .ok (_, _) := rfl
  have misfit := create_misfit created (by decide)
  have foreign : "bob" ≠ "alice" := by decide
  exact ⟨_, _, created, foreign, rfl,
    congrArg Prod.snd (misfit.accept_refused rfl foreign (by decide : 1 < 9) (by decide))⟩

end RoomCipher.SessionEstablishment
