import RoomCipher.Proofs.ContextRoundTrip
import RoomCipher.Proofs.ModularPowers
import RoomCipher.Proofs.Outcomes
import RoomCipher.Proofs.SessionRuns

/-! Two participants who are established by each other's keys understand each other.
Both raise the generator to both exponents, so they share a secret; everything else
that a context is made of is derived from that secret and from settings on which they
agree. What either of them did before, and what it does afterwards short of closing,
makes no difference. -/
namespace RoomCipher.KeyAgreement
open KeyedContexts ContextRoundTrip ModularPowers Outcomes SessionRuns

/-- A session is created with the settings and the parameters given, and with a key pair. -/
theorem create_eq {session : Session}
    (created : Session.create roomId clientId config parameters source = .ok (session, rest)) :
    session.config = config ∧ session.parameters = parameters ∧
      session.publicKey =
        Exchange.powMod parameters.generator session.keyPair.privateKey parameters.prime := by
  obtain ⟨_, _, pair, raised, rfl⟩ := create_made created
  exact ⟨rfl, rfl, raised⟩

/-- The context is made from the settings and from what the secret is cut into. -/
theorem deriveContext_eq {session : Session} {context : Context Builtin}
    (derived : session.deriveContext key = .ok context) :
    ∃ keys, Exchange.SessionKeys.deriveFor
        (Exchange.powMod key session.keyPair.privateKey session.parameters.prime)
        session.config.blockSize = .ok keys ∧
      Context.ofConfig keys.key keys.iv session.config = .ok context := by
  rw [Session.deriveContext, bind_eq_ok] at derived
  obtain ⟨secret, shared, derived⟩ := derived
  obtain ⟨keys, cut, made⟩ := bind_eq_ok.mp derived
  rw [Exchange.KeyPair.sharedSecret, bind_eq_ok] at shared
  obtain ⟨_, _, raised⟩ := shared
  obtain ⟨_, _, power⟩ := bind_eq_ok.mp raised
  cases power
  exact ⟨keys, cut, made⟩

/-- The key that an offered key leads a session to, whatever the session has been through. -/
theorem joined_context {start joined : Session}
    (created : Session.create roomId clientId config parameters source = .ok (start, rest))
    (joins : (run start before).accept peer key = (joined, .ok true))
    (still : Action.close ∉ after) :
    ∃ context keys, (run joined after).context = .ok context ∧
      Exchange.SessionKeys.deriveFor
        (Exchange.powMod key start.keyPair.privateKey parameters.prime) config.blockSize =
          .ok keys ∧
      Context.ofConfig keys.key keys.iv config = .ok context := by
  obtain ⟨context, derived, established⟩ := accept_established joins
  obtain ⟨keys, cut, made⟩ := deriveContext_eq derived
  obtain ⟨settings, group, _⟩ := create_eq created
  have same := run_member start before
  rw [SameMember] at same
  rw [same] at cut made
  simp only [settings, group] at cut made
  exact ⟨context, keys, context_stays established after still, cut, made⟩

theorem context_encrypt {session : Session} {context : Context Builtin}
    (established : session.context = .ok context) (message : Bytes) (source : Entropy) :
    session.encrypt message source = context.encrypt message source := by
  rw [Session.encrypt, established]
  rfl

theorem context_decrypt {session : Session} {context : Context Builtin}
    (established : session.context = .ok context) (ciphertext : Bytes) :
    session.decrypt ciphertext = context.decrypt ciphertext := by
  rw [Session.decrypt, established]
  rfl

/-- Two sessions with contexts that do the same work under the same key. -/
structure Agreed (alice bob : Session) (ours theirs : Context Builtin) : Prop where
  held : alice.context = .ok ours
  holds : bob.context = .ok theirs
  sound : Sound ours
  alike : Alike ours theirs
  key : ours.key = theirs.key

theorem Agreed.symm {alice bob : Session} (agreed : Agreed alice bob ours theirs) :
    Agreed bob alice theirs ours :=
  ⟨agreed.holds, agreed.held, agreed.alike.sound agreed.sound, agreed.alike.symm, agreed.key.symm⟩

/-- What one of two such sessions sends, the other one reads. -/
theorem Agreed.relay {sender receiver : Session} (agreed : Agreed sender receiver ours theirs)
    (marked : ours.config.padding ≠ .zeros) (written : message ≠ []) (source : Entropy) :
    ∃ ciphertext rest, sender.encrypt message source = .ok (ciphertext, rest) ∧
      receiver.decrypt ciphertext = .ok message := by
  obtain ⟨ciphertext, rest, forth, back⟩ :=
    decrypt_encrypt_alike agreed.alike agreed.sound written source
  rw [if_neg marked] at back
  refine ⟨ciphertext, rest, ?_, ?_⟩
  · rw [context_encrypt agreed.held, forth]
  · rw [context_decrypt agreed.holds, back]

/-- Participants who were established by each other's keys have such sessions, provided that their
settings go together. -/
theorem agreed_of_joins {alice bob aliceJoined bobJoined : Session} {aliceConfig bobConfig : Config}
    (aliceCreated : Session.create aliceRoom aliceId aliceConfig parameters aliceSource =
      .ok (alice, aliceRest))
    (bobCreated : Session.create bobRoom bobId bobConfig parameters bobSource = .ok (bob, bobRest))
    (algorithm : aliceConfig.algorithm = bobConfig.algorithm)
    (mode : aliceConfig.mode = bobConfig.mode) (padding : aliceConfig.padding = bobConfig.padding)
    (blockSize : aliceConfig.blockSize = bobConfig.blockSize)
    (aliceJoins : (run alice aliceBefore).accept bobName bob.publicKey = (aliceJoined, .ok true))
    (bobJoins : (run bob bobBefore).accept aliceName alice.publicKey = (bobJoined, .ok true))
    (aliceStays : Action.close ∉ aliceAfter) (bobStays : Action.close ∉ bobAfter) :
    ∃ ours theirs, Agreed (run aliceJoined aliceAfter) (run bobJoined bobAfter) ours theirs ∧
      ours.config = aliceConfig := by
  obtain ⟨ours, keys, held, cut, made⟩ := joined_context aliceCreated aliceJoins aliceStays
  obtain ⟨theirs, others, holds, recut, remade⟩ := joined_context bobCreated bobJoins bobStays
  have aliceKey := (create_eq aliceCreated).2.2
  have bobKey := (create_eq bobCreated).2.2
  -- The secret is the same power whichever of the two exponents came first.
  rw [bobKey, powMod_comm, ← aliceKey, blockSize, recut] at cut
  cases cut
  rw [Context.ofConfig, algorithm] at made
  obtain ⟨alike, sameKey⟩ := withCipher_alike made remade mode padding blockSize
  have sound := withCipher_sound (fun _ => workable_standard _) made
  exact ⟨ours, theirs, ⟨held, holds, sound, alike, sameKey⟩, withCipher_config made⟩

/-- Two participants with common parameters who were established by each other's keys, under whatever
names these came, hold the same key and the same starting block, and each decrypts what the other
one encrypts. -/
theorem agreement {alice bob aliceJoined bobJoined : Session} {aliceConfig bobConfig : Config}
    (aliceCreated : Session.create aliceRoom aliceId aliceConfig parameters aliceSource =
      .ok (alice, aliceRest))
    (bobCreated : Session.create bobRoom bobId bobConfig parameters bobSource = .ok (bob, bobRest))
    (algorithm : aliceConfig.algorithm = bobConfig.algorithm)
    (mode : aliceConfig.mode = bobConfig.mode) (padding : aliceConfig.padding = bobConfig.padding)
    (blockSize : aliceConfig.blockSize = bobConfig.blockSize)
    (aliceJoins : (run alice aliceBefore).accept bobName bob.publicKey = (aliceJoined, .ok true))
    (bobJoins : (run bob bobBefore).accept aliceName alice.publicKey = (bobJoined, .ok true))
    (aliceStays : Action.close ∉ aliceAfter) (bobStays : Action.close ∉ bobAfter) :
    ∃ ours theirs, (run aliceJoined aliceAfter).context = .ok ours ∧
      (run bobJoined bobAfter).context = .ok theirs ∧ ours.key = theirs.key ∧ ours.iv = theirs.iv ∧
      (aliceConfig.padding ≠ .zeros → ∀ message, message ≠ [] → ∀ source,
        (∃ ciphertext rest,
          (run aliceJoined aliceAfter).encrypt message source = .ok (ciphertext, rest) ∧
          (run bobJoined bobAfter).decrypt ciphertext = .ok message) ∧
        ∃ ciphertext rest,
          (run bobJoined bobAfter).encrypt message source = .ok (ciphertext, rest) ∧
          (run aliceJoined aliceAfter).decrypt ciphertext = .ok message) := by
  obtain ⟨ours, theirs, agreed, settings⟩ := agreed_of_joins aliceCreated bobCreated algorithm mode
    padding blockSize aliceJoins bobJoins aliceStays bobStays
  refine ⟨ours, theirs, agreed.held, agreed.holds, agreed.key, agreed.alike.iv, ?_⟩
  intro marked message written source
  rw [← settings] at marked
  exact ⟨agreed.relay marked written source,
    agreed.symm.relay (agreed.alike.padding ▸ marked) written source⟩

/-- One of them has a useless key offered before, the other one a further key after. -/
theorem agreement_small :
    ∃ aliceRest bobRest aliceJoined bobJoined,
      Session.create "room" "alice" Config.sequential ⟨23, 5⟩ ⟨fun _ => 6, 0, 1⟩ =
        .ok (member "alice" Config.sequential 6, aliceRest) ∧
      Session.create "room" "bob" (Config.standard 4) ⟨23, 5⟩ ⟨fun _ => 15, 0, 1⟩ =
        .ok (member "bob" (Config.standard 4) 15, bobRest) ∧
      (run (member "alice" Config.sequential 6) [.accept "bob" 1]).accept "bob"
        (member "bob" (Config.standard 4) 15).publicKey = (aliceJoined, .ok true) ∧
      (run (member "bob" (Config.standard 4) 15) []).accept "alice"
        (member "alice" Config.sequential 6).publicKey = (bobJoined, .ok true) ∧
      ∃ ours theirs, (run aliceJoined []).context = .ok ours ∧
        (run bobJoined [.accept "carol" 9]).context = .ok theirs ∧
        ours.key = theirs.key ∧ ours.iv = theirs.iv ∧
        ∃ ciphertext rest,
          (run aliceJoined []).encrypt [1, 2, 3] ⟨fun _ => 0, 0, 0⟩ = .ok (ciphertext, rest) ∧
          (run bobJoined [.accept "carol" 9]).decrypt ciphertext = .ok [1, 2, 3] := by
  have aliceCreated : Session.create "room" "alice" Config.sequential ⟨23, 5⟩
      ⟨fun _ => 6, 0, 1⟩ = .ok (member "alice" Config.sequential 6, _) := rfl
  have bobCreated : Session.create "room" "bob" (Config.standard 4) ⟨23, 5⟩
      ⟨fun _ => 15, 0, 1⟩ = .ok (member "bob" (Config.standard 4) 15, _) := rfl
  have aliceJoins : (run (member "alice" Config.sequential 6) [.accept "bob" 1]).accept "bob"
      (member "bob" (Config.standard 4) 15).publicKey = (_, .ok true) :=
    Prod.ext rfl (by decide +kernel)
  have bobJoins : (run (member "bob" (Config.standard 4) 15) []).accept "alice"
      (member "alice" Config.sequential 6).publicKey = (_, .ok true) :=
    Prod.ext rfl (by decide +kernel)
  have aliceStays : Action.close ∉ ([] : List Action) := by simp
  have bobStays : Action.close ∉ [Action.accept "carol" 9] := by simp
  obtain ⟨ours, theirs, held, holds, key, iv, messages⟩ := agreement aliceCreated bobCreated rfl
    rfl rfl rfl aliceJoins bobJoins aliceStays bobStays
  have relayed := (messages (by decide) [1, 2, 3] (by decide) ⟨fun _ => 0, 0, 0⟩).1
  exact ⟨_, _, _, _, aliceCreated, bobCreated, aliceJoins, bobJoins, ours, theirs, held, holds, key,
    iv, relayed⟩

end RoomCipher.KeyAgreement
