import RoomCipher.Proofs.HexText
import RoomCipher.Proofs.KeyAgreement
import RoomCipher.Proofs.WireRecords

/-! Rooms over a transport. A member describes its room in an invitation, and whoever
reads it joins with the same tags and parameters, whatever else the two have set up
differently. Announcements then carry the public keys, and two members who have
accepted each other's announcement understand each other. -/
namespace RoomCipher.RoomTransport
open Exchange HexText KeyAgreement KeyedContexts Outcomes SessionRuns WireRecords

/-! ### Drawing a private key -/

/-- The bytes of one of the draws in which a number below `bound` is looked for, counted from
zero. -/
def proposal (bound : Nat) (source : Entropy) (number : Nat) : Bytes :=
  let width := byteCount (bitLength bound)
  ({ source with position := source.position + number * width }.draw width).1

/-- Among so many draws there is a number below the bound. -/
def YieldsWithin (attempts bound : Nat) (source : Entropy) : Prop :=
  ∃ number < attempts, ∃ n, below? bound (proposal bound source number) = some n

/-- A source comes up with a number below the bound while it has patience. -/
def Yields (bound : Nat) (source : Entropy) : Prop :=
  YieldsWithin source.patience bound source

theorem proposal_zero (bound : Nat) (source : Entropy) :
    proposal bound source 0 = (source.draw (byteCount (bitLength bound))).1 := by
  rw [proposal, Nat.zero_mul]
  rfl

theorem proposal_succ (bound : Nat) (source : Entropy) (number : Nat) :
    proposal bound source (number + 1) =
      proposal bound (source.draw (byteCount (bitLength bound))).2 number := by
  rw [proposal, proposal, Nat.succ_mul, Nat.add_comm (number * _), ← Nat.add_assoc]
  rfl

/-- One attempt at a number below a bound, as a search repeats it. -/
def attempt (bound : Nat) (source : Entropy) : Except Error (Option Nat × Entropy) :=
  let (raw, source) := source.draw (byteCount (bitLength bound))
  .ok (below? bound raw, source)

theorem searchWithin_yields (yields : YieldsWithin attempts bound source) :
    ∃ n rest, Entropy.searchWithin (attempt bound) attempts source = .ok (n, rest) := by
  obtain ⟨number, before, n, hit⟩ := yields
  induction attempts generalizing source number with
  | zero => cases before
  | succ attempts ih =>
    have tried : attempt bound source =
        .ok (below? bound (source.draw (byteCount (bitLength bound))).1,
          (source.draw (byteCount (bitLength bound))).2) := rfl
    rw [Entropy.searchWithin, tried]
    cases first : below? bound (source.draw (byteCount (bitLength bound))).1 with
    | some n => exact ⟨n, _, rfl⟩
    | none =>
      cases number with
      | zero =>
        rw [proposal_zero, first] at hit
        cases hit
      | succ number => exact ih number (Nat.lt_of_succ_lt_succ before) (proposal_succ .. ▸ hit)

theorem randomBelow_yields (positive : 0 < bound) (yields : Yields bound source) :
    ∃ n rest, randomBelow bound source = .ok (n, rest) := by
  rw [randomBelow, if_neg (Nat.ne_of_gt positive)]
  exact searchWithin_yields yields

/-- A session can be made from checked settings and a source that yields a private key. -/
theorem create_yields {config : Config} {parameters : Parameters}
    (valid : config.validate = .ok ()) (modulus : 1 < parameters.prime)
    (yields : Yields parameters.prime source) (roomId clientId : String) :
    ∃ keyPair rest, Session.create roomId clientId config parameters source =
      .ok (.fresh roomId clientId config parameters keyPair, rest) := by
  obtain ⟨secret, rest, drawn⟩ := randomBelow_yields (Nat.lt_trans Nat.zero_lt_one modulus) yields
  have raised : checkModulus parameters.prime = .ok () := if_neg (Nat.not_le.mpr modulus)
  refine ⟨⟨secret, powMod parameters.generator secret parameters.prime⟩, rest, ?_⟩
  simp only [Session.create, valid, KeyPair.generate, generatePrivateKey, drawn, publicKey, raised,
    bind, Except.bind, pure, Except.pure]

/-! ### Joining -/

theorem ofPrime_eq_ok {parameters : Parameters} :
    Parameters.ofPrime prime = .ok parameters ↔
      defaultGenerator < prime ∧ parameters = ⟨prime, defaultGenerator⟩ := by
  rw [Parameters.ofPrime]
  split
  next small => simp [Nat.not_lt.mpr small]
  next large => simp [Nat.lt_of_not_le large, eq_comm]

/-- Parameters are read back from the text of their prime. -/
theorem ofHex_primeHex {parameters : Parameters}
    (group : Parameters.ofPrime prime = .ok parameters) :
    Parameters.ofHex parameters.primeHex = .ok parameters := by
  obtain ⟨large, rfl⟩ := ofPrime_eq_ok.mp group
  rw [Parameters.ofHex, Parameters.primeHex, toNat_ofNat (Nat.lt_trans (by decide) large)]
  exact group

/-- An invitation stands for the tags of the room with the usual settings around them, and for the
parameters of the room. -/
theorem parts_ofSession {session : Session}
    (group : Parameters.ofPrime prime = .ok session.parameters) (cores : Nat) :
    (Invitation.ofSession session).parts cores =
      .ok (Config.withTags cores session.config.algorithm session.config.mode
        session.config.padding, session.parameters) := by
  have parameters : Parameters.ofHex (Invitation.ofSession session).prime =
      .ok session.parameters := ofHex_primeHex group
  have version : (Invitation.ofSession session).version = wireVersion := rfl
  rw [Invitation.parts, if_neg (not_not_intro version), parameters]
  exact congrArg (· >>= _) (ofTags_name cores ..)

/-- Joining is making a session with these. -/
theorem join_ofSession {session : Session}
    (group : Parameters.ofPrime prime = .ok session.parameters) (cores : Nat) (guestId : String)
    (source : Entropy) :
    (Invitation.ofSession session).join cores guestId source =
      Session.create session.roomId guestId (Config.withTags cores session.config.algorithm
        session.config.mode session.config.padding) session.parameters source := by
  rw [Invitation.join, parts_ofSession group]
  rfl

/-! ### Announcements -/

/-- A key that is accepted from an announcement is the one that was announced. -/
theorem accept_of_applyTo {sender receiver joined : Session}
    (applied : (Announcement.ofSession sender).applyTo receiver = (joined, .ok true)) :
    receiver.accept sender.clientId sender.publicKey = (joined, .ok true) := by
  rw [Announcement.applyTo] at applied
  split at applied
  · have read : Announcement.publicKey (.ofSession sender) = Hex.ofNat sender.publicKey := rfl
    rw [Session.acceptHex, read] at applied
    rcases Nat.eq_zero_or_pos sender.publicKey with zero | positive
    · rw [zero, toNat_ofNat_zero] at applied
      cases applied
    · rw [toNat_ofNat positive] at applied
      exact applied
  · cases applied

/-- An announcement for another room is refused, and nothing comes of it. -/
theorem applyTo_elsewhere {announcement : Announcement} {session : Session}
    (elsewhere : announcement.roomId ≠ session.roomId) :
    ∃ text, announcement.applyTo session = (session, .error (.data text)) := by
  rw [Announcement.applyTo, if_neg elsewhere]
  exact ⟨_, rfl⟩

/-! ### Two members -/

/-- A session joined by invitation: it waits in the same room, with the same tags and parameters. -/
structure Follows (host guest : Session) : Prop where
  room : guest.roomId = host.roomId
  algorithm : guest.config.algorithm = host.config.algorithm
  mode : guest.config.mode = host.config.mode
  padding : guest.config.padding = host.config.padding
  group : guest.parameters = host.parameters
  waiting : guest.state = .awaitingPeerKey

/-- Every message that the one sends is read by the other. -/
def Relays (sender receiver : Session) : Prop :=
  ∀ message, message ≠ [] → ∀ source, ∃ ciphertext rest,
    sender.encrypt message source = .ok (ciphertext, rest) ∧
      receiver.decrypt ciphertext = .ok message

/-- What a session was created with stays, whatever is done to it. -/
theorem run_created {start : Session} {config : Config}
    (created : Session.create roomId clientId config parameters source = .ok (start, rest))
    (actions : List Action) :
    (run start actions).config = config ∧ (run start actions).parameters = parameters ∧
      (run start actions).publicKey = start.publicKey := by
  have same := run_member start actions
  rw [SameMember] at same
  obtain ⟨settings, group, _⟩ := create_eq created
  rw [same]
  exact ⟨settings, group, rfl⟩

/-- Members who have accepted each other's announcement read each other's messages. -/
theorem relays_of_announcements {start guest host joined : Session} {config other : Config}
    (created : Session.create roomId clientId config parameters source = .ok (start, rest))
    (recreated : Session.create otherRoom guestId other parameters draws = .ok (guest, left))
    (algorithm : config.algorithm = other.algorithm) (mode : config.mode = other.mode)
    (padding : config.padding = other.padding) (blockSize : config.blockSize = other.blockSize)
    (accepts : (Announcement.ofSession guest).applyTo (run start before) = (host, .ok true))
    (joins : (Announcement.ofSession (run start before)).applyTo guest = (joined, .ok true))
    (marked : config.padding ≠ .zeros) : Relays host joined ∧ Relays joined host := by
  have offered := accept_of_applyTo joins
  rw [(run_created created before).2.2] at offered
  have still : Action.close ∉ ([] : List Action) := List.not_mem_nil
  have fresh : (run guest []).accept (run start before).clientId start.publicKey =
      (joined, .ok true) := offered
  obtain ⟨ours, theirs, agreed, settings⟩ := agreed_of_joins created recreated algorithm mode
    padding blockSize (accept_of_applyTo accepts) fresh still still
  rw [← settings] at marked
  refine ⟨fun message written source => agreed.relay marked written source, ?_⟩
  exact fun message written source =>
    agreed.symm.relay (agreed.alike.padding ▸ marked) written source

/-- Whoever reads the invitation of a session joins its room, whatever the state of the session and
its other settings, and the two members read each other's messages once each has accepted what it
read of the other's announcement. An announcement for another room changes nothing. -/
theorem rooms_interoperate {codec : Codec} {start : Session} {config : Config}
    (group : Parameters.ofPrime prime = .ok parameters)
    (usual : config.blockSize = defaultBlockSize)
    (created : Session.create roomId clientId config parameters source = .ok (start, rest))
    (before : List Action)
    (invited : codec.Returns (Invitation.ofSession (run start before)).toValue)
    (machine : 0 < cores) (yields : Yields prime draws) (guestId : String) :
    (∃ invitation guest left,
      codec.carry Invitation.ofValue? (Invitation.ofSession (run start before)).toValue =
        some invitation ∧
      invitation.join cores guestId draws = .ok (guest, left) ∧
      guest.clientId = guestId ∧ Follows (run start before) guest ∧
      (codec.Returns (Announcement.ofSession (run start before)).toValue →
        codec.Returns (Announcement.ofSession guest).toValue →
        ∃ ours theirs,
          codec.carry Announcement.ofValue? (Announcement.ofSession (run start before)).toValue =
            some ours ∧
          codec.carry Announcement.ofValue? (Announcement.ofSession guest).toValue = some theirs ∧
          ∀ host joined, theirs.applyTo (run start before) = (host, .ok true) →
            ours.applyTo guest = (joined, .ok true) → config.padding ≠ .zeros →
            Relays host joined ∧ Relays joined host)) ∧
      ∀ (announcement : Announcement) (session : Session), announcement.roomId ≠ session.roomId →
        ∃ text, announcement.applyTo session = (session, .error (.data text)) := by
  refine ⟨?_, fun _ _ => applyTo_elsewhere⟩
  obtain ⟨settings, shared, _⟩ := run_created created before
  obtain ⟨large, made⟩ := ofPrime_eq_ok.mp group
  have modulus : 1 < parameters.prime := by
    rw [made]
    exact Nat.lt_trans (by decide) large
  have valid : (Config.withTags cores config.algorithm config.mode config.padding).validate =
      .ok () :=
    validate_eq_ok.mpr ⟨Nat.succ_ne_zero _, Nat.ne_of_gt machine, Nat.succ_ne_zero _⟩
  have yields : Yields parameters.prime draws := by
    rw [made]
    exact yields
  obtain ⟨pair, left, recreated⟩ :=
    create_yields valid modulus yields (run start before).roomId guestId
  have joins := join_ofSession (shared ▸ group) cores guestId draws
  rw [settings, shared, recreated] at joins
  have narrow : wireVersion ≤ Wire.Value.maxByte := by decide
  refine ⟨_, _, left, carry_invitation narrow invited, joins, rfl, ?_, ?_⟩
  · have algorithm : config.algorithm = (run start before).config.algorithm := by rw [settings]
    have mode : config.mode = (run start before).config.mode := by rw [settings]
    have padding : config.padding = (run start before).config.padding := by rw [settings]
    exact ⟨rfl, algorithm, mode, padding, shared.symm, rfl⟩
  · intro announced answered
    refine ⟨_, _, carry_announcement announced, carry_announcement answered, ?_⟩
    intro host joined accepts offered marked
    exact relays_of_announcements created recreated rfl rfl rfl usual accepts offered marked

/-! ### A small room -/

/-- A number, or a text in quotes. -/
def writeScalar : Wire.Value → List Char
  | .text text => '"' :: (text.toList ++ ['"'])
  | .natural n => Nat.toDigits 10 n
  | _ => []

def readScalar : List Char → Wire.Value
  | '"' :: rest => .text (String.ofList rest.dropLast)
  | digits => .natural (digits.foldl (fun n digit => n * 10 + (digit.toNat - '0'.toNat)) 0)

def writeField (field : String × Wire.Value) : List Char :=
  writeScalar (.text field.1) ++ ':' :: writeScalar field.2

def readField (text : List Char) : Option (String × Wire.Value) :=
  match text.splitOn ':' with
  | [name, value] => (readScalar name).text?.map (·, readScalar value)
  | _ => none

/-- JSON for records of numbers and of texts without marks of any kind, which need no escapes. -/
def plainJson : Codec where
  write
    | .object fields =>
      String.ofList ('{' :: ([','].intercalate (fields.map writeField) ++ ['}']))
    | value => String.ofList (writeScalar value)
  read text := do
    let fields ← ((text.toList.drop 1).dropLast.splitOn ',').mapM readField
    return .object fields

example : plainJson.write (Announcement.mk "room" "bob" "10").toValue =
    "\x7b\"room_id\":\"room\",\"client_id\":\"bob\",\"public_key\":\"10\"\x7d" := by
  decide

/-- The member who has made a room of the usual generator. -/
def alice : Session :=
  .fresh "room" "alice" Config.sequential ⟨23, 2⟩ ⟨6, powMod 2 6 23⟩

/-- The member who was invited, on a machine of four cores. -/
def bob : Session :=
  .fresh "room" "bob" (Config.standard 4) ⟨23, 2⟩ ⟨15, powMod 2 15 23⟩

theorem invitation_alice :
    Invitation.ofSession alice = ⟨1, "room", "rc5", "CBC", "PKCS7", "17"⟩ := by
  decide +kernel

theorem announcement_alice : Announcement.ofSession alice = ⟨"room", "alice", "12"⟩ := by
  decide +kernel

theorem announcement_bob : Announcement.ofSession bob = ⟨"room", "bob", "10"⟩ := by
  decide +kernel

/-- They get to know each other through three texts. -/
theorem rooms_interoperate_small :
    ∃ invitation ours theirs rest left host joined,
      Session.create "room" "alice" Config.sequential ⟨23, 2⟩ ⟨fun _ => 6, 0, 1⟩ =
        .ok (alice, rest) ∧
      plainJson.carry Invitation.ofValue? (Invitation.ofSession alice).toValue =
        some invitation ∧
      invitation.join 4 "bob" ⟨fun _ => 15, 0, 1⟩ = .ok (bob, left) ∧
      plainJson.carry Announcement.ofValue? (Announcement.ofSession alice).toValue = some ours ∧
      plainJson.carry Announcement.ofValue? (Announcement.ofSession bob).toValue = some theirs ∧
      theirs.applyTo alice = (host, .ok true) ∧ ours.applyTo bob = (joined, .ok true) ∧
      Relays host joined ∧ Relays joined host := by
  have created : Session.create "room" "alice" Config.sequential ⟨23, 2⟩ ⟨fun _ => 6, 0, 1⟩ =
      .ok (alice, _) := rfl
  have group : Parameters.ofPrime 23 = .ok alice.parameters := rfl
  have yields : Yields 23 ⟨fun _ => 15, 0, 1⟩ := ⟨0, by decide, 15, by decide +kernel⟩
  have invited : plainJson.Returns (Invitation.ofSession alice).toValue := by
    rw [invitation_alice]
    exact ⟨_, _, rfl, .refl _, rfl⟩
  have announced : plainJson.Returns (Announcement.ofSession alice).toValue := by
    rw [announcement_alice]
    exact ⟨_, _, rfl, .refl _, rfl⟩
  have answered : plainJson.Returns (Announcement.ofSession bob).toValue := by
    rw [announcement_bob]
    exact ⟨_, _, rfl, .refl _, rfl⟩
  obtain ⟨⟨invitation, guest, left, carried, joins, _, _, exchange⟩, _⟩ :=
    rooms_interoperate group rfl created [] invited (by decide : 0 < 4) yields "bob"
  cases carried.symm.trans (carry_invitation (by decide) invited)
  have recreated : Session.create "room" "bob" (Config.standard 4) ⟨23, 2⟩ ⟨fun _ => 15, 0, 1⟩ =
      .ok (bob, _) := rfl
  cases joins.symm.trans ((join_ofSession group 4 "bob" _).trans recreated)
  obtain ⟨ours, theirs, alice_writes, bob_writes, understood⟩ := exchange announced answered
  cases alice_writes.symm.trans (carry_announcement announced)
  cases bob_writes.symm.trans (carry_announcement answered)
  have accepts : (Announcement.ofSession bob).applyTo alice = (_, .ok true) :=
    Prod.ext rfl (by rw [announcement_bob]; decide +kernel)
  have offered : (Announcement.ofSession alice).applyTo bob = (_, .ok true) :=
    Prod.ext rfl (by rw [announcement_alice]; decide +kernel)
  exact ⟨_, _, _, _, _, _, _, created, carried, joins, alice_writes, bob_writes, accepts, offered,
    understood _ _ accepts offered (by decide)⟩

end RoomCipher.RoomTransport
