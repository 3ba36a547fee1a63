import RoomCipher.Proofs.SessionEstablishment

/-! Offers that are refused. A key is turned down if it cannot be read, belongs to another room,
is out of range, or leads to no context under the settings, and after closing in any case; there
are no other reasons. A refusal leaves the session as it was, so refused offers can be left out
of a run: everything else in it comes to the same. -/
namespace RoomCipher.RefusedOffers
open Exchange DerivedContexts SessionEstablishment SessionRuns

/-! ### What an action gives back -/

inductive Outcome where
  | offered (answer : Except Error Bool)
  | encrypted (result : Except Error (Bytes × Entropy))
  | decrypted (result : Except Error Bytes)
  | closed

def outcome (session : Session) : Action → Outcome
  | .accept peer key => .offered (session.accept peer key).2
  | .acceptHex peer key => .offered (session.acceptHex peer key).2
  | .apply announcement => .offered (announcement.applyTo session).2
  | .encrypt plaintext source => .encrypted (session.encrypt plaintext source)
  | .decrypt ciphertext => .decrypted (session.decrypt ciphertext)
  | .close => .closed

/-- What the actions of a run give back, in order. -/
def outcomes : Session → List Action → List Outcome
  | _, [] => []
  | session, action :: rest => outcome session action :: outcomes (perform session action) rest

theorem outcomes_append (session : Session) (front back : List Action) :
    outcomes session (front ++ back) =
      outcomes session front ++ outcomes (run session front) back := by
  induction front generalizing session with
  | nil => rfl
  | cons action front ih =>
    rw [List.cons_append, outcomes, outcomes, ih, List.cons_append]
    rfl

/-! ### Offers and their answers -/

/-- The number that an action offers to a session, and the name under which it does. -/
inductive Offers (session : Session) : Action → String → Nat → Prop
  | plain (peer : String) (key : Nat) : Offers session (.accept peer key) peer key
  | written (peer text : String) (key : Nat) (read : Hex.toNat text = .ok key) :
    Offers session (.acceptHex peer text) peer key
  | announced (announcement : Announcement) (key : Nat)
    (here : announcement.roomId = session.roomId)
    (read : Hex.toNat announcement.publicKey = .ok key) :
    Offers session (.apply announcement) announcement.clientId key

/-- An offer that does not get as far as a number. Which room it is for is looked at first. -/
inductive Unread (session : Session) : Action → Error → Prop
  | written (peer text : String) (fault : String)
    (unread : Hex.toNat text = .error (.exchange (.encoding fault))) :
    Unread session (.acceptHex peer text) (.exchange (.encoding fault))
  | announced (announcement : Announcement) (fault : String)
    (here : announcement.roomId = session.roomId)
    (unread : Hex.toNat announcement.publicKey = .error (.exchange (.encoding fault))) :
    Unread session (.apply announcement) (.exchange (.encoding fault))
  | elsewhere (announcement : Announcement) (other : announcement.roomId ≠ session.roomId) :
    Unread session (.apply announcement) (.data
      s!"public key for room {announcement.roomId} offered to room {session.roomId}")

variable {session : Session} {action : Action}

theorem Offers.accepted (offers : Offers session action peer key) :
    outcome session action = .offered (session.accept peer key).2 ∧
      perform session action = (session.accept peer key).1 := by
  have written {peer text : String} {key : Nat} (read : Hex.toNat text = .ok key) :
      session.acceptHex peer text = session.accept peer key := by
    unfold Session.acceptHex
    rw [read]
  cases offers with
  | plain => exact ⟨rfl, rfl⟩
  | written _ text _ read =>
    simp [outcome, perform, written read]
  | announced announcement _ here read =>
    simp [outcome, perform, Announcement.applyTo, here, written read]

theorem Unread.refused (unread : Unread session action e) :
    outcome session action = .offered (.error e) ∧ perform session action = session := by
  have written {peer text : String} {e : Error} (unread : Hex.toNat text = .error e) :
      session.acceptHex peer text = (session, .error e) := by
    unfold Session.acceptHex
    rw [unread]
  cases unread with
  | written peer text fault unread =>
    simp [outcome, perform, written unread]
  | announced announcement fault here unread =>
    simp [outcome, perform, Announcement.applyTo, here, written unread]
  | elsewhere announcement other =>
    simp [outcome, perform, Announcement.applyTo, other]

/-- A text is a number, or there is a fault in how it is written. -/
theorem toNat_answers (text : String) :
    (∃ n, Hex.toNat text = .ok n) ∨
      ∃ fault, Hex.toNat text = .error (.exchange (.encoding fault)) := by
  unfold Hex.toNat
  split
  · exact .inr ⟨_, rfl⟩
  · split
    · exact .inl ⟨_, rfl⟩
    · exact .inr ⟨_, rfl⟩

/-- What is answered as an offer is one, or does not get that far. -/
theorem offers_or_unread (offered : outcome session action = .offered answer) :
    (∃ peer key, Offers session action peer key) ∨ ∃ e, Unread session action e := by
  cases action with
  | accept peer key => exact .inl ⟨peer, key, .plain peer key⟩
  | acceptHex peer text =>
    rcases toNat_answers text with ⟨key, read⟩ | ⟨fault, unread⟩
    · exact .inl ⟨peer, key, .written peer text key read⟩
    · exact .inr ⟨_, .written peer text fault unread⟩
  | apply announcement =>
    by_cases here : announcement.roomId = session.roomId
    · rcases toNat_answers announcement.publicKey with ⟨key, read⟩ | ⟨fault, unread⟩
      · exact .inl ⟨_, key, .announced announcement key here read⟩
      · exact .inr ⟨_, .announced announcement fault here unread⟩
    · exact .inr ⟨_, .elsewhere announcement here⟩
  | encrypt plaintext source => cases offered
  | decrypt ciphertext => cases offered
  | close => cases offered

/-! ### Reasons -/

/-- Why an offer is refused. Only a session that waits has a closer look at the number. -/
inductive Refusal (session : Session) (action : Action) : Error → Prop
  | unread (e : Error) (unread : Unread session action e) : Refusal session action e
  | closed (peer : String) (key : Nat) (offers : Offers session action peer key)
    (foreign : peer ≠ session.clientId) (closed : session.state = .closed) :
    Refusal session action (Session.wrongState .awaitingPeerKey .closed)
  | range (peer : String) (key : Nat) (offers : Offers session action peer key)
    (foreign : peer ≠ session.clientId) (waiting : session.state = .awaitingPeerKey)
    (outside : ¬(1 < key ∧ key < session.parameters.prime - 1)) :
    Refusal session action (.exchange .publicKey)
  | settings (peer : String) (key : Nat) (offers : Offers session action peer key)
    (foreign : peer ≠ session.clientId) (waiting : session.state = .awaitingPeerKey)
    (inside : 1 < key ∧ key < session.parameters.prime - 1)
    (unusual : session.config.blockSize ≠ defaultBlockSize) :
    Refusal session action (.config (complaint session.config.blockSize))

/-- Settings and parameters as they are after the checks under which sessions are made. -/
structure Checked (session : Session) : Prop where
  valid : session.config.validate = .ok ()
  modulus : 1 < session.parameters.prime

/-- What is wrong with a number that leads to no context: its range, or else the settings. -/
theorem deriveContext_eq_error (checked : Checked session)
    (waiting : session.state = .awaitingPeerKey) :
    session.deriveContext key = .error e ↔
      (¬(1 < key ∧ key < session.parameters.prime - 1) ∧ e = .exchange .publicKey) ∨
        ((1 < key ∧ key < session.parameters.prime - 1) ∧
          session.config.blockSize ≠ defaultBlockSize ∧
          e = .config (complaint session.config.blockSize)) := by
  by_cases inside : 1 < key ∧ key < session.parameters.prime - 1
  · by_cases usual : session.config.blockSize = defaultBlockSize
    · obtain ⟨keys, context, cut, made⟩ := ofConfig_made checked.valid usual
        (key ^ session.keyPair.privateKey % session.parameters.prime)
      have derived : session.deriveContext key = .ok context := by
        rw [deriveContext_raised checked.modulus inside.1 inside.2, cut]
        exact made
      simp [derived, inside, usual]
    · have waits : session.isEstablished = false := by
        rw [Session.isEstablished, waiting]
        rfl
      have misfit : Misfit session := ⟨checked.valid, checked.modulus, usual, waits⟩
      simp [misfit.deriveContext_eq inside.1 inside.2, inside, usual, eq_comm]
  · simp [deriveContext_refused checked.modulus inside, inside, eq_comm]

/-- An offer is refused for these reasons and for no others; none of them is that the session gave
up half-way. -/
theorem refused_iff (checked : Checked session) :
    outcome session action = .offered (.error e) ↔ Refusal session action e := by
  constructor
  · intro refused
    rcases offers_or_unread refused with ⟨peer, key, offers⟩ | ⟨fault, unread⟩
    · obtain ⟨next, answer, result, reply⟩ := accept_reply session peer key
      have answered := offers.accepted.1
      rw [refused, result] at answered
      cases answered
      cases reply with
      | late foreign closed => exact .closed peer key offers foreign closed
      | refused _ foreign waiting reason =>
        rcases (deriveContext_eq_error checked waiting).mp reason with
          ⟨outside, rfl⟩ | ⟨inside, unusual, rfl⟩
        · exact .range peer key offers foreign waiting outside
        · exact .settings peer key offers foreign waiting inside unusual
    · have answered := unread.refused.1
      rw [refused] at answered
      cases answered
      exact .unread e unread
  · intro refusal
    cases refusal with
    | unread _ unread => exact unread.refused.1
    | closed peer key offers foreign closed =>
      rw [offers.accepted.1, Session.accept, if_neg foreign, if_pos closed]
    | range peer key offers foreign waiting outside =>
      have reason := (deriveContext_eq_error checked waiting).mpr (.inl ⟨outside, rfl⟩)
      rw [offers.accepted.1, accept_waiting waiting foreign, reason]
    | settings peer key offers foreign waiting inside unusual =>
      have reason := (deriveContext_eq_error checked waiting).mpr (.inr ⟨inside, unusual, rfl⟩)
      rw [offers.accepted.1, accept_waiting waiting foreign, reason]

/-! ### Sessions after a refusal -/

theorem refused_unchanged (refused : outcome session action = .offered (.error e)) :
    perform session action = session := by
  rcases offers_or_unread refused with ⟨peer, key, offers⟩ | ⟨fault, unread⟩
  · obtain ⟨answered, performed⟩ := offers.accepted
    obtain ⟨next, answer, result, reply⟩ := accept_reply session peer key
    rw [refused, result] at answered
    cases answered
    rw [performed, result]
    cases reply <;> rfl
  · exact unread.refused.2

/-- What a session was checked for when it was made holds for good. -/
theorem run_checked {start : Session} {config : Config}
    (created : Session.create roomId clientId config parameters source = .ok (start, rest))
    (actions : List Action) : Checked (run start actions) := by
  obtain ⟨valid, modulus, pair, _, made⟩ := create_made created
  have same := run_member start actions
  rw [SameMember] at same
  rw [same, made]
  exact ⟨valid, modulus⟩

/-- An offer that is refused, at whatever point of a session's life, is refused for one of the
reasons above and leaves the session as it was. Whatever is done after it, the run with the offer
and the run without it end in the same session, and give back the same but for the refusal. -/
theorem refusal_leaves_no_trace {start : Session} {config : Config}
    (created : Session.create roomId clientId config parameters source = .ok (start, rest))
    (before : List Action) (refused : outcome (run start before) action = .offered (.error e)) :
    Refusal (run start before) action e ∧ perform (run start before) action = run start before ∧
      ∀ later, run start (before ++ action :: later) = run start (before ++ later) ∧
        ∃ answers,
          outcomes start (before ++ later) = outcomes start before ++ answers ∧
          outcomes start (before ++ action :: later) =
            outcomes start before ++ .offered (.error e) :: answers := by
  have unchanged := refused_unchanged refused
  refine ⟨(refused_iff (run_checked created before)).mp refused, unchanged, ?_⟩
  intro later
  -- What comes later starts from the same session either way.
  refine ⟨?_, outcomes (run start before) later, outcomes_append start before later, ?_⟩
  · rw [run_append, run_append]
    change run (perform (run start before) action) later = _
    rw [unchanged]
  · rw [outcomes_append, outcomes, refused, unchanged]

/-- An announcement that cannot be read, between a key out of range and one that will do. -/
theorem refusal_leaves_no_trace_unread :
    Session.create "room" "alice" Config.sequential ⟨23, 5⟩ ⟨fun _ => 6, 0, 1⟩ =
        .ok (newcomer, ⟨fun _ => 6, 1, 1⟩) ∧
      outcome (run newcomer [.accept "bob" 22]) (.apply ⟨"room", "bob", "9"⟩) =
        .offered (.error (.exchange (.encoding "Odd number of digits"))) ∧
      run newcomer [.accept "bob" 22, .apply ⟨"room", "bob", "9"⟩, .accept "bob" 9] =
        run newcomer [.accept "bob" 22, .accept "bob" 9] ∧
      (run newcomer [.accept "bob" 22, .accept "bob" 9]).isEstablished = true := by
  have unread : Unread (run newcomer [.accept "bob" 22]) (.apply ⟨"room", "bob", "9"⟩)
      (.exchange (.encoding "Odd number of digits")) := .announced _ _ rfl rfl
  have refused := unread.refused.1
  obtain ⟨_, _, onward⟩ := refusal_leaves_no_trace create_newcomer [.accept "bob" 22] refused
  exact ⟨create_newcomer, refused, (onward [.accept "bob" 9]).1, by decide +kernel⟩

end RoomCipher.RefusedOffers
