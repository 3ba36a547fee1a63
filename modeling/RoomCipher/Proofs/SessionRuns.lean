import RoomCipher.Proofs.Outcomes
import RoomCipher.Wire.Room

/-! Runs of a session. Whatever is done to it, a session stays who it is: its name,
its settings and its key pair are never touched, only its state and what it has
gathered change. And once it hands out a context, that context is the one it hands
out until it is closed. -/
namespace RoomCipher.SessionRuns
open Outcomes Session

/-- Everything that can be done to a session. -/
inductive Action where
  | accept (peer : String) (key : Nat)
  | acceptHex (peer key : String)
  | apply (announcement : Announcement)
  | encrypt (plaintext : Bytes) (source : Entropy)
  | decrypt (ciphertext : Bytes)
  | close

/-- The session after an action, whatever the answer was. Messages leave it as it is. -/
def perform (session : Session) : Action → Session
  | .accept peer key => (session.accept peer key).1
  | .acceptHex peer key => (session.acceptHex peer key).1
  | .apply announcement => (announcement.applyTo session).1
  | .encrypt _ _ => session
  | .decrypt _ => session
  | .close => session.close

def run (session : Session) (actions : List Action) : Session :=
  actions.foldl perform session

theorem run_append (session : Session) (front back : List Action) :
    run session (front ++ back) = run (run session front) back :=
  List.foldl_append

/-- What a new session is made of: settings and parameters that have passed their checks, and a key
pair that fits together. -/
theorem create_made {start : Session} {room name : String} {config : Config}
    {parameters : Exchange.Parameters}
    (created : create room name config parameters source = .ok (start, rest)) :
    config.validate = .ok () ∧ 1 < parameters.prime ∧ ∃ keyPair : Exchange.KeyPair,
      keyPair.publicKey =
        Exchange.powMod parameters.generator keyPair.privateKey parameters.prime ∧
      start = fresh room name config parameters keyPair := by
  simp only [create, Exchange.KeyPair.generate, Exchange.publicKey, Exchange.checkModulus,
    bind_eq_ok, Prod.exists] at created
  obtain ⟨_, valid, pair, left, ⟨secret, _, _, power, ⟨_, modulus, raised⟩, paired⟩, made⟩ := created
  split at modulus
  · cases modulus
  next large =>
    cases raised
    cases paired
    cases made
    exact ⟨valid, Nat.lt_of_not_le large, _, rfl, rfl⟩

/-- A participant of a small room with the given secret, before any key has come in. -/
def member (clientId : String) (config : Config) (secret : Nat) : Session :=
  fresh "room" clientId config ⟨23, 5⟩ ⟨secret, Exchange.powMod 5 secret 23⟩

def newcomer : Session := member "alice" Config.sequential 6

theorem create_newcomer :
    create "room" "alice" Config.sequential ⟨23, 5⟩ ⟨fun _ => 6, 0, 1⟩ =
      .ok (newcomer, ⟨fun _ => 6, 1, 1⟩) := rfl

/-- What can come of an offered key: the session after it, and the answer. -/
inductive Reply (session : Session) (peer : String) (key : Nat) :
    Session → Except Error Bool → Prop
  | own (own : peer = session.clientId) : Reply session peer key session (.ok false)
  | late (foreign : peer ≠ session.clientId) (closed : session.state = .closed) :
    Reply session peer key session (.error (wrongState .awaitingPeerKey .closed))
  | noted (foreign : peer ≠ session.clientId) (established : session.state = .established) :
    Reply session peer key (session.note peer key) (.ok false)
  | refused (e : Error) (foreign : peer ≠ session.clientId)
    (waiting : session.state = .awaitingPeerKey) (reason : session.deriveContext key = .error e) :
    Reply session peer key session (.error e)
  | joined (context : Context Builtin) (foreign : peer ≠ session.clientId)
    (waiting : session.state = .awaitingPeerKey)
    (derived : session.deriveContext key = .ok context) :
    Reply session peer key ((session.note peer key).establish context) (.ok true)

theorem accept_waiting {session : Session} (waiting : session.state = .awaitingPeerKey)
    (foreign : peer ≠ session.clientId) (key : Nat) :
    session.accept peer key =
      match session.deriveContext key with
      | .error e => (session, .error e)
      | .ok context => ((session.note peer key).establish context, .ok true) := by
  rw [accept, if_neg foreign, waiting]
  rfl

theorem accept_reply (session : Session) (peer : String) (key : Nat) :
    ∃ next answer, session.accept peer key = (next, answer) ∧
      Reply session peer key next answer := by
  refine ⟨(session.accept peer key).1, (session.accept peer key).2, rfl, ?_⟩
  by_cases own : peer = session.clientId
  · rw [accept, if_pos own]
    exact .own own
  · cases state : session.state with
    | awaitingPeerKey =>
      rw [accept_waiting state own]
      cases derived : session.deriveContext key with
      | error e => exact .refused e own state derived
      | ok context => exact .joined context own state derived
    | established =>
      rw [accept, if_neg own, state]
      exact .noted own state
    | closed =>
      rw [accept, if_neg own, state]
      exact .late own state

/-- What offered keys keep, every action but closing keeps. -/
theorem perform_keeps (kept : Session → Prop)
    (offer : ∀ session peer key, kept session → kept (session.accept peer key).1)
    {session : Session} (start : kept session) {action : Action} (still : action ≠ .close) :
    kept (perform session action) := by
  have offerHex (peer key : String) : kept (session.acceptHex peer key).1 := by
    rw [acceptHex]
    cases Hex.toNat key with
    | error e => exact start
    | ok key => exact offer session peer key start
  cases action with
  | accept peer key => exact offer session peer key start
  | acceptHex peer key => exact offerHex peer key
  | apply announcement =>
    simp only [perform, Announcement.applyTo]
    split
    · exact offerHex _ _
    · exact start
  | encrypt plaintext source => exact start
  | decrypt ciphertext => exact start
  | close => exact absurd rfl still

theorem run_keeps (kept : Session → Prop)
    (offer : ∀ session peer key, kept session → kept (session.accept peer key).1)
    {session : Session} (start : kept session) (actions : List Action)
    (still : Action.close ∉ actions) : kept (run session actions) := by
  refine List.foldlRecOn actions perform start fun session kept action member => ?_
  exact perform_keeps _ offer kept fun closing => still (closing ▸ member)

/-- Two sessions that differ at most in their state and in what they have gathered. -/
def SameMember (a b : Session) : Prop :=
  b = { a with state := b.state, peerKeys := b.peerKeys, held := b.held, made := b.made }

theorem SameMember.roomId_eq {a b : Session} (same : SameMember a b) : b.roomId = a.roomId := by
  rw [SameMember] at same
  rw [same]

theorem accept_member (session : Session) (peer : String) (key : Nat) :
    SameMember session (session.accept peer key).1 := by
  obtain ⟨next, answer, result, reply⟩ := accept_reply session peer key
  rw [result]
  cases reply <;> rfl

theorem run_member (session : Session) (actions : List Action) :
    SameMember session (run session actions) := by
  refine List.foldlRecOn actions perform rfl fun reached same action _ => ?_
  by_cases closing : action = .close
  · subst closing
    rw [SameMember] at same ⊢
    rw [same]
    rfl
  · refine perform_keeps _ (fun next peer key same => ?_) same closing
    have stays := accept_member next peer key
    rw [SameMember] at same stays ⊢
    rw [stays, same]

/-! ### The context that is handed out -/

/-- A context is handed out if it is there and the session is established. -/
theorem sharedContext_eq_ok {session : Session} {held : HeldContext} :
    session.sharedContext = .ok held ↔
      session.held = some held ∧ session.state = .established := by
  rw [sharedContext]
  cases session.held <;> cases session.state <;>
    simp [SessionState.transfersData]

theorem context_eq_ok {session : Session} {context : Context Builtin} :
    session.context = .ok context ↔
      ∃ held, session.sharedContext = .ok held ∧ held.context = context := by
  rw [Session.context]
  cases session.sharedContext <;> simp [Except.map]

/-- A context that a waiting session takes up is handed out. -/
theorem establish_context {session : Session} (waiting : session.state = .awaitingPeerKey)
    (peer : String) (key : Nat) (context : Context Builtin) :
    ((session.note peer key).establish context).context = .ok context := by
  have state : ((session.note peer key).establish context).state = .established :=
    congrArg SessionState.establish waiting
  exact context_eq_ok.mpr ⟨_, sharedContext_eq_ok.mpr ⟨rfl, state⟩, rfl⟩

/-- The first key that is accepted leads to the context. -/
theorem accept_established {session joined : Session}
    (established : session.accept peer key = (joined, .ok true)) :
    ∃ context, session.deriveContext key = .ok context ∧ joined.context = .ok context := by
  obtain ⟨next, answer, result, reply⟩ := accept_reply session peer key
  cases established.symm.trans result
  cases reply with
  | joined context foreign waiting derived =>
    exact ⟨context, derived, establish_context waiting peer key context⟩

/-- An established session hands out the same context for good. -/
theorem sharedContext_stays {session : Session} {held : HeldContext}
    (established : session.sharedContext = .ok held) (actions : List Action)
    (still : Action.close ∉ actions) : (run session actions).sharedContext = .ok held := by
  refine run_keeps (·.sharedContext = .ok held) ?_ established actions still
  intro session peer key established
  obtain ⟨next, answer, result, reply⟩ := accept_reply session peer key
  rw [result]
  cases reply with
  | own | late | refused => exact established
  | noted => exact established
  | joined context foreign waiting derived =>
    rw [sharedContext_eq_ok, waiting] at established
    cases established.2

theorem context_stays {session : Session} {context : Context Builtin}
    (established : session.context = .ok context) (actions : List Action)
    (still : Action.close ∉ actions) : (run session actions).context = .ok context := by
  obtain ⟨held, shared, same⟩ := context_eq_ok.mp established
  exact context_eq_ok.mpr ⟨held, sharedContext_stays shared actions still, same⟩

end RoomCipher.SessionRuns
