import RoomCipher.Context
import RoomCipher.Exchange.KeyPair
import RoomCipher.Exchange.SessionKeys
import RoomCipher.Roster
import RoomCipher.Session.State
import RoomCipher.Text.Quoted

/-! One participant's side of a room. A session has a key pair of its own and waits
for the public keys of others; the first acceptable one establishes it, which fixes
the cipher context for good. Keys that come later are only noted, a session's own
key is ignored, and a closed session forgets everybody. -/

namespace RoomCipher

/-- A context in the hands of the session that has made it, with the number that tells it from
every other one of that session, however alike they are. -/
structure HeldContext where
  number : Nat
  context : Context Builtin

/-- A participant's side of a room. -/
structure Session where
  roomId : String
  clientId : String
  config : Config
  parameters : Exchange.Parameters
  keyPair : Exchange.KeyPair
  state : SessionState
  /-- The public keys that have come in, by the names of their owners. -/
  peerKeys : Roster Nat
  held : Option HeldContext
  /-- How many contexts the session has made; the next one gets this number. -/
  made : Nat

namespace Session

/-- A session that nothing has come in for yet. -/
def fresh (roomId clientId : String) (config : Config) (parameters : Exchange.Parameters)
    (keyPair : Exchange.KeyPair) : Session where
  roomId := roomId
  clientId := clientId
  config := config
  parameters := parameters
  keyPair := keyPair
  state := .awaitingPeerKey
  peerKeys := Roster.empty
  held := none
  made := 0

@[simp] theorem fresh_roomId (roomId clientId : String) (config : Config)
    (parameters : Exchange.Parameters) (keyPair : Exchange.KeyPair) :
    (fresh roomId clientId config parameters keyPair).roomId = roomId := rfl

/-- A new session with a key pair of its own. Settings that no context could work with are refused
before anything is drawn. -/
def create (roomId clientId : String) (config : Config) (parameters : Exchange.Parameters)
    (source : Entropy) : Except Error (Session × Entropy) := do
  config.validate
  let (keyPair, source) ← Exchange.KeyPair.generate parameters source
  return (fresh roomId clientId config parameters keyPair, source)

def isEstablished (session : Session) : Bool := session.state == .established

def publicKey (session : Session) : Nat := session.keyPair.publicKey

def publicKeyHex (session : Session) : String := session.keyPair.publicKeyHex

/-- The peers whose keys have come in, in order. -/
def peers (session : Session) : List String := session.peerKeys.names

/-- The failure of an operation that needs the session in another state. -/
def wrongState (expected actual : SessionState) : Error :=
  .state expected.name actual.name

/-- The context that a peer's key leads to. -/
def deriveContext (session : Session) (key : Nat) : Except Error (Context Builtin) := do
  let secret ← session.keyPair.sharedSecret key session.parameters
  let keys ← Exchange.SessionKeys.deriveFor secret session.config.blockSize
  Context.ofConfig keys.key keys.iv session.config

/-- Notes a peer's key, in place of an earlier one of the same peer. -/
def note (session : Session) (peer : String) (key : Nat) : Session :=
  { session with peerKeys := session.peerKeys.put peer key }

/-- Takes up a context that has just been made. -/
def establish (session : Session) (context : Context Builtin) : Session :=
  { session with
    held := some ⟨session.made, context⟩
    made := session.made + 1
    state := session.state.establish }

/-- Offers a peer's public key: the session after it, and whether this key established it. Nothing
is noted before everything that can fail is done. -/
def accept (session : Session) (peer : String) (key : Nat) : Session × Except Error Bool :=
  if peer = session.clientId then (session, .ok false)
  else if session.state = .closed then (session, .error (wrongState .awaitingPeerKey .closed))
  else if session.state.acceptsPeerKey then
    match session.deriveContext key with
    | .error e => (session, .error e)
    | .ok context => ((session.note peer key).establish context, .ok true)
  else (session.note peer key, .ok false)

/-- Offers a peer's public key as hex text. -/
def acceptHex (session : Session) (peer key : String) : Session × Except Error Bool :=
  match Hex.toNat key with
  | .error e => (session, .error e)
  | .ok key => session.accept peer key

/-- The context itself, which only an established session hands out. -/
def sharedContext (session : Session) : Except Error HeldContext :=
  match session.held, session.state.transfersData with
  | some held, true => .ok held
  | _, _ => .error (wrongState .established session.state)

/-- What the context of the session does. -/
def context (session : Session) : Except Error (Context Builtin) :=
  session.sharedContext.map (·.context)

def encrypt (session : Session) (plaintext : Bytes) (source : Entropy) :
    Except Error (Bytes × Entropy) := do
  (← session.context).encrypt plaintext source

def decrypt (session : Session) (ciphertext : Bytes) : Except Error Bytes := do
  (← session.context).decrypt ciphertext

/-- Ends the session; its context and its peers are forgotten. -/
def close (session : Session) : Session :=
  { session with held := none, peerKeys := Roster.empty, state := session.state.close }

/-- The session on one line, without its keys. -/
def summary (session : Session) : String :=
  Text.record "RoomSession"
    [("room_id", Text.quoted session.roomId), ("client_id", Text.quoted session.clientId),
      ("config", session.config.summary), ("state", session.state.name)]
    true

end Session

end RoomCipher
