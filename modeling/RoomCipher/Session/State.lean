/-! Where a session stands. A session waits for a peer's key, is established by the
first one that will do, and may be closed at any time; it never goes back. -/

namespace RoomCipher

inductive SessionState where
  | awaitingPeerKey
  | established
  | closed
  deriving DecidableEq

namespace SessionState

def all : List SessionState := [awaitingPeerKey, established, closed]

def name : SessionState → String
  | awaitingPeerKey => "AwaitingPeerKey"
  | established => "Established"
  | closed => "Closed"

/-- The place of a state in the order in which a session goes through them. -/
def rank : SessionState → Nat
  | awaitingPeerKey => 0
  | established => 1
  | closed => 2

instance : LT SessionState := ⟨fun a b => a.rank < b.rank⟩

instance (a b : SessionState) : Decidable (a < b) :=
  inferInstanceAs (Decidable (a.rank < b.rank))

/-- Whether a peer's key can still establish the session. -/
def acceptsPeerKey (state : SessionState) : Bool := state == awaitingPeerKey

/-- Whether messages can be encrypted and decrypted. -/
def transfersData (state : SessionState) : Bool := state == established

/-- The state after a usable key has come in: only a waiting session is established by it. -/
def establish : SessionState → SessionState
  | awaitingPeerKey => established
  | state => state

/-- The state after the session has been closed. -/
def close : SessionState → SessionState
  | _ => closed

end SessionState

end RoomCipher
