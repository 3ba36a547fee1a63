import RoomCipher.Session.Basic

/-! The rooms that a client has joined. Sessions are shared: whoever holds one sees
what others do to it. So they live in a pool, where each keeps its number for
good, and a registry says which number belongs to which room. Calls come one after
another, each with the locks it needs to itself. A lock that a crashed caller has
left behind, which would make calls fail that cannot fail otherwise, is not modelled. -/

namespace RoomCipher

/-- The number of a session in its pool. -/
abbrev SessionId := Nat

/-- All sessions there have been, in the order they were made. -/
structure Pool where
  sessions : List Session

namespace Pool

def empty : Pool := ⟨[]⟩

/-- Adds a session under the next number. -/
def add (pool : Pool) (session : Session) : SessionId × Pool :=
  (pool.sessions.length, ⟨pool.sessions ++ [session]⟩)

def get? (pool : Pool) (id : SessionId) : Option Session :=
  pool.sessions[id]?

/-- Changes one session, if there is one of that number. -/
def modify (pool : Pool) (id : SessionId) (change : Session → Session) : Pool :=
  ⟨pool.sessions.modify id change⟩

def close (pool : Pool) (id : SessionId) : Pool :=
  pool.modify id Session.close

end Pool

/-- A context taken out of a session, with the number of that session in its pool. -/
@[ext]
structure SharedContext extends HeldContext where
  owner : SessionId

namespace SharedContext

/-- The context of a session in a pool, if the session is established. -/
def of? (pool : Pool) (id : SessionId) : Option SharedContext := do
  let session ← pool.get? id
  let held ← session.sharedContext.toOption
  return { held with owner := id }

/-- Whether two contexts are one and the same, and not merely alike. -/
def same (a b : SharedContext) : Bool := a.owner == b.owner && a.number == b.number

end SharedContext

/-- The session of each room. -/
structure Registry where
  rooms : Roster SessionId

namespace Registry

def empty : Registry := ⟨Roster.empty⟩

/-- The session of a room. -/
def get? (registry : Registry) (roomId : String) : Option SessionId :=
  registry.rooms.get? roomId

/-- Puts a session under its own room, and returns the one it displaces, which stays open. -/
def insert (registry : Registry) (pool : Pool) (id : SessionId) : Registry × Option SessionId :=
  match pool.get? id with
  | none => (registry, none)
  | some session =>
    (⟨registry.rooms.put session.roomId id⟩, registry.get? session.roomId)

/-- Makes a session for a room. The session that it displaces is closed; if none can be made,
everything stays as it is. -/
def createRoom (registry : Registry) (pool : Pool) (roomId clientId : String) (config : Config)
    (parameters : Exchange.Parameters) (source : Entropy) :
    Registry × Pool × Except Error (SessionId × Entropy) :=
  match Session.create roomId clientId config parameters source with
  | .error e => (registry, pool, .error e)
  | .ok (session, source) =>
    let (id, pool) := pool.add session
    let (registry, displaced) := registry.insert pool id
    -- Only a lock left behind by a crash could make this fail, and the room has changed hands.
    let pool := match displaced with
      | some previous => pool.close previous
      | none => pool
    (registry, pool, .ok (id, source))

/-- Takes a room's session out and closes it; says whether there was one. -/
def remove (registry : Registry) (pool : Pool) (roomId : String) : Registry × Pool × Bool :=
  match registry.get? roomId with
  | none => (registry, pool, false)
  | some id => (⟨registry.rooms.erase roomId⟩, pool.close id, true)

/-- The rooms in order. -/
def roomIds (registry : Registry) : List String := registry.rooms.names

def size (registry : Registry) : Nat := registry.rooms.size

def isEmpty (registry : Registry) : Bool := registry.size == 0

end Registry

end RoomCipher
