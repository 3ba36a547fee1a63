import RoomCipher.Proofs.RosterLaws
import RoomCipher.Proofs.SessionRuns
import RoomCipher.Session.Registry

/-! Rooms over time. Sessions are shared: those in a registry are used, put back and
closed by whoever holds them. Whatever happens to them, a room has the session that was
put there last, and the registry closes a session in two cases only: a new one is made
for its room, or its room is removed. -/
namespace RoomCipher.RegistryRuns
open RosterLaws SessionRuns

/-- A registry, with all the sessions there have been, whether it knows them or not. -/
structure World where
  registry : Registry
  pool : Pool

def World.empty : World := ⟨.empty, .empty⟩

/-- Everything that is asked of a registry, and what happens to sessions without it. -/
inductive Call where
  | createRoom (roomId clientId : String) (config : Config) (parameters : Exchange.Parameters)
    (source : Entropy)
  | insert (id : SessionId)
  | get (roomId : String)
  | remove (roomId : String)
  | size
  | roomIds
  /-- Makes a session without registering it. -/
  | make (roomId clientId : String) (config : Config) (parameters : Exchange.Parameters)
    (source : Entropy)
  | act (id : SessionId) (action : Action)

inductive Answer where
  | made (result : Except Error SessionId)
  | displaced (previous : Option SessionId)
  | found (session : Option SessionId)
  | removed (there : Bool)
  | size (count : Nat)
  | roomIds (names : List String)
  | acted

/-- The world after a call, and the answer. -/
def perform (world : World) : Call → World × Answer
  | .createRoom roomId clientId config parameters source =>
    let (registry, pool, result) :=
      world.registry.createRoom world.pool roomId clientId config parameters source
    (⟨registry, pool⟩, .made (result.map (·.1)))
  | .insert id =>
    let (registry, previous) := world.registry.insert world.pool id
    ({ world with registry }, .displaced previous)
  | .get roomId => (world, .found (world.registry.get? roomId))
  | .remove roomId =>
    let (registry, pool, there) := world.registry.remove world.pool roomId
    (⟨registry, pool⟩, .removed there)
  | .size => (world, .size world.registry.size)
  | .roomIds => (world, .roomIds world.registry.roomIds)
  | .make roomId clientId config parameters source =>
    match Session.create roomId clientId config parameters source with
    | .error e => (world, .made (.error e))
    | .ok (session, _) =>
      let (id, pool) := world.pool.add session
      ({ world with pool }, .made (.ok id))
  | .act id action =>
    ({ world with pool := world.pool.modify id (SessionRuns.perform · action) }, .acted)

def run (world : World) (calls : List Call) : World :=
  calls.foldl (fun world call => (perform world call).1) world

/-! ### What happened to the rooms -/

/-- What happens to a room: a session is put there, or whichever is there is taken out. -/
inductive Change where
  | put (roomId : String) (id : SessionId)
  | taken (roomId : String)

def Change.roomId : Change → String
  | put roomId _ => roomId
  | taken roomId => roomId

/-- The change that a call makes, as its caller sees it. -/
def change (world : World) (call : Call) : Option Change :=
  match call, (perform world call).2 with
  | .createRoom roomId .., .made (.ok id) => some (.put roomId id)
  | .insert id, _ => (world.pool.get? id).map fun session => .put session.roomId id
  | .remove roomId, _ => some (.taken roomId)
  | _, _ => none

/-- The changes that a run makes, in order. -/
def changes : World → List Call → List Change
  | _, [] => []
  | world, call :: rest => (change world call).toList ++ changes (perform world call).1 rest

/-- The session was the last to be put in the room, and nothing has happened to the room since. -/
def Standing (changes : List Change) (roomId : String) (id : SessionId) : Prop :=
  ∃ earlier later, changes = earlier ++ .put roomId id :: later ∧
    ∀ change ∈ later, change.roomId ≠ roomId

variable {id : SessionId}

theorem standing_nil : ¬Standing [] roomId id := by
  rintro ⟨earlier, later, whole, _⟩
  cases List.append_eq_nil_iff.mp whole.symm |>.2

theorem standing_concat (changes : List Change) (last : Change) :
    Standing (changes ++ [last]) roomId id ↔
      last = .put roomId id ∨ (last.roomId ≠ roomId ∧ Standing changes roomId id) := by
  constructor
  · rintro ⟨earlier, later, whole, other⟩
    rcases List.eq_nil_or_concat later with rfl | ⟨front, final, rfl⟩
    · left
      exact List.singleton_inj.mp (List.append_inj_right' whole rfl)
    · rw [List.concat_eq_append, ← List.cons_append, ← List.append_assoc] at whole
      obtain ⟨begun, same⟩ := List.append_inj' whole rfl
      cases List.singleton_inj.mp same
      rw [List.concat_eq_append] at other
      right
      exact ⟨other last (by simp), earlier, front, begun,
        fun change member => other change (List.mem_append_left _ member)⟩
  · rintro (rfl | ⟨different, earlier, later, rfl, other⟩)
    · exact ⟨changes, [], rfl, by simp⟩
    · refine ⟨earlier, later ++ [last], by simp, fun change member => ?_⟩
      rcases List.mem_append.mp member with before | new
      · exact other change before
      · cases List.mem_singleton.mp new
        exact different

/-- The rooms after a change. -/
def Change.apply (rooms : Roster SessionId) : Change → Roster SessionId
  | put roomId id => rooms.put roomId id
  | taken roomId => rooms.erase roomId

theorem get?_apply (rooms : Roster SessionId) (change : Change) :
    (change.apply rooms).get? roomId = some id ↔
      change = .put roomId id ∨ (change.roomId ≠ roomId ∧ rooms.get? roomId = some id) := by
  cases change with
  | put room new =>
    rw [Change.apply, get?_put, Change.roomId]
    by_cases same : roomId = room
    · simp [same]
    · simp [same, Ne.symm same]
  | taken room =>
    rw [Change.apply, get?_erase, Change.roomId]
    by_cases same : roomId = room
    · simp [same]
    · simp [same, Ne.symm same]

/-! ### What happens to the sessions -/

/-- What closing leaves of a session: who it is and how many contexts it has made, and nothing that
it has gathered. -/
structure Ended (before after : Session) : Prop where
  member : SameMember before after
  counted : after.made = before.made
  closed : after.state = .closed
  forgotten : after.held = none
  alone : after.peers = []

/-- The sessions are as they were, apart from one that may have been closed. New ones may have
come. -/
def Closes (closing : Option SessionId) (before after : Pool) : Prop :=
  ∀ id session, before.get? id = some session → ∃ later, after.get? id = some later ∧
    (closing = some id → Ended session later) ∧ (closing ≠ some id → later = session)

theorem close_ended (session : Session) : Ended session session.close where
  member := rfl
  counted := rfl
  closed := rfl
  forgotten := rfl
  alone := names_empty

theorem Ended.eq_close {before after : Session} (ended : Ended before after) :
    after = before.close := by
  have nobody : after.peerKeys = Roster.empty := eq_empty ended.alone
  have member := ended.member
  rw [SameMember, ended.counted, ended.closed, ended.forgotten, nobody] at member
  exact member

theorem get?_modify (pool : Pool) (changed id : SessionId) (change : Session → Session) :
    (pool.modify changed change).get? id =
      (pool.get? id).map fun session => if changed = id then change session else session :=
  List.getElem?_modify ..

theorem get?_add (pool : Pool) (session : Session) :
    (pool.add session).2.get? (pool.add session).1 = some session :=
  List.getElem?_concat_length

theorem add_new (pool : Pool) (session : Session) : pool.get? (pool.add session).1 = none :=
  List.getElem?_eq_none (Nat.le_refl _)

theorem get?_add_held {pool : Pool} (new : Session) (held : pool.get? id = some session) :
    (pool.add new).2.get? id = some session := by
  have inside : id < pool.sessions.length := (List.getElem?_eq_some_iff.mp held).1
  exact (List.getElem?_append_left inside).trans held

theorem get?_close {pool : Pool} (closing : SessionId) (held : pool.get? id = some session) :
    (pool.close closing).get? id = some (if closing = id then session.close else session) := by
  rw [Pool.close, get?_modify, held, Option.map_some]

theorem add_keeps (pool : Pool) (session : Session) : Closes none pool (pool.add session).2 := by
  intro id held found
  exact ⟨held, get?_add_held session found,
    fun closing => absurd closing (Option.some_ne_none id).symm, fun _ => rfl⟩

theorem close_closes (pool : Pool) (id : SessionId) : Closes (some id) pool (pool.close id) := by
  intro other session found
  refine ⟨_, get?_close id found, fun closing => ?_, fun different => ?_⟩
  · rw [if_pos (Option.some.inj closing)]
    exact close_ended session
  · rw [if_neg fun same => different (congrArg some same)]

theorem closes_trans (kept : Closes none before between) (closed : Closes closing between after) :
    Closes closing before after := by
  intro id session found
  obtain ⟨same, there, _, unclosed⟩ := kept id session found
  rw [unclosed (Option.some_ne_none id).symm] at there
  exact closed id session there

/-- Everything that a call can do, with what it answers and the change it makes to the rooms. -/
inductive Step (world : World) : Call → World → Answer → Option Change → Prop
  /-- The session for a room cannot be made, and nothing happens. -/
  | refused (e : Error)
    (unmade : Session.create roomId clientId config parameters source = .error e) :
    Step world (.createRoom roomId clientId config parameters source) world (.made (.error e)) none
  /-- A session is new and waits; it gets the room, and the one that had it is closed. -/
  | created (id : SessionId) (keyPair : Exchange.KeyPair) (rest : Entropy) (pool : Pool)
    (made : Session.create roomId clientId config parameters source =
      .ok (.fresh roomId clientId config parameters keyPair, rest))
    (new : world.pool.get? id = none)
    (waits : pool.get? id = some (.fresh roomId clientId config parameters keyPair))
    (closes : Closes (world.registry.get? roomId) world.pool pool) :
    Step world (.createRoom roomId clientId config parameters source)
      ⟨⟨world.registry.rooms.put roomId id⟩, pool⟩ (.made (.ok id)) (some (.put roomId id))
  /-- A session gets its room, and the one that had it is handed out as it is. -/
  | inserted (id : SessionId) (session : Session) (held : world.pool.get? id = some session) :
    Step world (.insert id) ⟨⟨world.registry.rooms.put session.roomId id⟩, world.pool⟩
      (.displaced (world.registry.get? session.roomId)) (some (.put session.roomId id))
  /-- There is no session of this number, and nothing happens. -/
  | unknown (id : SessionId) (absent : world.pool.get? id = none) :
    Step world (.insert id) world (.displaced none) none
  | found : Step world (.get roomId) world (.found (world.registry.get? roomId)) none
  /-- The session of a room is taken out and closed. -/
  | removed (id : SessionId) (held : world.registry.get? roomId = some id) (pool : Pool)
    (closes : Closes (some id) world.pool pool) :
    Step world (.remove roomId) ⟨⟨world.registry.rooms.erase roomId⟩, pool⟩ (.removed true)
      (some (.taken roomId))
  | absent (nobody : world.registry.get? roomId = none) :
    Step world (.remove roomId) world (.removed false) (some (.taken roomId))
  | size : Step world .size world (.size world.registry.size) none
  | roomIds : Step world .roomIds world (.roomIds world.registry.roomIds) none
  | unmade (e : Error)
    (unmade : Session.create roomId clientId config parameters source = .error e) :
    Step world (.make roomId clientId config parameters source) world (.made (.error e)) none
  /-- A session that is made without the registry changes nothing in it. -/
  | made (id : SessionId) (keyPair : Exchange.KeyPair) (rest : Entropy) (pool : Pool)
    (made : Session.create roomId clientId config parameters source =
      .ok (.fresh roomId clientId config parameters keyPair, rest))
    (new : world.pool.get? id = none)
    (waits : pool.get? id = some (.fresh roomId clientId config parameters keyPair))
    (keeps : Closes none world.pool pool) :
    Step world (.make roomId clientId config parameters source) { world with pool }
      (.made (.ok id)) none
  /-- Whatever is done to a session is done to this one, registered or not, and to no other. -/
  | acted (id : SessionId) (action : Action) (pool : Pool)
    (acts : ∀ other, pool.get? other = (world.pool.get? other).map fun session =>
      if id = other then SessionRuns.perform session action else session) :
    Step world (.act id action) { world with pool } .acted none

theorem insert_held {registry : Registry} {pool : Pool} (held : pool.get? id = some session) :
    registry.insert pool id =
      (⟨registry.rooms.put session.roomId id⟩, registry.get? session.roomId) := by
  rw [Registry.insert, held]

/-- Every session in the registry is there under its own room. -/
def Owned (world : World) : Prop :=
  ∀ roomId id, world.registry.get? roomId = some id →
    ∃ session, world.pool.get? id = some session ∧ session.roomId = roomId

theorem createRoom_step {world : World} (owned : Owned world) (roomId clientId : String)
    (config : Config) (parameters : Exchange.Parameters) (source : Entropy) :
    Step world (.createRoom roomId clientId config parameters source)
      (perform world (.createRoom roomId clientId config parameters source)).1
      (perform world (.createRoom roomId clientId config parameters source)).2
      (change world (.createRoom roomId clientId config parameters source)) := by
  simp only [change, perform, Registry.createRoom]
  cases attempt : Session.create roomId clientId config parameters source with
  | error e => exact .refused e attempt
  | ok made =>
    obtain ⟨session, rest⟩ := made
    obtain ⟨_, _, keyPair, _, rfl⟩ := create_made attempt
    have there := get?_add world.pool (.fresh roomId clientId config parameters keyPair)
    have kept := add_keeps world.pool (.fresh roomId clientId config parameters keyPair)
    have new := add_new world.pool (.fresh roomId clientId config parameters keyPair)
    simp only [insert_held there, Session.fresh_roomId]
    cases previous : world.registry.get? roomId with
    | none =>
      refine .created _ keyPair rest _ attempt new there ?_
      rw [previous]
      exact kept
    | some displaced =>
      -- The new session has a number that no registered one has, so it is not the one closed.
      obtain ⟨_, held, _⟩ := owned roomId displaced previous
      have other : displaced ≠ _ := fun same => by
        rw [same, new] at held
        cases held
      refine .created _ keyPair rest _ attempt new ?_ ?_
      · rw [get?_close displaced there, if_neg other]
      · rw [previous]
        exact closes_trans kept (close_closes _ displaced)

theorem perform_step {world : World} (owned : Owned world) (call : Call) :
    Step world call (perform world call).1 (perform world call).2 (change world call) := by
  cases call with
  | createRoom roomId clientId config parameters source =>
    exact createRoom_step owned roomId clientId config parameters source
  | insert id =>
    cases held : world.pool.get? id with
    | none =>
      simp only [change, perform, Registry.insert, held]
      exact .unknown id held
    | some session =>
      simp only [change, perform, insert_held held, held]
      exact .inserted id session held
  | get roomId => exact .found
  | remove roomId =>
    simp only [change, perform, Registry.remove]
    cases held : world.registry.get? roomId with
    | none => exact .absent held
    | some id => exact .removed id held _ (close_closes world.pool id)
  | size => exact .size
  | roomIds => exact .roomIds
  | make roomId clientId config parameters source =>
    simp only [change, perform]
    cases attempt : Session.create roomId clientId config parameters source with
    | error e => exact .unmade e attempt
    | ok made =>
      obtain ⟨session, rest⟩ := made
      obtain ⟨_, _, keyPair, _, rfl⟩ := create_made attempt
      exact .made _ keyPair rest _ attempt (add_new _ _) (get?_add _ _) (add_keeps _ _)
  | act id action => exact .acted id action _ (get?_modify world.pool id · _)

/-! ### Runs -/

theorem Closes.keeps (closes : Closes closing before after) (held : before.get? id = some session) :
    ∃ later, after.get? id = some later ∧ later.roomId = session.roomId := by
  obtain ⟨later, there, closed, unclosed⟩ := closes id session held
  refine ⟨later, there, ?_⟩
  by_cases closing : closing = some id
  · exact (closed closing).member.roomId_eq
  · rw [unclosed closing]

/-- No session is lost by a call, and none changes its room. -/
theorem step_keeps (step : Step world call next answer made)
    (held : world.pool.get? id = some session) :
    ∃ later, next.pool.get? id = some later ∧ later.roomId = session.roomId := by
  cases step with
  | refused | inserted | unknown | found | absent | size | roomIds | unmade =>
    exact ⟨session, held, rfl⟩
  | created _ _ _ _ _ _ _ closes => exact closes.keeps held
  | removed _ _ _ closes => exact closes.keeps held
  | made _ _ _ _ _ _ _ keeps => exact keeps.keeps held
  | acted changed action pool acts =>
    refine ⟨_, (acts id).trans (congrArg _ held), ?_⟩
    dsimp only
    split
    · exact SameMember.roomId_eq (run_member session [action])
    · rfl

/-- The rooms after a call are those before it, with the change made. -/
theorem step_rooms (step : Step world call next answer made) :
    next.registry.rooms =
      made.elim world.registry.rooms (Change.apply world.registry.rooms) := by
  cases step with
  | absent nobody => exact (erase_absent nobody).symm
  | refused | created | inserted | unknown | found | removed | size | roomIds | unmade | made
  | acted => rfl

/-- A session that is put somewhere is put in its own room. -/
theorem step_put (step : Step world call next answer (some (.put roomId id))) :
    ∃ session, next.pool.get? id = some session ∧ session.roomId = roomId := by
  cases step with
  | created _ _ _ _ _ _ waits _ => exact ⟨_, waits, rfl⟩
  | inserted _ session held => exact ⟨session, held, rfl⟩

/-- The registry goes with what has happened to the rooms so far. -/
structure Orderly (changes : List Change) (world : World) : Prop where
  owned : Owned world
  latest : ∀ roomId id, world.registry.get? roomId = some id ↔ Standing changes roomId id

theorem empty_orderly : Orderly [] World.empty where
  owned _ _ found := nomatch found
  latest _ _ := iff_of_false (fun found => nomatch found) standing_nil

theorem step_orderly (start : Orderly before world) (step : Step world call next answer made) :
    Orderly (before ++ made.toList) next := by
  have rooms := step_rooms step
  have stays {roomId : String} {id : SessionId}
      (registered : world.registry.get? roomId = some id) :
      ∃ session, next.pool.get? id = some session ∧ session.roomId = roomId := by
    obtain ⟨session, held, named⟩ := start.owned roomId id registered
    obtain ⟨later, there, kept⟩ := step_keeps step held
    exact ⟨later, there, kept.trans named⟩
  cases made with
  | none =>
    have same : next.registry = world.registry := congrArg Registry.mk rooms
    rw [Option.toList_none, List.append_nil]
    exact ⟨fun _ _ found => stays (same ▸ found), same ▸ start.latest⟩
  | some last =>
    have found (roomId : String) (id : SessionId) : next.registry.get? roomId = some id ↔
        last = .put roomId id ∨
          (last.roomId ≠ roomId ∧ world.registry.get? roomId = some id) := by
      rw [Registry.get?, rooms]
      exact get?_apply world.registry.rooms last
    refine ⟨fun roomId id registered => ?_, fun roomId id => ?_⟩
    · rcases (found roomId id).mp registered with rfl | ⟨_, before⟩
      · exact step_put step
      · exact stays before
    · rw [found, Option.toList_some, standing_concat, start.latest]

theorem run_orderly (start : Orderly before world) (calls : List Call) :
    Orderly (before ++ changes world calls) (run world calls) := by
  induction calls generalizing world before with
  | nil =>
    rw [changes, List.append_nil]
    exact start
  | cons call rest ih =>
    rw [changes, ← List.append_assoc]
    exact ih (step_orderly start (perform_step start.owned call))

/-- What a registry says of its rooms: each once, in order, and as many as it counts. -/
structure Listed (registry : Registry) : Prop where
  ascending : registry.roomIds.Pairwise (· < ·)
  distinct : registry.roomIds.Nodup
  counted : registry.roomIds.length = registry.size
  named : ∀ roomId, roomId ∈ registry.roomIds ↔ ∃ id, registry.get? roomId = some id

theorem registry_listed (registry : Registry) : Listed registry where
  ascending := names_ascending registry.rooms
  distinct := names_distinct registry.rooms
  counted := length_names registry.rooms
  named := mem_names registry.rooms

/-- Whatever is asked of a registry and done to sessions, and in whatever order: the registry has
every session under its own room, and for each room the one that was put there last if the room was
not removed since; it lists its rooms in order; and the next call does to it and to the sessions what
is said of a single step. -/
theorem rooms_of_run (calls : List Call) :
    let world := run World.empty calls
    Owned world ∧
      (∀ roomId id, world.registry.get? roomId = some id ↔
        Standing (changes World.empty calls) roomId id) ∧
      Listed world.registry ∧
      ∀ call, Step world call (perform world call).1 (perform world call).2 (change world call) := by
  have orderly : Orderly (changes World.empty calls) (run World.empty calls) :=
    run_orderly empty_orderly calls
  exact ⟨orderly.owned, orderly.latest, registry_listed _, perform_step orderly.owned⟩

/-- A room that is made twice, and another one that is made and removed. -/
def visits : List Call :=
  [.createRoom "general" "alice" Config.sequential ⟨23, 5⟩ ⟨fun _ => 6, 0, 1⟩,
    .createRoom "general" "alice" Config.sequential ⟨23, 5⟩ ⟨fun _ => 7, 0, 1⟩,
    .createRoom "random" "alice" Config.sequential ⟨23, 5⟩ ⟨fun _ => 8, 0, 1⟩, .remove "random"]

/-- The second session of the one room stays; the first and that of the other room are closed. -/
theorem rooms_of_run_visits :
    (run .empty visits).registry.get? "general" = some 1 ∧
    (run .empty visits).registry.roomIds = ["general"] ∧
    ((run .empty visits).pool.sessions.map (·.state)) = [.closed, .awaitingPeerKey, .closed] := by
  obtain ⟨_, latest, listed, _⟩ := rooms_of_run visits
  have history : changes .empty visits =
      [.put "general" 0, .put "general" 1, .put "random" 2, .taken "random"] := rfl
  rw [history] at latest
  have general : (run .empty visits).registry.get? "general" = some 1 := by
    refine (latest "general" 1).mpr ⟨[.put "general" 0], _, rfl, ?_⟩
    simp [Change.roomId]
  have alone : (run .empty visits).registry.roomIds.length = 1 := listed.counted
  obtain ⟨roomId, only⟩ := List.length_eq_one_iff.mp alone
  have member := (listed.named "general").mpr ⟨1, general⟩
  rw [only, List.mem_singleton] at member
  refine ⟨general, ?_, rfl⟩
  rw [only, member]

end RoomCipher.RegistryRuns
