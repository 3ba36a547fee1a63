import RoomCipher.Proofs.DerivedContexts
import RoomCipher.Proofs.SessionRuns

/-! Which of many keys establishes a session. A session takes keys one at a time, so
however several parties that hand it keys get in each other's way, it sees a list of
offers. The first usable one establishes it, and nothing else in the list has any
bearing on its context: what comes before is refused, what comes after is too late,
and keys under its own name are passed over. -/
namespace RoomCipher.FirstKey
open Exchange DerivedContexts SessionRuns

/-- A key and the name that it comes under. -/
abbrev Offer := String × Nat

/-- An offer that a waiting session has been waiting for: it comes from somebody else, and its key
is in range. -/
def Usable (ownId : String) (prime : Nat) (offer : Offer) : Prop :=
  offer.1 ≠ ownId ∧ 1 < offer.2 ∧ offer.2 < prime - 1

/-- An offer that is usable when none before it was. -/
def Wins (ownId : String) (prime : Nat) (earlier : List Offer) (offer : Offer) : Prop :=
  Usable ownId prime offer ∧ ∀ other ∈ earlier, ¬Usable ownId prime other

/-- The session after offers, whatever the answers were. -/
def offered (session : Session) (offers : List Offer) : Session :=
  run session (offers.map fun offer => .accept offer.1 offer.2)

/-- The answer to an offer that comes after others. -/
def answerAfter (session : Session) (earlier : List Offer) (offer : Offer) : Except Error Bool :=
  ((offered session earlier).accept offer.1 offer.2).2

/-- A session that still waits, with all that a context takes besides a key. -/
structure Fresh (session : Session) : Prop where
  waiting : session.state = .awaitingPeerKey
  valid : session.config.validate = .ok ()
  usual : session.config.blockSize = defaultBlockSize
  modulus : 1 < session.parameters.prime

variable {session : Session}

/-! ### One offer -/

theorem accept_own (session : Session) (key : Nat) :
    session.accept session.clientId key = (session, .ok false) := by
  rw [Session.accept, if_pos rfl]

theorem accept_late (established : session.context = .ok context) (peer : String) (key : Nat) :
    (session.accept peer key).2 = .ok false := by
  obtain ⟨held, shared, _⟩ := context_eq_ok.mp established
  have state := (sharedContext_eq_ok.mp shared).2
  obtain ⟨next, answer, result, reply⟩ := accept_reply session peer key
  rw [result]
  cases reply with
  | own | noted => rfl
  | late foreign closed => cases state.symm.trans closed
  | refused e foreign waiting reason => cases state.symm.trans waiting
  | joined context foreign waiting derived => cases state.symm.trans waiting

theorem accept_refused (fresh : Fresh session) (foreign : peer ≠ session.clientId)
    (outside : ¬(1 < key ∧ key < session.parameters.prime - 1)) :
    session.accept peer key = (session, .error (.exchange .publicKey)) := by
  rw [accept_waiting fresh.waiting foreign, deriveContext_refused fresh.modulus outside]

theorem accept_usable (fresh : Fresh session)
    (usable : Usable session.clientId session.parameters.prime (peer, key)) :
    ∃ keys context, SessionKeys.deriveFor
        (key ^ session.keyPair.privateKey % session.parameters.prime) session.config.blockSize =
          .ok keys ∧
      Context.ofConfig keys.key keys.iv session.config = .ok context ∧
      session.accept peer key = ((session.note peer key).establish context, .ok true) := by
  obtain ⟨foreign, above, below⟩ := usable
  obtain ⟨keys, context, cut, made⟩ := ofConfig_made fresh.valid fresh.usual
    (key ^ session.keyPair.privateKey % session.parameters.prime)
  have derived : session.deriveContext key = .ok context := by
    rw [deriveContext_raised fresh.modulus above below, cut]
    exact made
  refine ⟨keys, context, cut, made, ?_⟩
  rw [accept_waiting fresh.waiting foreign, derived]

/-- An offer that is not usable leaves a waiting session as it is. -/
theorem accept_unusable (fresh : Fresh session)
    (unusable : ¬Usable session.clientId session.parameters.prime (peer, key)) :
    (session.accept peer key).1 = session := by
  by_cases own : peer = session.clientId
  · rw [own, accept_own]
  · rw [accept_refused fresh own fun inside => unusable ⟨own, inside⟩]

/-! ### Many offers -/

theorem offered_cons (session : Session) (offer : Offer) (rest : List Offer) :
    offered session (offer :: rest) = offered (session.accept offer.1 offer.2).1 rest := rfl

theorem offered_append (session : Session) (front back : List Offer) :
    offered session (front ++ back) = offered (offered session front) back := by
  rw [offered, List.map_append, run_append]
  rfl

theorem offered_stays (established : session.context = .ok context) (offers : List Offer) :
    (offered session offers).context = .ok context := by
  refine context_stays established _ fun closing => ?_
  obtain ⟨offer, _, isClose⟩ := List.mem_map.mp closing
  cases isClose

theorem offered_unusable (fresh : Fresh session) (offers : List Offer)
    (none : ∀ offer ∈ offers, ¬Usable session.clientId session.parameters.prime offer) :
    offered session offers = session := by
  induction offers with
  | nil => rfl
  | cons offer rest ih =>
    rw [offered_cons, accept_unusable fresh (none offer (by simp))]
    exact ih fun other member => none other (by simp [member])

/-- The first usable offer of all makes the context, and the rest leave it alone. -/
theorem offered_wins (fresh : Fresh session) {earlier : List Offer} {offer : Offer}
    (wins : Wins session.clientId session.parameters.prime earlier offer) (later : List Offer) :
    answerAfter session earlier offer = .ok true ∧
      ∃ keys context, SessionKeys.deriveFor
          (offer.2 ^ session.keyPair.privateKey % session.parameters.prime)
          session.config.blockSize = .ok keys ∧
        Context.ofConfig keys.key keys.iv session.config = .ok context ∧
        (offered session (earlier ++ offer :: later)).context = .ok context := by
  obtain ⟨keys, context, cut, made, accepted⟩ := accept_usable fresh wins.1
  have still := offered_unusable fresh earlier wins.2
  refine ⟨by rw [answerAfter, still, accepted], keys, context, cut, made, ?_⟩
  rw [offered_append, still, offered_cons]
  refine offered_stays ?_ later
  rw [accepted]
  exact establish_context fresh.waiting offer.1 offer.2 context

/-- Where there are usable offers, one of them is the first. -/
theorem exists_wins {offers : List Offer} (some : ∃ offer ∈ offers, Usable ownId prime offer) :
    ∃ earlier offer later, offers = earlier ++ offer :: later ∧ Wins ownId prime earlier offer := by
  induction offers with
  | nil =>
    obtain ⟨_, member, _⟩ := some
    cases member
  | cons first rest ih =>
    by_cases usable : Usable ownId prime first
    · exact ⟨[], first, rest, rfl, usable, by simp⟩
    · obtain ⟨offer, member, good⟩ := some
      have later : offer ∈ rest := by
        refine (List.mem_cons.mp member).resolve_left ?_
        rintro rfl
        exact usable good
      obtain ⟨earlier, winner, after, rfl, wins⟩ := ih ⟨offer, later, good⟩
      refine ⟨first :: earlier, winner, after, rfl, wins.1, ?_⟩
      intro other present
      rcases List.mem_cons.mp present with rfl | present
      · exact usable
      · exact wins.2 other present

theorem answerAfter_late (fresh : Fresh session) {earlier : List Offer} (offer : Offer)
    (beaten : ∃ other ∈ earlier, Usable session.clientId session.parameters.prime other) :
    answerAfter session earlier offer = .ok false := by
  obtain ⟨before, winner, after, rfl, wins⟩ := exists_wins beaten
  obtain ⟨_, _, context, _, _, established⟩ := offered_wins fresh wins after
  exact accept_late established offer.1 offer.2

theorem answerAfter_own (session : Session) (earlier : List Offer) {offer : Offer}
    (own : offer.1 = session.clientId) : answerAfter session earlier offer = .ok false := by
  have same := run_member session (earlier.map fun offer => .accept offer.1 offer.2)
  have name : offer.1 = (offered session earlier).clientId := by
    rw [own, offered, same]
  rw [answerAfter, name, accept_own]

theorem answerAfter_refused (fresh : Fresh session) {earlier : List Offer} {offer : Offer}
    (foreign : offer.1 ≠ session.clientId)
    (none : ∀ other ∈ earlier ++ [offer],
      ¬Usable session.clientId session.parameters.prime other) :
    answerAfter session earlier offer = .error (.exchange .publicKey) := by
  have still := offered_unusable fresh earlier fun other member => none other (by simp [member])
  rw [answerAfter, still,
    accept_refused fresh foreign fun inside => none offer (by simp) ⟨foreign, inside⟩]

/-- An offer that establishes the session is the first usable one. -/
theorem wins_of_answer (fresh : Fresh session) {earlier : List Offer} {offer : Offer}
    (joins : answerAfter session earlier offer = .ok true) :
    Wins session.clientId session.parameters.prime earlier offer := by
  have foreign : offer.1 ≠ session.clientId := by
    intro own
    rw [answerAfter_own session earlier own] at joins
    cases joins
  have unbeaten : ∀ other ∈ earlier,
      ¬Usable session.clientId session.parameters.prime other := by
    intro other member usable
    rw [answerAfter_late fresh offer ⟨other, member, usable⟩] at joins
    cases joins
  by_cases usable : Usable session.clientId session.parameters.prime offer
  · exact ⟨usable, unbeaten⟩
  · have none : ∀ other ∈ earlier ++ [offer],
        ¬Usable session.clientId session.parameters.prime other := by
      intro other member
      rcases List.mem_append.mp member with before | last
      · exact unbeaten other before
      · rw [List.mem_singleton.mp last]
        exact usable
    rw [answerAfter_refused fresh foreign none] at joins
    cases joins

/-- Of the keys that are offered to a new session, in whatever order, the first usable one and no
other establishes it. Foreign keys before it are refused, later ones and the session's own make no
difference, and the context is that of the power of the one key. -/
theorem first_usable_key_wins {start : Session} {config : Config}
    (created : Session.create roomId clientId config parameters source = .ok (start, rest))
    (usual : config.blockSize = defaultBlockSize) (earlier later : List Offer) (offer : Offer) :
    (answerAfter start earlier offer = .ok true ↔
      Wins clientId parameters.prime earlier offer) ∧
    (offer.1 = clientId → answerAfter start earlier offer = .ok false) ∧
    (offer.1 ≠ clientId →
      (∀ other ∈ earlier ++ [offer], ¬Usable clientId parameters.prime other) →
        answerAfter start earlier offer = .error (.exchange .publicKey)) ∧
    ((∃ other ∈ earlier, Usable clientId parameters.prime other) →
      answerAfter start earlier offer = .ok false) ∧
    (Wins clientId parameters.prime earlier offer → ∃ keys context,
      SessionKeys.deriveFor (offer.2 ^ start.keyPair.privateKey % parameters.prime)
        config.blockSize = .ok keys ∧
      Context.ofConfig keys.key keys.iv config = .ok context ∧
      (offered start (earlier ++ offer :: later)).context = .ok context) := by
  obtain ⟨valid, modulus, pair, _, made⟩ := create_made created
  have fresh : Fresh start := by
    rw [made]
    exact ⟨rfl, valid, usual, modulus⟩
  have named : start.clientId = clientId := congrArg Session.clientId made
  have group : start.parameters = parameters := congrArg Session.parameters made
  have settings : start.config = config := congrArg Session.config made
  subst named group settings
  exact ⟨⟨wins_of_answer fresh, fun wins => (offered_wins fresh wins later).1⟩,
    answerAfter_own start earlier, answerAfter_refused fresh, answerAfter_late fresh offer,
    fun wins => (offered_wins fresh wins later).2⟩

/-- Between a useless key, one of the session's own and a later one, the key 9 wins. -/
theorem first_usable_key_wins_small :
    ∃ keys context,
      Session.create "room" "alice" Config.sequential ⟨23, 5⟩ ⟨fun _ => 6, 0, 1⟩ =
        .ok (newcomer, ⟨fun _ => 6, 1, 1⟩) ∧
      Config.sequential.blockSize = defaultBlockSize ∧
      answerAfter newcomer [("bob", 22), ("alice", 9)] ("bob", 9) = .ok true ∧
      SessionKeys.deriveFor (9 ^ newcomer.keyPair.privateKey % 23) Config.sequential.blockSize =
        .ok keys ∧
      Context.ofConfig keys.key keys.iv Config.sequential = .ok context ∧
      (offered newcomer ([("bob", 22), ("alice", 9)] ++ ("bob", 9) :: [("carol", 5)])).context =
        .ok context := by
  have wins : Wins "alice" 23 [("bob", 22), ("alice", 9)] ("bob", 9) := by
    simp [Wins, Usable]
  obtain ⟨joins, _, _, _, established⟩ := first_usable_key_wins create_newcomer rfl
    [("bob", 22), ("alice", 9)] [("carol", 5)] ("bob", 9)
  obtain ⟨keys, context, cut, made, holds⟩ := established wins
  exact ⟨keys, context, create_newcomer, rfl, joins.mpr wins, cut, made, holds⟩

end RoomCipher.FirstKey
