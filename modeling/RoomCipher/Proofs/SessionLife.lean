import RoomCipher.Proofs.RosterLaws
import RoomCipher.Proofs.SessionRuns

/-! The stages of a session's life. The state of a session, the peers it has noted and
the context it holds are written one by one and by different operations, and yet they
go together: at each stage a session holds what belongs to the stage and nothing else.
It goes through the stages in one direction. It makes a context once at most, and that
one is handed out for as long as the session is established, whatever keys come in
meanwhile. -/
namespace RoomCipher.SessionLife
open RosterLaws SessionRuns

/-- What a session has at each stage, given its own name. -/
structure Consistent (ownId : String) (session : Session) : Prop where
  named : session.clientId = ownId
  waiting : session.state = .awaitingPeerKey →
    session.held = none ∧ session.peers = [] ∧ session.made = 0
  established : session.state = .established →
    ∃ context, session.held = some ⟨0, context⟩ ∧ session.peers ≠ [] ∧ session.made = 1
  closed : session.state = .closed → session.held = none ∧ session.peers = []
  foreign : ownId ∉ session.peers
  once : session.made ≤ 1

/-! ### One action -/

theorem mem_peers_note (session : Session) (peer : String) (key : Nat) (other : String) :
    other ∈ (session.note peer key).peers ↔ other = peer ∨ other ∈ session.peers :=
  mem_names_put session.peerKeys peer other key

theorem peers_note_ne (session : Session) (peer : String) (key : Nat) :
    (session.note peer key).peers ≠ [] :=
  List.ne_nil_of_mem ((mem_peers_note session peer key peer).mpr (.inl rfl))

/-- The key of somebody else keeps a session's own name off its peers. -/
theorem Consistent.foreign_note {session : Session} (start : Consistent ownId session)
    (foreign : peer ≠ session.clientId) (key : Nat) : ownId ∉ (session.note peer key).peers := by
  rw [mem_peers_note, ← start.named]
  exact not_or.mpr ⟨Ne.symm foreign, start.named ▸ start.foreign⟩

theorem accept_consistent {session : Session} (start : Consistent ownId session) (peer : String)
    (key : Nat) : Consistent ownId (session.accept peer key).1 := by
  obtain ⟨next, answer, result, reply⟩ := accept_reply session peer key
  rw [result]
  cases reply with
  | own | late | refused => exact start
  | noted foreign established =>
    obtain ⟨context, holds, _, made⟩ := start.established established
    have state : (session.note peer key).state = .established := established
    exact {
      named := start.named
      waiting := fun waits => absurd (state.symm.trans waits) (by decide)
      established := fun _ => ⟨context, holds, peers_note_ne session peer key, made⟩
      closed := fun ended => absurd (state.symm.trans ended) (by decide)
      foreign := start.foreign_note foreign key
      once := start.once }
  | joined context foreign waiting derived =>
    obtain ⟨_, _, unmade⟩ := start.waiting waiting
    have state : ((session.note peer key).establish context).state = .established :=
      congrArg SessionState.establish waiting
    have holds : ((session.note peer key).establish context).held = some ⟨0, context⟩ :=
      congrArg (fun number => some (HeldContext.mk number context)) unmade
    have made : ((session.note peer key).establish context).made = 1 :=
      congrArg (· + 1) unmade
    exact {
      named := start.named
      waiting := fun waits => absurd (state.symm.trans waits) (by decide)
      established := fun _ => ⟨context, holds, peers_note_ne session peer key, made⟩
      closed := fun ended => absurd (state.symm.trans ended) (by decide)
      foreign := start.foreign_note foreign key
      once := Nat.le_of_eq made }

theorem close_consistent {session : Session} (start : Consistent ownId session) :
    Consistent ownId session.close := by
  have nobody : session.close.peers = [] := names_empty
  have state : session.close.state = .closed := rfl
  exact {
    named := start.named
    waiting := fun waits => absurd (state.symm.trans waits) (by decide)
    established := fun holds => absurd (state.symm.trans holds) (by decide)
    closed := fun _ => ⟨rfl, nobody⟩
    foreign := nobody ▸ List.not_mem_nil
    once := start.once }

theorem perform_consistent {session : Session} (start : Consistent ownId session)
    (action : Action) : Consistent ownId (perform session action) := by
  by_cases closing : action = .close
  · subst closing
    exact close_consistent start
  · exact perform_keeps (Consistent ownId)
      (fun _ peer key held => accept_consistent held peer key) start closing

/-- A key leaves the state as it is, or establishes a session that waits. -/
theorem accept_state (session : Session) (peer : String) (key : Nat) :
    (session.accept peer key).1.state = session.state ∨
      session.state.acceptsPeerKey ∧
        (session.accept peer key).1.state = session.state.establish := by
  obtain ⟨next, answer, result, reply⟩ := accept_reply session peer key
  rw [result]
  cases reply with
  | own | late | noted | refused => exact .inl rfl
  | joined context foreign waiting derived =>
    right
    rw [waiting]
    exact ⟨rfl, congrArg SessionState.establish waiting⟩

/-- Stages are gone through in one direction. -/
theorem perform_forward (session : Session) (action : Action) :
    session.state.rank ≤ (perform session action).state.rank := by
  by_cases closing : action = .close
  · subst closing
    change session.state.rank ≤ session.state.close.rank
    cases session.state <;> decide
  · refine perform_keeps (session.state.rank ≤ ·.state.rank) (fun next peer key later => ?_)
      (Nat.le_refl _) closing
    refine Nat.le_trans later ?_
    rcases accept_state next peer key with same | ⟨_, established⟩
    · exact Nat.le_of_eq (congrArg SessionState.rank same.symm)
    · rw [established]
      cases next.state <;> decide

/-! ### Runs -/

theorem fresh_consistent (roomId clientId : String) (config : Config)
    (parameters : Exchange.Parameters) (keyPair : Exchange.KeyPair) :
    Consistent clientId (Session.fresh roomId clientId config parameters keyPair) := by
  have nobody : (Session.fresh roomId clientId config parameters keyPair).peers = [] := names_empty
  have state : (Session.fresh roomId clientId config parameters keyPair).state =
      .awaitingPeerKey := rfl
  exact {
    named := rfl
    waiting := fun _ => ⟨rfl, nobody, rfl⟩
    established := fun holds => absurd (state.symm.trans holds) (by decide)
    closed := fun ended => absurd (state.symm.trans ended) (by decide)
    foreign := nobody ▸ List.not_mem_nil
    once := Nat.zero_le 1 }

theorem run_consistent {session : Session} (start : Consistent ownId session)
    (actions : List Action) : Consistent ownId (run session actions) :=
  List.foldlRecOn actions perform start fun _ reached action _ => perform_consistent reached action

theorem run_forward (session : Session) (actions : List Action) :
    session.state.rank ≤ (run session actions).state.rank :=
  List.foldlRecOn actions perform (Nat.le_refl _) fun reached later action _ =>
    Nat.le_trans later (perform_forward reached action)

/-- After closing there is no way back. -/
theorem run_closed (session : Session) {actions : List Action} (closing : .close ∈ actions) :
    (run session actions).state = .closed := by
  obtain ⟨front, back, rfl⟩ := List.append_of_mem closing
  have onward : SessionState.closed.rank ≤ (run (run session front).close back).state.rank :=
    run_forward (run session front).close back
  rw [run_append]
  change (run (run session front).close back).state = .closed
  cases state : (run (run session front).close back).state with
  | awaitingPeerKey | established =>
    rw [state] at onward
    exact absurd onward (by decide)
  | closed => rfl

/-- A session hands out a context exactly as long as it is established. -/
theorem Consistent.usable {session : Session} (consistent : Consistent ownId session) :
    (∃ held, session.sharedContext = .ok held) ↔ session.state = .established := by
  constructor
  · rintro ⟨held, shared⟩
    exact (sharedContext_eq_ok.mp shared).2
  · intro established
    obtain ⟨context, holds, _⟩ := consistent.established established
    exact ⟨_, sharedContext_eq_ok.mpr ⟨holds, established⟩⟩

/-- No session hands out two contexts in its life. -/
theorem sharedContext_unique {session : Session} {held later : HeldContext}
    (shared : session.sharedContext = .ok held)
    (again : (run session actions).sharedContext = .ok later) : later = held := by
  have still : Action.close ∉ actions := by
    intro closing
    cases (run_closed session closing).symm.trans (sharedContext_eq_ok.mp again).2
  cases again.symm.trans (sharedContext_stays shared actions still)
  rfl

/-- Whatever is done to a session, and in whatever order: it has what its stage calls for, it hands
out a context exactly when it is established, it never goes back to an earlier stage, and from when
it is established until it is closed it hands out the one context that it has made. -/
theorem life_of_session {start : Session}
    (created : Session.create roomId clientId config parameters source = .ok (start, rest))
    (before after : List Action) :
    Consistent clientId (run start before) ∧
      ((∃ held, (run start before).sharedContext = .ok held) ↔
        (run start before).state = .established) ∧
      ¬(run start (before ++ after)).state < (run start before).state ∧
      ∀ held, (run start before).sharedContext = .ok held → .close ∉ after →
        (run start (before ++ after)).sharedContext = .ok held := by
  obtain ⟨_, _, pair, _, rfl⟩ := create_made created
  have consistent := run_consistent
    (fresh_consistent roomId clientId config parameters pair) before
  refine ⟨consistent, consistent.usable, ?_, fun held shared still => ?_⟩
  · rw [run_append]
    exact Nat.not_lt.mpr (run_forward _ after)
  · rw [run_append]
    exact sharedContext_stays shared after still

/-- A key of one's own, one that is out of range, and one that will do. -/
def early : List Action := [.accept "alice" 9, .accept "bob" 1, .accept "bob" 9]

/-- Another key, one that cannot be read, and a message. -/
def late : List Action :=
  [.accept "carol" 5, .acceptHex "dave" "zz", .encrypt [1] ⟨fun _ => 0, 0, 0⟩]

theorem life_of_session_small :
    ∃ context,
      Session.create "room" "alice" Config.sequential ⟨23, 5⟩ ⟨fun _ => 6, 0, 1⟩ =
        .ok (newcomer, ⟨fun _ => 6, 1, 1⟩) ∧
      (run newcomer early).sharedContext = .ok ⟨0, context⟩ ∧ .close ∉ late ∧
      (run newcomer (early ++ late)).sharedContext = .ok ⟨0, context⟩ ∧
      (run newcomer (early ++ late)).made = 1 := by
  obtain ⟨consistent, _, _, kept⟩ := life_of_session create_newcomer early late
  have established : (run newcomer early).state = .established := by decide +kernel
  obtain ⟨context, holds, _, _⟩ := consistent.established established
  have shared := sharedContext_eq_ok.mpr ⟨holds, established⟩
  have still : Action.close ∉ late := by simp [late]
  have later := kept _ shared still
  have whole := (life_of_session create_newcomer (early ++ late) []).1
  obtain ⟨_, _, _, made⟩ := whole.established (sharedContext_eq_ok.mp later).2
  exact ⟨context, create_newcomer, shared, still, later, made⟩

end RoomCipher.SessionLife
