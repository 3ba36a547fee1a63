import RoomCipher.Proofs.RegistryRuns
import RoomCipher.Proofs.SessionLife

/-! Contexts in the hands of callers. A context that has been taken out of a session can
be told from every other one, whatever has happened to the registry and the sessions in
between: the numbers of its session and of the context within it decide. For sessions
stay in the pool under their numbers, go through nothing but actions of their own, and
hand out no second context. -/
namespace RoomCipher.SharedContexts
open RegistryRuns SessionLife SessionRuns

variable {id : SessionId}

/-- What closing does to the sessions, each does in its own life. -/
theorem closes_acts {before after : Pool} (closes : Closes closing before after)
    (held : before.get? id = some session) :
    ∃ actions, after.get? id = some (SessionRuns.run session actions) := by
  obtain ⟨later, there, closed, unclosed⟩ := closes id session held
  by_cases own : closing = some id
  · exact ⟨[.close], there.trans (congrArg some (closed own).eq_close)⟩
  · exact ⟨[], there.trans (congrArg some (unclosed own))⟩

/-- Whatever is called, a session that is there goes through actions of its own. -/
theorem step_acts (step : Step world call next answer made)
    (held : world.pool.get? id = some session) :
    ∃ actions, next.pool.get? id = some (SessionRuns.run session actions) := by
  cases step with
  | refused | inserted | unknown | found | absent | size | roomIds | unmade => exact ⟨[], held⟩
  | created _ _ _ _ _ _ _ closes => exact closes_acts closes held
  | removed _ _ _ closes => exact closes_acts closes held
  | made _ _ _ _ _ _ _ keeps => exact closes_acts keeps held
  | acted changed action pool acts =>
    have there := (acts id).trans (congrArg _ held)
    rw [Option.map_some] at there
    split at there
    · exact ⟨[action], there⟩
    · exact ⟨[], there⟩

theorem run_acts (start : Orderly before world) (calls : List Call)
    (held : world.pool.get? id = some session) :
    ∃ actions, (RegistryRuns.run world calls).pool.get? id =
      some (SessionRuns.run session actions) := by
  induction calls generalizing world before session with
  | nil => exact ⟨[], held⟩
  | cons call rest ih =>
    have step := perform_step start.owned call
    obtain ⟨first, reached⟩ := step_acts step held
    obtain ⟨later, whole⟩ := ih (step_orderly start step) reached
    exact ⟨first ++ later, whole.trans (congrArg some (run_append session first later).symm)⟩

/-- A context is taken out of the session of its owner. -/
theorem of?_eq_some {pool : Pool} {shared : SharedContext} :
    SharedContext.of? pool id = some shared ↔ shared.owner = id ∧
      ∃ session, pool.get? id = some session ∧
        session.sharedContext = .ok shared.toHeldContext := by
  obtain ⟨held, owner⟩ := shared
  rw [SharedContext.of?]
  cases pool.get? id with
  | none => simp
  | some session =>
    cases shared : session.sharedContext <;> simp [shared, Except.toOption, and_comm, eq_comm]

/-- A context is never confused with one that was made elsewhere or at another time. -/
theorem same_iff_eq {earlier later : SharedContext} (before after : List Call)
    (taken : SharedContext.of? (RegistryRuns.run .empty before).pool id = some earlier)
    (again : SharedContext.of? (RegistryRuns.run .empty (before ++ after)).pool other =
      some later) :
    earlier.same later = true ↔ earlier = later := by
  obtain ⟨rfl, session, held, shared⟩ := of?_eq_some.mp taken
  obtain ⟨rfl, follower, holds, reshared⟩ := of?_eq_some.mp again
  simp only [SharedContext.same, Bool.and_eq_true, beq_iff_eq]
  constructor
  · rintro ⟨owner, _⟩
    obtain ⟨actions, reached⟩ := run_acts (run_orderly empty_orderly before) after held
    rw [← owner, RegistryRuns.run, List.foldl_append] at holds
    cases holds.symm.trans reached
    have one : later.toHeldContext = earlier.toHeldContext :=
      sharedContext_unique shared reshared
    exact SharedContext.ext (congrArg HeldContext.number one.symm)
      (congrArg HeldContext.context one.symm) owner
  · rintro rfl
    exact ⟨rfl, rfl⟩

end RoomCipher.SharedContexts
