import RoomCipher.Error

/-! How a result is come by. What is done in steps succeeds exactly if every step
does, so a result can be taken apart into those of the steps. -/
namespace RoomCipher.Outcomes

variable {ε α β : Type} {outcome : Except ε α} {result : β}

theorem bind_eq_ok {next : α → Except ε β} :
    (outcome >>= next) = .ok result ↔ ∃ a, outcome = .ok a ∧ next a = .ok result := by
  cases outcome <;> simp [bind, Except.bind]

theorem map_eq_ok {f : α → β} :
    outcome.map f = .ok result ↔ ∃ a, outcome = .ok a ∧ f a = result := by
  cases outcome <;> simp [Except.map]

/-- What is known of a result holds of it wherever it is read off. -/
theorem ok_getD {P : α → Prop} (known : ∃ a, outcome = .ok a ∧ P a) (otherwise : α) :
    outcome = .ok (outcome.toOption.getD otherwise) ∧ P (outcome.toOption.getD otherwise) := by
  obtain ⟨a, rfl, holds⟩ := known
  exact ⟨rfl, holds⟩

end RoomCipher.Outcomes
