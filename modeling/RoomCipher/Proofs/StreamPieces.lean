import RoomCipher.Proofs.Outcomes
import RoomCipher.Stream.Incremental

/-! A message that comes in pieces: each piece is handed on as it arrives, what comes
out is collected, and then the message is ended. Whatever every piece keeps true of
the state, of what has arrived and of what has come out is still true at the end. -/
namespace RoomCipher.StreamPieces

/-- Hands the pieces on one after the other and collects what comes out, up to the first failure. -/
def feed {S : Type} (update : S → Bytes → S × Except Error Bytes) :
    S → List Bytes → Except Error (S × Bytes)
  | state, [] => .ok (state, [])
  | state, piece :: rest =>
    match update state piece with
    | (_, .error e) => .error e
    | (next, .ok out) => do
      let (last, outs) ← feed update next rest
      return (last, out ++ outs)

/-- Pieces may be handed on in two goes. -/
theorem feed_append {S : Type} (update : S → Bytes → S × Except Error Bytes)
    (front back : List Bytes) (state : S) :
    feed update state (front ++ back) = (do
      let (middle, out) ← feed update state front
      let (last, rest) ← feed update middle back
      return (last, out ++ rest)) := by
  induction front generalizing state with
  | nil =>
    cases taken : feed update state back with
    | error e => simp [feed, taken, bind, Except.bind]
    | ok result => simp [feed, taken, bind, Except.bind, pure, Except.pure]
  | cons piece front ih =>
    simp only [List.cons_append, feed]
    obtain ⟨next, result⟩ := update state piece
    cases result with
    | error e => rfl
    | ok out =>
      simp only [ih, bind_assoc, pure_bind, List.append_assoc]

/-- Pieces that are all taken keep what one of them keeps. -/
theorem feed_keeps {S : Type} {update : S → Bytes → S × Except Error Bytes}
    (kept : S → Bytes → Bytes → Prop)
    (step : ∀ state seen out piece, kept state seen out →
      ∃ next more, update state piece = (next, .ok more) ∧ kept next (seen ++ piece) (out ++ more))
    (pieces : List Bytes) (state : S) (seen out : Bytes) (start : kept state seen out) :
    ∃ last outs, feed update state pieces = .ok (last, outs) ∧
      kept last (seen ++ pieces.flatten) (out ++ outs) := by
  induction pieces generalizing state seen out with
  | nil => exact ⟨state, [], rfl, by simpa using start⟩
  | cons piece rest ih =>
    obtain ⟨next, more, taken, middle⟩ := step state seen out piece start
    obtain ⟨last, outs, later, ending⟩ := ih next _ _ middle
    refine ⟨last, more ++ outs, ?_, by simpa [List.append_assoc] using ending⟩
    simp only [feed, taken, later, bind, Except.bind, pure, Except.pure]

/-- Wherever pieces lead, they keep what one of them keeps. -/
theorem feed_stays {S : Type} {update : S → Bytes → S × Except Error Bytes} (kept : S → Prop)
    (step : ∀ state piece, kept state → kept (update state piece).1) {state last : S}
    (start : kept state) (fed : feed update state pieces = .ok (last, outs)) : kept last := by
  induction pieces generalizing state outs with
  | nil =>
    cases fed
    exact start
  | cons piece rest ih =>
    have next := step state piece start
    rw [feed] at fed
    split at fed
    · cases fed
    next taken =>
      rw [taken] at next
      obtain ⟨⟨_, _⟩, later, ending⟩ := Outcomes.bind_eq_ok.mp fed
      cases ending
      exact ih next later

variable {C : Type} [BlockCipher C]

/-- A message encrypted piece by piece. -/
def encryptPieces (context : Context C) (pieces : List Bytes) (source : Entropy) :
    Except Error (Bytes × Entropy) := do
  let (state, source) ← Encryptor.start context source
  let (state, front) ← feed Encryptor.update state pieces
  let (tail, source) ← state.finalize source
  return (front ++ tail, source)

/-- A ciphertext decrypted piece by piece. -/
def decryptPieces (context : Context C) (pieces : List Bytes) : Except Error Bytes := do
  let (state, front) ← feed Decryptor.update (Decryptor.start context) pieces
  let tail ← state.finalize
  return front ++ tail

end RoomCipher.StreamPieces
