import RoomCipher.Cipher.Basic

/-! What a keyed cipher is good for: it permutes the blocks of its size, so that
either block function takes back what the other one did. A cipher made of rounds
comes by this round by round, whatever its keys, because the last round done is the
first one undone. -/
namespace RoomCipher.CipherPermutation
open BlockCipher

/-- Both block functions answer every block of `size` bytes with one, and each takes back what the
other one did. -/
structure Permutes {C : Type} [BlockCipher C] (cipher : C) (size : Nat) : Prop where
  encrypts : ∀ block, block.length = size → ∃ out,
    encryptBlock cipher block = .ok out ∧ out.length = size ∧ decryptBlock cipher out = .ok block
  decrypts : ∀ block, block.length = size → ∃ out,
    decryptBlock cipher block = .ok out ∧ out.length = size ∧ encryptBlock cipher out = .ok block

/-- A cipher that refuses every block. -/
def Mute {C : Type} [BlockCipher C] (cipher : C) : Prop :=
  ∀ block, (∃ e, encryptBlock cipher block = .error e) ∧ ∃ e, decryptBlock cipher block = .error e

/-! ### Blocks as words -/

/-- How the words that a cipher works on lie in its blocks. Only words that fit come up. -/
structure Layout (W : Type) (size : Nat) where
  split : Bytes → W
  join : W → Bytes
  Fits : W → Prop
  split_fits : ∀ block, block.length = size → Fits (split block)
  length_join : ∀ words, (join words).length = size
  split_join : ∀ words, Fits words → split (join words) = words
  join_split : ∀ block, block.length = size → join (split block) = block

/-- Block functions that work on words are as good as what they do to the words. -/
theorem Layout.permutes {C W : Type} [BlockCipher C] {cipher : C} {size : Nat}
    (layout : Layout W size) (forth back : W → W)
    (encrypts : ∀ block, block.length = size →
      encryptBlock cipher block = .ok (layout.join (forth (layout.split block))))
    (decrypts : ∀ block, block.length = size →
      decryptBlock cipher block = .ok (layout.join (back (layout.split block))))
    (forth_fits : ∀ words, layout.Fits words → layout.Fits (forth words))
    (back_fits : ∀ words, layout.Fits words → layout.Fits (back words))
    (undone : ∀ words, layout.Fits words → back (forth words) = words)
    (redone : ∀ words, layout.Fits words → forth (back words) = words) :
    Permutes cipher size := by
  constructor
  · intro block full
    have fit := layout.split_fits block full
    refine ⟨_, encrypts block full, layout.length_join _, ?_⟩
    rw [decrypts _ (layout.length_join _), layout.split_join _ (forth_fits _ fit), undone _ fit,
      layout.join_split block full]
  · intro block full
    have fit := layout.split_fits block full
    refine ⟨_, decrypts block full, layout.length_join _, ?_⟩
    rw [encrypts _ (layout.length_join _), layout.split_join _ (back_fits _ fit), redone _ fit,
      layout.join_split block full]

/-! ### Rounds -/

section Rounds

variable {S T K : Type} {step : S → K → S} {undo : K → T → T}

/-- Rounds are undone last one first. `turn` is how the halves change places in between. -/
theorem foldr_undo_foldl (valid : S → Prop) (turn : S → T)
    (kept : ∀ state key, valid state → valid (step state key))
    (undone : ∀ state key, valid state → undo key (turn (step state key)) = turn state)
    (keys : List K) (state : S) (start : valid state) :
    keys.foldr undo (turn (keys.foldl step state)) = turn state := by
  induction keys generalizing state with
  | nil => rfl
  | cons key keys ih =>
    rw [List.foldl_cons, List.foldr_cons, ih (step state key) (kept state key start),
      undone state key start]

/-- Undone rounds are done again. -/
theorem foldl_step_foldr (valid : T → Prop) (turn : T → S)
    (kept : ∀ key state, valid state → valid (undo key state))
    (redone : ∀ key state, valid state → step (turn (undo key state)) key = turn state)
    (keys : List K) (state : T) (start : valid state) :
    keys.foldl step (turn (keys.foldr undo state)) = turn state := by
  have held (keys : List K) : valid (keys.foldr undo state) :=
    List.foldrRecOn keys undo start fun state fit key _ => kept key state fit
  induction keys with
  | nil => rfl
  | cons key keys ih => rw [List.foldr_cons, List.foldl_cons, redone key _ (held keys), ih]

end Rounds

end RoomCipher.CipherPermutation
