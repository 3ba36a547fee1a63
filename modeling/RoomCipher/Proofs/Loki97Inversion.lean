import RoomCipher.Cipher.Loki97
import RoomCipher.Proofs.ByteLaws
import RoomCipher.Proofs.CipherPermutation

/-! The inverse rounds of LOKI97 take back its rounds. The round function is never
inverted: a round only adds to one half and mixes the other one with what that half
says, and both can be taken away again. The halves change places in between. -/
namespace RoomCipher.Loki97Inversion
open Loki97 ByteLaws CipherPermutation

theorem unround_round (halves : UInt64 × UInt64) (key : UInt64 × UInt64 × UInt64) :
    unround key (round halves key).swap = halves.swap := by
  obtain ⟨left, right⟩ := halves
  obtain ⟨k1, k2, k3⟩ := key
  simp only [unround, Loki97.round, Prod.swap_prod_mk, UInt64.add_sub_cancel, xor_twice]

theorem round_unround (key : UInt64 × UInt64 × UInt64) (halves : UInt64 × UInt64) :
    round (unround key halves).swap key = halves.swap := by
  obtain ⟨left, right⟩ := halves
  obtain ⟨k1, k2, k3⟩ := key
  simp only [unround, Loki97.round, Prod.swap_prod_mk, UInt64.sub_add_cancel, xor_twice]

theorem ofBytes_toBytes (half : UInt64) : ofBytes (toBytes half) = half := by
  rw [ofBytes, toBytes, value_eq_littleEndian, Bytes.ofBigEndian, List.reverse_reverse,
    word_ofLittleEndian]

theorem toBytes_ofBytes (bytes : Bytes) (width : bytes.length = 8) :
    toBytes (ofBytes bytes) = bytes := by
  rw [ofBytes, toBytes, value_eq_littleEndian, Bytes.ofBigEndian,
    ofLittleEndian_word bytes.reverse (by simpa using width), List.reverse_reverse]

/-- The halves of a block. It holds the second one first, so that a block just put together is cut
apart with its halves swapped. -/
def layout : Layout (UInt64 × UInt64) blockBytes where
  split := split
  join halves := join halves.swap
  Fits _ := True
  split_fits _ _ := trivial
  length_join halves := by simp [join, toBytes, blockBytes]
  split_join := by
    rintro ⟨left, right⟩ -
    have width : (toBytes left).length = 8 := by simp [toBytes]
    simp only [split, join, Prod.swap_prod_mk, ← width, List.take_left, List.drop_left,
      ofBytes_toBytes]
  join_split := by
    intro block full
    obtain ⟨front, back⟩ := length_take_drop (m := 8) (n := 8) full
    simp only [join, split, Prod.swap_prod_mk, toBytes_ofBytes _ front, toBytes_ofBytes _ back,
      List.take_append_drop]

/-- Under any schedule at all LOKI97 permutes the blocks of 16 bytes. -/
theorem permutes {cipher : Loki97} {schedule : List UInt64}
    (keyed : cipher.subkeys = some schedule) : Permutes cipher blockBytes := by
  have encrypts (block : Bytes) (full : block.length = blockBytes) : encryptBlock cipher block =
      .ok (layout.join ((roundKeys schedule).foldl round (layout.split block)).swap) := by
    simp only [encryptBlock, onBlock, keyed, full, ↓reduceIte]
    rfl
  have decrypts (block : Bytes) (full : block.length = blockBytes) : decryptBlock cipher block =
      .ok (layout.join ((roundKeys schedule).foldr unround (layout.split block)).swap) := by
    simp only [decryptBlock, onBlock, keyed, full, ↓reduceIte]
    rfl
  refine layout.permutes (fun halves => ((roundKeys schedule).foldl round halves).swap)
    (fun halves => ((roundKeys schedule).foldr unround halves).swap) encrypts decrypts
    (fun _ _ => trivial) (fun _ _ => trivial) ?_ ?_
  · intro halves _
    rw [foldr_undo_foldl (fun _ => True) Prod.swap (fun _ _ _ => trivial)
      (fun state key _ => unround_round state key) _ _ trivial, Prod.swap_swap]
  · intro halves _
    rw [foldl_step_foldr (fun _ => True) Prod.swap (fun _ _ _ => trivial)
      (fun key state _ => round_unround key state) _ _ trivial, Prod.swap_swap]

/-- A key that is taken leaves a schedule behind. -/
theorem setKey_keyed {cipher keyed : Loki97} (taken : setKey cipher key = (keyed, .ok ())) :
    ∃ schedule, keyed.subkeys = some schedule := by
  simp only [setKey] at taken
  split at taken
  · cases taken
    exact ⟨_, rfl⟩
  · cases taken

/-- Every key of 16 bytes is taken, whatever key was set before, and under it LOKI97 permutes the
blocks of 16 bytes. -/
theorem setKey_permutes (cipher : Loki97) (full : key.length = 16) :
    ∃ keyed, setKey cipher key = (keyed, .ok ()) ∧ Permutes keyed 16 := by
  have taken : setKey cipher key =
      (⟨some (expandKey (split key).1 (split key).2)⟩, .ok ()) := if_pos full
  obtain ⟨schedule, keyed⟩ := setKey_keyed taken
  exact ⟨_, taken, permutes keyed⟩

/-- A key that takes the place of another one. -/
theorem setKey_permutes_again :
    ∃ keyed, setKey (setKey new (List.replicate 16 7)).1 (List.replicate 16 0) = (keyed, .ok ()) ∧
      Permutes keyed 16 :=
  setKey_permutes (setKey new (List.replicate 16 7)).1 List.length_replicate

end RoomCipher.Loki97Inversion
