import RoomCipher.Bytes.Basic

/-! Cutting data into pieces of one size. All pieces but the last are full; data
that is a whole number of pieces long leaves no short one. -/

namespace RoomCipher

namespace Bytes

/-- The pieces of `size` elements that `data` is made of, the last one perhaps shorter.
A size of zero cuts nothing off. -/
def pieces {α : Type} : (size : Nat) → (data : List α) → List (List α)
  | 0, _ => []
  | _ + 1, [] => []
  | size + 1, x :: xs => (x :: xs.take size) :: pieces (size + 1) (xs.drop size)
termination_by _ data => data.length
decreasing_by
  simp only [List.length_drop, List.length_cons]
  omega

end Bytes

end RoomCipher
