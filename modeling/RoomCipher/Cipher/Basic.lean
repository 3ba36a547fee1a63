import RoomCipher.Bytes.Basic
import RoomCipher.Tag

/-! What the modes of operation ask of a block cipher: two functions on single
blocks under a key that is set once and may be replaced. Any of them may refuse;
the modes are defined for every such cipher, well-behaved or not. -/

namespace RoomCipher

class BlockCipher (C : Type) where
  algorithm : C → Algorithm
  blockSize : C → Nat
  /-- Whether a key has been set. -/
  isKeyed : C → Bool
  /-- The cipher after it was offered a key, and whether it took it. -/
  setKey : C → Bytes → C × Except Error Unit
  encryptBlock : C → Bytes → Except Error Bytes
  decryptBlock : C → Bytes → Except Error Bytes

namespace BlockCipher

/-- The cipher after a run of offered keys, whatever became of each. -/
def setKeys {C : Type} [BlockCipher C] (cipher : C) (keys : List Bytes) : C :=
  keys.foldl (fun cipher key => (setKey cipher key).1) cipher

end BlockCipher

end RoomCipher
