import RoomCipher.Cipher.Loki97
import RoomCipher.Cipher.Magenta
import RoomCipher.Cipher.Rc5

/-! The block ciphers of this library behind one type, each answering for itself. -/

namespace RoomCipher

inductive Builtin where
  | loki97 (cipher : Loki97)
  | rc5 (cipher : Rc5)
  | magenta (cipher : Magenta)
  deriving DecidableEq

namespace Builtin

/-- The cipher of an algorithm with its usual parameters and without a key. -/
def ofAlgorithm : Algorithm → Builtin
  | .loki97 => .loki97 Loki97.new
  | .rc5 => .rc5 Rc5.standard
  | .magenta => .magenta Magenta.standard

def algorithm : Builtin → Algorithm
  | .loki97 cipher => BlockCipher.algorithm cipher
  | .rc5 cipher => BlockCipher.algorithm cipher
  | .magenta cipher => BlockCipher.algorithm cipher

def blockSize : Builtin → Nat
  | .loki97 cipher => BlockCipher.blockSize cipher
  | .rc5 cipher => BlockCipher.blockSize cipher
  | .magenta cipher => BlockCipher.blockSize cipher

def isKeyed : Builtin → Bool
  | .loki97 cipher => BlockCipher.isKeyed cipher
  | .rc5 cipher => BlockCipher.isKeyed cipher
  | .magenta cipher => BlockCipher.isKeyed cipher

def setKey : Builtin → Bytes → Builtin × Except Error Unit
  | .loki97 cipher, key => (BlockCipher.setKey cipher key).map .loki97 id
  | .rc5 cipher, key => (BlockCipher.setKey cipher key).map .rc5 id
  | .magenta cipher, key => (BlockCipher.setKey cipher key).map .magenta id

def encryptBlock : Builtin → Bytes → Except Error Bytes
  | .loki97 cipher, block => BlockCipher.encryptBlock cipher block
  | .rc5 cipher, block => BlockCipher.encryptBlock cipher block
  | .magenta cipher, block => BlockCipher.encryptBlock cipher block

def decryptBlock : Builtin → Bytes → Except Error Bytes
  | .loki97 cipher, block => BlockCipher.decryptBlock cipher block
  | .rc5 cipher, block => BlockCipher.decryptBlock cipher block
  | .magenta cipher, block => BlockCipher.decryptBlock cipher block

instance : BlockCipher Builtin where
  algorithm := algorithm
  blockSize := blockSize
  isKeyed := isKeyed
  setKey := setKey
  encryptBlock := encryptBlock
  decryptBlock := decryptBlock

end Builtin

end RoomCipher
