import Mathlib.Analysis.Complex.Exponential
import Mathlib.NumberTheory.Real.GoldenRatio
import RoomCipher.Bytes.Basic

/-! RC5-w/r/b on machine words of `w` bits. Sums are taken modulo `2 ^ w` and words are
turned whole, so there is nothing to mask. The key is packed into words, little-endian,
the table starts out as an arithmetic progression, both are mixed for three passes over
the longer one, and a block goes through `r` rounds in which either word turns the other.
First term and difference of the progression are the odd numbers nearest to the
fractions of e and of the golden ratio. -/
namespace RoomCipher.Rc5Reference

/-! ### The two constants -/

/-- The odd number nearest to a real one. -/
noncomputable def nearestOdd (x : ℝ) : ℤ := 2 * ⌊x / 2⌋ + 1

/-- The fraction of e, in units of the last of `w` binary places. -/
noncomputable def eulerWord (w : Nat) : BitVec w :=
  BitVec.ofInt w (nearestOdd ((Real.exp 1 - 2) * 2 ^ w))

/-- The fraction of the golden ratio, in units of the last of `w` binary places. -/
noncomputable def goldenWord (w : Nat) : BitVec w :=
  BitVec.ofInt w (nearestOdd ((Real.goldenRatio - 1) * 2 ^ w))

/-! ### The schedule -/

/-- How many words a key takes up. -/
def keyWordCount (w : Nat) (key : Bytes) : Nat := max 1 ((8 * key.length + (w - 1)) / w)

/-- Word number `j` of a key. The last word of the key is filled up with zeros. -/
def keyWord (w : Nat) (key : Bytes) (j : Nat) : BitVec w :=
  BitVec.ofNat w (Bytes.littleEndian ((key.drop (j * (w / 8))).take (w / 8)))

variable {w : Nat}

/-- Word number `i` of the table before the key is mixed in. -/
def tableWord (p q : BitVec w) : Nat → BitVec w
  | 0 => p
  | i + 1 => tableWord p q i + q

/-- The table and the words of the key while they are mixed. -/
structure Mixing (w : Nat) where
  table : Nat → BitVec w
  key : Nat → BitVec w
  a : BitVec w
  b : BitVec w
  i : Nat
  j : Nat

/-- One step of mixing a table of `t` words with a key of `c` words. -/
def Mixing.step (t c : Nat) (m : Mixing w) : Mixing w :=
  let a := (m.table m.i + m.a + m.b).rotateLeft 3
  let b := (m.key m.j + a + m.b).rotateLeft (a + m.b).toNat
  { table := Function.update m.table m.i a
    key := Function.update m.key m.j b
    a := a
    b := b
    i := (m.i + 1) % t
    j := (m.j + 1) % c }

/-- The table of a key for `r` rounds, of which the first `2 * (r + 1)` words count. -/
def schedule (p q : BitVec w) (r : Nat) (key : Bytes) : Nat → BitVec w :=
  let t := 2 * (r + 1)
  let c := keyWordCount w key
  let start : Mixing w := ⟨tableWord p q, keyWord w key, 0, 0, 0, 0⟩
  (Nat.repeat (Mixing.step t c) (3 * max t c) start).table

/-! ### Blocks -/

/-- The two words of a block after so many rounds. -/
def afterRounds (s : Nat → BitVec w) (words : BitVec w × BitVec w) : Nat → BitVec w × BitVec w
  | 0 => (words.1 + s 0, words.2 + s 1)
  | i + 1 =>
    let (a, b) := afterRounds s words i
    let a := (a ^^^ b).rotateLeft b.toNat + s (2 * (i + 1))
    let b := (b ^^^ a).rotateLeft a.toNat + s (2 * (i + 1) + 1)
    (a, b)

/-- A block under a key, in `r` rounds. -/
def encrypt (p q : BitVec w) (r : Nat) (key block : Bytes) : Bytes :=
  let u := w / 8
  let front := BitVec.ofNat w (Bytes.littleEndian (block.take u))
  let back := BitVec.ofNat w (Bytes.littleEndian (block.drop u))
  let (a, b) := afterRounds (schedule p q r key) (front, back) r
  Bytes.ofLittleEndian u a.toNat ++ Bytes.ofLittleEndian u b.toNat

end RoomCipher.Rc5Reference
