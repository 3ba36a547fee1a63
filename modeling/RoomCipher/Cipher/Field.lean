/-! Multiplication of polynomials over the field of two elements, packed into
16-bit registers, and the two S-boxes built on it. A product is reduced by the
modulus whenever bit number `bits` comes up; where the modulus does not clear that
bit, it stays in the register and takes part in the steps that follow. -/

namespace RoomCipher

namespace Field

/-- A polynomial times x, reduced once. -/
def double (modulus : UInt16) (bits : Nat) (a : UInt16) : UInt16 :=
  let shifted := a <<< 1
  if shifted &&& (1 <<< UInt16.ofNat bits) ≠ 0 then shifted ^^^ modulus else shifted

/-- The sum of `a`, `a * x`, `a * x ^ 2`, … over the bits set among the lowest `count` of `b`. -/
def multiplyBits (modulus : UInt16) (bits : Nat) : (count : Nat) → (a b : UInt16) → UInt16
  | 0, _, _ => 0
  | count + 1, a, b =>
    (if b &&& 1 ≠ 0 then a else 0)
      ^^^ multiplyBits modulus bits count (double modulus bits a) (b >>> 1)

/-- The product of two elements; only the lowest `bits` bits of `b` count. -/
def multiply (a b modulus : UInt16) (bits : Nat) : UInt16 :=
  multiplyBits modulus bits bits a b

def cube (x modulus : UInt16) (bits : Nat) : UInt16 :=
  multiply (multiply x x modulus bits) x modulus bits

/-- The S-box over 13 bits: the low byte of the cube of the complement. -/
def s1 (x : UInt16) : UInt8 :=
  (cube (~~~x &&& 0x1FFF) 0x2911 13).toUInt8

/-- The S-box over 11 bits: the low byte of the cube of the complement. -/
def s2 (x : UInt16) : UInt8 :=
  (cube (~~~x &&& 0x07FF) 0xA7 11).toUInt8

end Field

end RoomCipher
