import RoomCipher.Entropy

/-! Modular powers, random numbers and primes. A number is tested by trial division
and then by Miller-Rabin rounds with random witnesses: a prime passes every round,
and a composite is found out by most witnesses. Random numbers below a bound are
drawn by rejection, so each of them is as likely as any other. -/

namespace RoomCipher

namespace Exchange

/-- `base ^ exponent` modulo `modulus`, by repeated squaring. -/
def powMod (base : Nat) : (exponent modulus : Nat) → Nat
  | 0, modulus => 1 % modulus
  | exponent + 1, modulus =>
    let rest := powMod (base * base % modulus) ((exponent + 1) / 2) modulus
    if (exponent + 1) % 2 = 1 then base * rest % modulus else rest
termination_by exponent => exponent

/-- Binary digits of a number; none of zero. -/
def bitLength (n : Nat) : Nat :=
  if n = 0 then 0 else n.log2 + 1

/-- Bytes that hold `bits` bits. -/
def byteCount (bits : Nat) : Nat :=
  (bits + 7) / 8

/-- What a draw of random bytes is worth below `bound`: its lowest bits, as many as the bound has,
if they make a number below it. -/
def below? (bound : Nat) (raw : Bytes) : Option Nat :=
  let n := Bytes.value raw % (1 <<< bitLength bound)
  if n < bound then some n else none

/-- A random number below `bound`. -/
def randomBelow (bound : Nat) (source : Entropy) : Except Error (Nat × Entropy) :=
  if bound = 0 then .error (.exchange .modulus)
  else source.search fun source =>
    let (raw, source) := source.draw (byteCount (bitLength bound))
    .ok (below? bound raw, source)

/-- The number that a draw of random bytes proposes as a prime of `bits` bits: odd, and with its
two highest bits set. -/
def candidate (bits : Nat) (raw : Bytes) : Nat :=
  Bytes.value raw % (1 <<< bits) ||| 1 <<< (bits - 1) ||| 1 <<< (bits - 2) ||| 1

/-- The primes below 256. -/
def smallPrimes : List Nat :=
  [2, 3, 5, 7, 11, 13, 17, 19, 23, 29, 31, 37, 41, 43, 47, 53, 59, 61, 67, 71, 73, 79, 83, 89,
    97, 101, 103, 107, 109, 113, 127, 131, 137, 139, 149, 151, 157, 163, 167, 173, 179, 181, 191,
    193, 197, 199, 211, 223, 227, 229, 233, 239, 241, 251]

/-- Whether a number is prime, as far as these divisors tell. -/
def trialDivision (n : Nat) : List Nat → Option Bool
  | [] => none
  | p :: ps =>
    if n = p then some true
    else if n % p = 0 then some false
    else trialDivision n ps

/-- How often a number can be halved. -/
def twos : Nat → Nat
  | 0 => 0
  | n + 1 => if (n + 1) % 2 = 0 then twos ((n + 1) / 2) + 1 else 0

/-- Whether up to `count` squarings lead from `x` to minus one, without passing one. -/
def reachesMinusOne (n : Nat) : (count : Nat) → (x : Nat) → Bool
  | 0, _ => false
  | count + 1, x =>
    let square := x * x % n
    if square = n - 1 then true
    else if square = 1 then false
    else reachesMinusOne n count square

/-- One Miller-Rabin round on an odd number with a witness. -/
def passesRound (n witness : Nat) : Bool :=
  let s := twos (n - 1)
  let x := powMod witness ((n - 1) >>> s) n
  if x = 1 ∨ x = n - 1 then true else reachesMinusOne n (s - 1) x

/-- Miller-Rabin rounds with witnesses from 2 to `n - 2`, until one is failed. -/
def passesRounds (n : Nat) : (rounds : Nat) → Entropy → Except Error (Bool × Entropy)
  | 0, source => .ok (true, source)
  | rounds + 1, source => do
    let (r, source) ← randomBelow (n - 3) source
    if passesRound n (r + 2) then passesRounds n rounds source else return (false, source)

/-- Whether a number is prime, as far as trial division and so many rounds tell. -/
def isProbablePrime (n rounds : Nat) (source : Entropy) : Except Error (Bool × Entropy) :=
  if n < 2 then .ok (false, source)
  else
    match trialDivision n smallPrimes with
    | some verdict => .ok (verdict, source)
    | none => passesRounds n rounds source

/-- Miller-Rabin rounds that a generated prime has passed. -/
def primeRounds : Nat := 20

/-- A random prime of exactly `bits` bits. -/
def generatePrime (bits : Nat) (source : Entropy) : Except Error (Nat × Entropy) :=
  if bits < 2 then .error (.exchange (.primeSize bits))
  else source.search fun source => do
    let (raw, source) := source.draw (byteCount bits)
    let n := candidate bits raw
    let (isPrime, source) ← isProbablePrime n primeRounds source
    return (if isPrime then some n else none, source)

/-- A random prime of exactly `bits` bits of which half, rounded down, is prime too. -/
def generateSafePrime (bits : Nat) (source : Entropy) : Except Error (Nat × Entropy) :=
  if bits < 3 then .error (.exchange (.primeSize bits))
  else source.search fun source => do
    let (q, source) ← generatePrime (bits - 1) source
    let p := 2 * q + 1
    if bitLength p = bits then
      let (isPrime, source) ← isProbablePrime p primeRounds source
      return (if isPrime then some p else none, source)
    else return (none, source)

end Exchange

end RoomCipher
