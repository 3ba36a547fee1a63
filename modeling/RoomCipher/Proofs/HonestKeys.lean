import RoomCipher.Proofs.SafePrimes
import RoomCipher.Proofs.UniformDraws

/-! Keys of honest members. A private scalar can be any number below the prime, and so the power of
the generator that goes with it can be any that there is, one and minus one among them. These are
out of the range of acceptable keys. So how often an honest key is refused is a matter of the order
of the generator, and modulo a safe prime it happens for the multiples of the prime inside alone. -/
namespace RoomCipher.HonestKeys
open Exchange DerivedContexts ModularPowers Outcomes PrimalityTest SafePrimes

/-- A key pair is a scalar below the prime with the power of the generator. -/
theorem generate_eq_ok {parameters : Parameters} {pair : KeyPair} :
    KeyPair.generate parameters source = .ok (pair, rest) ↔
      generatePrivateKey parameters.prime source = .ok (pair.privateKey, rest) ∧
        1 < parameters.prime ∧
        pair.publicKey = parameters.generator ^ pair.privateKey % parameters.prime := by
  simp only [KeyPair.generate, publicKey, bind_eq_ok, Prod.exists]
  constructor
  · rintro ⟨scalar, later, drawn, key, ⟨_, modulus, raised⟩, made⟩
    rw [checkModulus] at modulus
    split at modulus
    · cases modulus
    next large =>
      cases raised
      cases made
      exact ⟨drawn, Nat.lt_of_not_le large, powMod_eq _ _ _⟩
  · rintro ⟨drawn, modulus, power⟩
    have checked : checkModulus parameters.prime = .ok () := if_neg (Nat.not_le.mpr modulus)
    refine ⟨pair.privateKey, rest, drawn, pair.publicKey, ⟨(), checked, ?_⟩, rfl⟩
    rw [powMod_eq, power]
    rfl

/-- There is a source for every scalar below the prime, and for no other. -/
theorem scalars_reached (parameters : Parameters) (modulus : 1 < parameters.prime)
    (scalar : Nat) : scalar < parameters.prime ↔ ∃ source pair rest,
      KeyPair.generate parameters source = .ok (pair, rest) ∧ pair.privateKey = scalar := by
  constructor
  · intro below
    obtain ⟨source, rest, drawn⟩ := UniformDraws.randomBelow_reaches below
    let pair : KeyPair := ⟨scalar, parameters.generator ^ scalar % parameters.prime⟩
    exact ⟨source, pair, rest, generate_eq_ok.mpr ⟨drawn, modulus, rfl⟩, rfl⟩
  · rintro ⟨source, pair, rest, generated, rfl⟩
    exact randomBelow_lt (generate_eq_ok.mp generated).1

/-! ### Answers to a key -/

theorem validatePublicKey_refused {parameters : Parameters} (modulus : 1 < parameters.prime)
    (refused : parameters.validatePublicKey key ≠ .ok ()) :
    parameters.validatePublicKey key = .error (.exchange .publicKey) := by
  have positive : parameters.prime ≠ 0 := by omega
  rw [Parameters.validatePublicKey, if_neg positive] at refused ⊢
  split
  next => rfl
  next inside => exact absurd (if_neg inside) refused

/-- Members share a secret with the owner of a key if the key is acceptable. -/
theorem sharedSecret_iff {parameters : Parameters} (modulus : 1 < parameters.prime) (peer : KeyPair)
    (key : Nat) : (∃ secret, peer.sharedSecret key parameters = .ok secret) ↔
      parameters.validatePublicKey key = .ok () := by
  simp only [KeyPair.sharedSecret, bind_eq_ok, sharedKey_eq modulus]
  constructor
  · rintro ⟨_, _, accepted, _⟩
    exact accepted
  · intro accepted
    exact ⟨_, (), accepted, rfl⟩

/-! ### Powers of the generator -/

/-- The generator of every room is not zero modulo the prime of any. -/
theorem two_ne_zero_of_lt (large : 2 < p) : (2 : ZMod p) ≠ 0 := by
  have divisor : ¬ p ∣ 2 := Nat.not_dvd_of_pos_of_lt two_pos large
  rwa [← Nat.cast_two, Ne, ZMod.natCast_eq_zero_iff]

/-- A power of two is acceptable unless the order of two makes it its own inverse. -/
theorem power_acceptable_iff (prime : p.Prime) (large : 2 < p) (scalar : Nat) :
    (⟨p, defaultGenerator⟩ : Parameters).validatePublicKey (2 ^ scalar % p) = .ok () ↔
      ¬ orderOf (2 : ZMod p) ∣ 2 * scalar := by
  have field : Fact p.Prime := ⟨prime⟩
  have power : ((2 ^ scalar % p : Nat) : ZMod p) = 2 ^ scalar := by
    rw [ZMod.natCast_mod, Nat.cast_pow, Nat.cast_two]
  have nonzero : 2 ^ scalar % p ≠ 0 := by
    intro zero
    rw [zero, Nat.cast_zero] at power
    exact pow_ne_zero scalar (two_ne_zero_of_lt large) power.symm
  rw [acceptable_iff large (Nat.mod_lt _ prime.pos), and_iff_right nonzero, power, pow_trivial_iff]

/-- Modulo a safe prime, the order of two has the prime inside. -/
theorem order_two_dvd_iff (prime : p.Prime) (half : q.Prime) (odd : Odd q) (safe : p = 2 * q + 1)
    (scalar : Nat) : orderOf (2 : ZMod p) ∣ 2 * scalar ↔ q ∣ scalar := by
  have field : Fact p.Prime := ⟨prime⟩
  have large : 3 < p := by
    have := half.two_le
    omega
  have proper : ¬((2 : ZMod p) = 1 ∨ (2 : ZMod p) = -1) := by
    rw [← Nat.cast_two, ← eq_one_iff (Nat.lt_of_succ_lt large) (Nat.lt_of_succ_lt large),
      ← eq_pred_iff (Nat.lt_of_succ_lt large) (Nat.lt_of_succ_lt large)]
    omega
  rw [← pow_trivial_iff, pow_trivial_iff_dvd prime half odd safe
    (two_ne_zero_of_lt (Nat.lt_of_succ_lt large)) proper]

/-- Any scalar below the prime can come up, and the key of an honest member is accepted, by the range
check and by every member, exactly if twice the scalar is no multiple of the order of two modulo the
prime. With a safe prime, the keys refused are those of the multiples of the prime inside. -/
theorem honest_key_accepted_iff {parameters : Parameters} (prime : p.Prime)
    (group : Parameters.ofPrime p = .ok parameters) :
    (∀ scalar, scalar < p ↔ ∃ source pair rest,
      KeyPair.generate parameters source = .ok (pair, rest) ∧ pair.privateKey = scalar) ∧
    ∀ source pair rest, KeyPair.generate parameters source = .ok (pair, rest) →
      (parameters.validatePublicKey pair.publicKey =
        if orderOf (2 : ZMod p) ∣ 2 * pair.privateKey then .error (.exchange .publicKey)
        else .ok ()) ∧
      (∀ peer : KeyPair, (∃ secret, peer.sharedSecret pair.publicKey parameters = .ok secret) ↔
        ¬ orderOf (2 : ZMod p) ∣ 2 * pair.privateKey) ∧
      ∀ q, q.Prime → Odd q → p = 2 * q + 1 →
        (parameters.validatePublicKey pair.publicKey = .ok () ↔ ¬ q ∣ pair.privateKey) := by
  obtain ⟨large, rfl⟩ := RoomTransport.ofPrime_eq_ok.mp group
  have modulus : 1 < p := Nat.lt_of_succ_lt large
  refine ⟨scalars_reached ⟨p, defaultGenerator⟩ modulus, ?_⟩
  intro source pair rest generated
  obtain ⟨_, _, raised⟩ := generate_eq_ok.mp generated
  have acceptable := power_acceptable_iff prime large pair.privateKey
  rw [raised]
  refine ⟨?_, fun peer => (sharedSecret_iff modulus peer _).trans acceptable, ?_⟩
  · split
    next trivial_key =>
      exact validatePublicKey_refused modulus fun accepted => acceptable.mp accepted trivial_key
    next proper => exact acceptable.mpr proper
  · intro q half odd safe
    exact acceptable.trans (not_congr (order_two_dvd_iff prime half odd safe pair.privateKey))

/-- Modulo 23, the scalar 6 leads to the key 18, which is accepted, as 6 is no multiple of 11. -/
theorem honest_key_accepted_iff_small :
    Nat.Prime 23 ∧ Parameters.ofPrime 23 = .ok ⟨23, 2⟩ ∧
    KeyPair.generate ⟨23, 2⟩ ⟨fun _ => 6, 0, 1⟩ = .ok (⟨6, 18⟩, ⟨fun _ => 6, 1, 1⟩) ∧
    Nat.Prime 11 ∧ Odd 11 ∧ 23 = 2 * 11 + 1 ∧ ¬ 11 ∣ 6 ∧
    (⟨23, 2⟩ : Parameters).validatePublicKey 18 = .ok () := by
  have prime : Nat.Prime 23 := by norm_num
  have half : Nat.Prime 11 := by norm_num
  have odd : Odd 11 := ⟨5, rfl⟩
  have apart : ¬ 11 ∣ 6 := by norm_num
  have group : Parameters.ofPrime 23 = .ok ⟨23, 2⟩ := rfl
  have generated : KeyPair.generate ⟨23, 2⟩ ⟨fun _ => 6, 0, 1⟩ =
      .ok (⟨6, 18⟩, ⟨fun _ => 6, 1, 1⟩) :=
    generate_eq_ok.mpr ⟨rfl, by norm_num, rfl⟩
  obtain ⟨_, _, safe⟩ := (honest_key_accepted_iff prime group).2 _ _ _ generated
  exact ⟨prime, group, generated, half, odd, rfl, apart, (safe 11 half odd rfl).mpr apart⟩

/-- The scalar zero leads to a key that is refused; and the smallest prime that makes parameters leaves
no key to accept at all. -/
theorem honest_keys_refused :
    Nat.Prime 23 ∧ Parameters.ofPrime 23 = .ok ⟨23, 2⟩ ∧
    KeyPair.generate ⟨23, 2⟩ ⟨fun _ => 0, 0, 1⟩ = .ok (⟨0, 1⟩, ⟨fun _ => 0, 1, 1⟩) ∧
    (⟨23, 2⟩ : Parameters).validatePublicKey 1 = .error (.exchange .publicKey) ∧
    Nat.Prime 3 ∧ Parameters.ofPrime 3 = .ok ⟨3, 2⟩ ∧
    KeyPair.generate ⟨3, 2⟩ ⟨fun _ => 1, 0, 1⟩ = .ok (⟨1, 2⟩, ⟨fun _ => 1, 1, 1⟩) ∧
    ∀ source pair rest, KeyPair.generate ⟨3, 2⟩ source = .ok (pair, rest) →
      (⟨3, 2⟩ : Parameters).validatePublicKey pair.publicKey = .error (.exchange .publicKey) := by
  refine ⟨by norm_num, rfl, generate_eq_ok.mpr ⟨rfl, by norm_num, rfl⟩, rfl, by norm_num, rfl,
    generate_eq_ok.mpr ⟨rfl, by norm_num, rfl⟩, ?_⟩
  intro source pair rest _
  refine validatePublicKey_refused (by norm_num) ?_
  intro accepted
  obtain ⟨above, below⟩ := (validatePublicKey_eq_ok (by norm_num)).mp accepted
  exact Nat.not_lt.mpr above below

end RoomCipher.HonestKeys
