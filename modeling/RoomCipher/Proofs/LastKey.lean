import RoomCipher.Cipher.Builtin
import RoomCipher.Proofs.MagentaInversion
import RoomCipher.Proofs.Rc5Inversion

/-! Which key a cipher is under after it was offered many. Whether a key is taken depends
on the key and on the parameters of the cipher, never on the keys before it. A key that
is taken takes the place of all that was there, and a key that is refused leaves it. So
of any run of keys the last one that was taken is the only one that counts, and a cipher
that took none is still the cipher it was. -/
namespace RoomCipher.LastKey
open BlockCipher

/-! ### Runs of keys -/

section Runs

variable {C : Type} [BlockCipher C]

/-- The keys of a run that the cipher took when they were offered. -/
def taken (cipher : C) : List Bytes → List Bytes
  | [] => []
  | key :: rest =>
    match setKey cipher key with
    | (next, .ok ()) => key :: taken next rest
    | (next, .error _) => taken next rest

/-- The cipher on which one key was set, or none at all. -/
def under (cipher : C) : Option Bytes → C
  | none => cipher
  | some key => (setKey cipher key).1

variable (Admitted : Bytes → Prop) [DecidablePred Admitted]

/-- What runs of keys come to for an unkeyed cipher that is to take the admitted ones. -/
structure Governed (cipher : C) : Prop where
  /-- Whatever was offered before, a key is taken on its own merits. -/
  answered : ∀ earlier key, (setKey (setKeys cipher earlier) key).2 = .ok () ↔ Admitted key
  /-- A key that is not taken changes nothing. -/
  refused : ∀ earlier key e, (setKey (setKeys cipher earlier) key).2 = .error e →
    (setKey (setKeys cipher earlier) key).1 = setKeys cipher earlier
  taken_eq : ∀ keys, taken cipher keys = keys.filter Admitted
  /-- Of the keys of a run the last one that was taken is all that is left. -/
  last : ∀ keys, setKeys cipher keys = under cipher (taken cipher keys).getLast?
  keyed : ∀ keys, isKeyed (setKeys cipher keys) = true ↔ taken cipher keys ≠ []

/-- A key that is taken makes the same cipher, `keyedBy key`, of every cipher of one kin, and one
that is refused leaves it as it was. -/
structure Overwrites (fresh : C) (Kin : C → Prop) (keyedBy : Bytes → C) : Prop where
  self : Kin fresh
  kin : ∀ key, Kin (keyedBy key)
  keyed : ∀ key, isKeyed (keyedBy key) = true
  takes : ∀ {cipher key}, Kin cipher → Admitted key → setKey cipher key = (keyedBy key, .ok ())
  refuses : ∀ {cipher key}, Kin cipher → ¬ Admitted key →
    ∃ e, setKey cipher key = (cipher, .error e)

variable {Admitted} {fresh cipher : C} {Kin : C → Prop} {keyedBy : Bytes → C}
variable (law : Overwrites Admitted fresh Kin keyedBy)
include law

theorem setKey_kin (kin : Kin cipher) (key : Bytes) : Kin (setKey cipher key).1 := by
  by_cases admitted : Admitted key
  · rw [law.takes kin admitted]
    exact law.kin key
  · obtain ⟨e, refused⟩ := law.refuses kin admitted
    rwa [refused]

theorem setKeys_kin (keys : List Bytes) : Kin (setKeys fresh keys) :=
  List.foldlRecOn keys _ law.self fun _ kin key _ => setKey_kin law kin key

/-- In a run the admitted keys are taken and no others. -/
theorem taken_filter (kin : Kin cipher) (keys : List Bytes) :
    taken cipher keys = keys.filter Admitted := by
  induction keys generalizing cipher with
  | nil => rfl
  | cons key rest ih =>
    by_cases admitted : Admitted key
    · rw [taken, law.takes kin admitted, List.filter_cons_of_pos (by simpa using admitted)]
      exact congrArg (key :: ·) (ih (law.kin key))
    · obtain ⟨e, refused⟩ := law.refuses kin admitted
      rw [taken, refused, List.filter_cons_of_neg (by simpa using admitted)]
      exact ih kin

theorem admitted_of_taken (kin : Kin cipher) {keys : List Bytes}
    (last : (taken cipher keys).getLast? = some key) : Admitted key := by
  have member := List.mem_of_getLast? last
  rw [taken_filter law kin] at member
  simpa using (List.mem_filter.mp member).2

/-- After a run the cipher is under the last key it took, or it is the one it was. -/
theorem setKeys_last (kin : Kin cipher) (keys : List Bytes) :
    setKeys cipher keys = (taken cipher keys).getLast?.elim cipher keyedBy := by
  induction keys generalizing cipher with
  | nil => rfl
  | cons key rest ih =>
    have run : setKeys cipher (key :: rest) = setKeys (setKey cipher key).1 rest := rfl
    rw [run, ih (setKey_kin law kin key), taken]
    by_cases admitted : Admitted key
    · rw [law.takes kin admitted]
      simp only [List.getLast?_cons]
      cases (taken (keyedBy key) rest).getLast? <;> rfl
    · obtain ⟨e, refused⟩ := law.refuses kin admitted
      rw [refused]

theorem governed (unkeyed : isKeyed fresh = false) : Governed Admitted fresh where
  answered earlier key := by
    have kin := setKeys_kin law earlier
    by_cases admitted : Admitted key
    · simp only [law.takes kin admitted, admitted]
    · obtain ⟨e, refused⟩ := law.refuses kin admitted
      simp only [refused, admitted, reduceCtorEq]
  refused earlier key e error := by
    have kin := setKeys_kin law earlier
    by_cases admitted : Admitted key
    · rw [law.takes kin admitted] at error
      cases error
    · obtain ⟨_, refused⟩ := law.refuses kin admitted
      rw [refused]
  taken_eq := taken_filter law law.self
  last keys := by
    rw [setKeys_last law law.self]
    cases last : (taken fresh keys).getLast? with
    | none => rfl
    | some key =>
      rw [under, law.takes law.self (admitted_of_taken law law.self last)]
      rfl
  keyed keys := by
    rw [setKeys_last law law.self, ne_eq, ← List.getLast?_eq_none_iff]
    cases (taken fresh keys).getLast? with
    | none => simp [unkeyed]
    | some key => simp [law.keyed]

omit [DecidablePred Admitted] in
/-- A cipher behind a common type has the keys set on itself. -/
theorem overwrites_behind {D : Type} [BlockCipher D] {wrap : C → D}
    (state : ∀ cipher, isKeyed (wrap cipher) = isKeyed cipher)
    (behind : ∀ cipher key, setKey (wrap cipher) key = (setKey cipher key).map wrap id) :
    Overwrites Admitted (wrap fresh) (fun wrapped => ∃ cipher, wrap cipher = wrapped ∧ Kin cipher)
      fun key => wrap (keyedBy key) where
  self := ⟨fresh, rfl, law.self⟩
  kin key := ⟨keyedBy key, rfl, law.kin key⟩
  keyed key := (state (keyedBy key)).trans (law.keyed key)
  takes := by
    rintro _ key ⟨cipher, rfl, kin⟩ admitted
    rw [behind, law.takes kin admitted]
    rfl
  refuses := by
    rintro _ key ⟨cipher, rfl, kin⟩ other
    obtain ⟨e, refused⟩ := law.refuses kin other
    exact ⟨e, by rw [behind, refused]; rfl⟩

end Runs

/-! ### The ciphers of this library -/

/-- The keys that a cipher takes: one length alone, any that is neither empty nor too long, or any
that is not empty, as long as there is room for the round keys of so many rounds. These are counted
by a machine word, which may come out at none. -/
def Admitted : Builtin → Bytes → Prop
  | .loki97 _, key => key.length = 16
  | .rc5 _, key => key ≠ [] ∧ key.length ≤ 255
  | .magenta cipher, key => key ≠ [] ∧ 8 * (2 * (cipher.rounds + 1) % 2 ^ 64) < 2 ^ 63

instance (cipher : Builtin) : DecidablePred (Admitted cipher) := fun key =>
  match cipher with
  | .loki97 _ => inferInstanceAs (Decidable (key.length = 16))
  | .rc5 _ => inferInstanceAs (Decidable (key ≠ [] ∧ key.length ≤ 255))
  | .magenta cipher =>
    inferInstanceAs (Decidable (key ≠ [] ∧ 8 * (2 * (cipher.rounds + 1) % 2 ^ 64) < 2 ^ 63))

theorem overwrites_loki97 (fresh : Loki97) : Overwrites (Admitted (.loki97 fresh)) fresh
    (fun _ => True)
    (fun key => ⟨some (Loki97.expandKey (Loki97.split key).1 (Loki97.split key).2)⟩) where
  self := trivial
  kin _ := trivial
  keyed _ := rfl
  takes _ full := if_pos full
  refuses _ other := ⟨_, if_neg other⟩

theorem overwrites_rc5 (fresh : Rc5) : Overwrites (Admitted (.rc5 fresh)) fresh
    (fun cipher => cipher.word = fresh.word ∧ cipher.rounds = fresh.rounds)
    (fun key => { fresh with schedule := some (Rc5.expandKey fresh.word fresh.rounds key) }) where
  self := ⟨rfl, rfl⟩
  kin _ := ⟨rfl, rfl⟩
  keyed _ := rfl
  takes := by
    rintro ⟨_, _, schedule⟩ key ⟨rfl, rfl⟩ ⟨written, short⟩
    exact Rc5Inversion.setKey_eq _ written short
  refuses := by
    intro cipher key _ other
    by_cases written : key = []
    · exact ⟨_, if_pos written⟩
    · have long : Rc5.maxKeyBytes < key.length :=
        Nat.lt_of_not_le fun short => other ⟨written, short⟩
      exact ⟨_, (if_neg written).trans (if_pos long)⟩

theorem overwrites_magenta (fresh : Magenta) : Overwrites (Admitted (.magenta fresh)) fresh
    (fun cipher => cipher.rounds = fresh.rounds)
    (fun key => { fresh with roundKeys := some (Magenta.expandKey fresh.rounds key) }) where
  self := rfl
  kin _ := rfl
  keyed _ := rfl
  takes := by
    rintro ⟨_, keys⟩ key rfl ⟨written, room⟩
    exact MagentaInversion.setKey_fits written _ room
  refuses := by
    intro cipher key kin other
    by_cases written : key = []
    · exact ⟨_, if_pos written⟩
    · exact ⟨_, MagentaInversion.setKey_oversize written cipher
        fun room => other ⟨written, kin ▸ room⟩⟩

/-- Of any keys that are offered to a cipher of this library, by itself or behind the common type,
those that it admits are taken and the others leave no trace. Afterwards it is the cipher that it is
under the last key taken alone, and the unkeyed one if none was. -/
theorem last_key_counts :
    (∀ cipher : Loki97, isKeyed cipher = false → Governed (Admitted (.loki97 cipher)) cipher) ∧
      (∀ cipher : Rc5, isKeyed cipher = false → Governed (Admitted (.rc5 cipher)) cipher) ∧
      (∀ cipher : Magenta, isKeyed cipher = false → Governed (Admitted (.magenta cipher)) cipher) ∧
      ∀ cipher : Builtin, isKeyed cipher = false → Governed (Admitted cipher) cipher := by
  refine ⟨fun cipher => governed (overwrites_loki97 cipher),
    fun cipher => governed (overwrites_rc5 cipher),
    fun cipher => governed (overwrites_magenta cipher), fun cipher => ?_⟩
  cases cipher with
  | loki97 cipher =>
    exact governed (overwrites_behind (overwrites_loki97 cipher) (fun _ => rfl) fun _ _ => rfl)
  | rc5 cipher =>
    exact governed (overwrites_behind (overwrites_rc5 cipher) (fun _ => rfl) fun _ _ => rfl)
  | magenta cipher =>
    exact governed (overwrites_behind (overwrites_magenta cipher) (fun _ => rfl) fun _ _ => rfl)

/-- Two of four keys are taken by RC5 behind the common type, the second of them counts; LOKI97
takes neither of two and stays as it is; and MAGENTA with so many rounds that the count of its round
keys comes out at none takes keys like any other. -/
theorem last_key_counts_mixed :
    isKeyed (Builtin.ofAlgorithm .rc5) = false ∧ isKeyed Loki97.new = false ∧
      isKeyed (Magenta.withRounds (2 ^ 64 - 1)) = false ∧
      setKeys (Builtin.ofAlgorithm .rc5) [[1, 2], [], [3], []] =
        (setKey (Builtin.ofAlgorithm .rc5) [3]).1 ∧
      setKeys Loki97.new [[], [7]] = Loki97.new ∧
      setKeys (Magenta.withRounds (2 ^ 64 - 1)) [[5], [0], []] =
        (setKey (Magenta.withRounds (2 ^ 64 - 1)) [0]).1 ∧
      isKeyed (setKeys (Magenta.withRounds (2 ^ 64 - 1)) [[5], [0], []]) = true := by
  obtain ⟨alone, -, wrapped, behind⟩ := last_key_counts
  have rc5 := behind (Builtin.ofAlgorithm .rc5) rfl
  have loki97 := alone Loki97.new rfl
  have magenta := wrapped (Magenta.withRounds (2 ^ 64 - 1)) rfl
  have second : (([[1, 2], [], [3], []] : List Bytes).filter
      (Admitted (Builtin.ofAlgorithm .rc5))).getLast? = some [3] := by decide
  have neither : (([[], [7]] : List Bytes).filter (Admitted (.loki97 Loki97.new))).getLast? =
      none := by decide
  have both : ([[5], [0], []] : List Bytes).filter
      (Admitted (.magenta (Magenta.withRounds (2 ^ 64 - 1)))) = [[5], [0]] := by decide
  refine ⟨rfl, rfl, rfl, ?_, ?_, ?_, ?_⟩
  · rw [rc5.last, rc5.taken_eq, second, under]
  · rw [loki97.last, loki97.taken_eq, neither, under]
  · rw [magenta.last, magenta.taken_eq, both, List.getLast?_cons_cons, List.getLast?_singleton,
      under]
  · rw [magenta.keyed, magenta.taken_eq, both]
    exact List.cons_ne_nil _ _

end RoomCipher.LastKey
