import Keyring.Key.Generate
import Keyring.Proofs.Key.DsaGenerator
import Keyring.Proofs.Key.RsaCrtValues

/-!
# Generated keys pass the checks of loading

A key that is generated goes through no checks. It is made of numbers that fit together: factors
have their two highest bits set, so that a product of two has just twice their length; the private
exponent is an inverse; and a generator is a power by the cofactor of the order. For each family,
first what is known of every generated key, and then what else is known if the numbers that were
found are prime, which the search only tests for. Main statements: a generated RSA key with a prime
first factor, and a generated DSA key with a prime modulus and a prime order, pass the checks of
loading, so that they load from their own records.
-/

namespace Keyring

/-! ## Numbers that are found -/

namespace Prime

variable {bits n : Nat} {entropy rest : Entropy}

/-- What is found is acceptable, and one of the numbers that are tried. -/
theorem of_search_eq_some {accept : Nat → Bool} {step count start : Nat}
    (h : search accept step count start = some n) :
    accept n = true ∧ ∃ k < count, n = start + step * k := by
  induction count generalizing start with
  | zero => cases h
  | succ count ih =>
    rw [search] at h
    split at h
    case isTrue haccept =>
      cases h
      exact ⟨haccept, 0, Nat.succ_pos count, rfl⟩
    case isFalse =>
      obtain ⟨haccept, k, hk, rfl⟩ := ih h
      refine ⟨haccept, k + 1, Nat.succ_lt_succ hk, ?_⟩
      rw [Nat.mul_succ, Nat.add_assoc, Nat.add_comm step]

theorem outcome_eq_ok {found : Option Nat} : outcome found = .ok n ↔ found = some n := by
  cases found with
  | none => exact ⟨nofun, nofun⟩
  | some m => simp [outcome]

theorem bitLength_of_fills (h : fills bits n = true) : bitLength n = bits := by
  simp only [fills, Bool.and_eq_true, beq_iff_eq] at h
  exact h.1

/-- A start is odd, and its highest bits are set. -/
theorem of_drawOdd_eq_ok {highBits : Nat} (h : drawOdd bits highBits entropy = .ok (n, rest)) :
    2 ^ bits - 2 ^ (bits - highBits) ≤ n ∧ n % 2 = 1 := by
  unfold drawOdd at h
  split at h
  · cases h
  · cases h
    exact ⟨Nat.le_trans Nat.right_le_or Nat.left_le_or, by simp⟩

end Prime

/-! ## RSA keys -/

namespace RsaPrivateKey

variable {bits k p q : Nat} {entropy rest : Entropy} {key : RsaPrivateKey}

/-- A factor is odd, and its two highest bits are set. -/
theorem of_newFactor_eq_ok (h : newFactor (k + 2) entropy = .ok (p, rest)) :
    (3 * 2 ^ k ≤ p ∧ p < 4 * 2 ^ k) ∧ p % 2 = 1 := by
  unfold newFactor at h
  obtain ⟨⟨start, left⟩, hstart, h⟩ := Result.bind_eq_ok.1 h
  obtain ⟨found, hfound, h⟩ := Result.bind_eq_ok.1 h
  cases h
  obtain ⟨hhigh, hodd⟩ := Prime.of_drawOdd_eq_ok hstart
  obtain ⟨haccept, steps, -, rfl⟩ := Prime.of_search_eq_some (Prime.outcome_eq_ok.1 hfound)
  rw [Bool.and_eq_true] at haccept
  have hlt := lt_two_pow_of_bitLength_le (Prime.bitLength_of_fills haccept.2).le
  rw [Nat.add_sub_cancel] at hhigh
  rw [pow_add] at hhigh hlt
  omega

/-- The product of two such factors has twice their length. -/
theorem bitLength_mul (hp : 3 * 2 ^ k ≤ p ∧ p < 4 * 2 ^ k) (hq : 3 * 2 ^ k ≤ q ∧ q < 4 * 2 ^ k) :
    bitLength (p * q) = 2 * (k + 2) := by
  have hlower : 2 ^ (2 * k + 3) ≤ p * q := by
    calc 2 ^ (2 * k + 3) = 8 * (2 ^ k * 2 ^ k) := by ring
      _ ≤ 9 * (2 ^ k * 2 ^ k) := Nat.mul_le_mul_right _ (by decide)
      _ = 3 * 2 ^ k * (3 * 2 ^ k) := by ring
      _ ≤ p * q := Nat.mul_le_mul hp.1 hq.1
  have hupper : p * q < 2 ^ (2 * k + 3 + 1) := by
    calc p * q < 4 * 2 ^ k * (4 * 2 ^ k) := Nat.mul_lt_mul'' hp.2 hq.2
      _ = 2 ^ (2 * k + 3 + 1) := by ring
  exact bitLength_eq_succ hlower hupper

/-- Of two such factors neither is a multiple of the other, since it would be at least twice the
other. -/
theorem not_dvd_of_ne (hp : 3 * 2 ^ k ≤ p ∧ p < 4 * 2 ^ k) (hq : 3 * 2 ^ k ≤ q ∧ q < 4 * 2 ^ k)
    (hne : p ≠ q) : ¬ p ∣ q := by
  rintro ⟨factor, rfl⟩
  have hpos : 0 < 2 ^ k := Nat.pow_pos (by decide)
  rcases factor with _ | _ | factor
  · omega
  · exact hne (Nat.mul_one p).symm
  · have htwice : p * 2 ≤ p * (factor + 1 + 1) := Nat.mul_le_mul_left p (by omega)
    omega

theorem checkPublic_newPublicExponent {n : Nat} (hlt : newPublicExponent < n) (hodd : n % 2 = 1) :
    Rsa.checkPublic n newPublicExponent = .ok () := by
  have hn : ¬ (n ≤ newPublicExponent ∨ n % 2 = 0) := by omega
  rw [Rsa.checkPublic, if_neg (by decide), if_neg hn, if_neg (by decide), if_neg (by decide),
    if_neg (by decide)]

/-- Every listed size is twice the length of factors with two highest bits and more. -/
theorem exists_half (h : bits ∈ KeyType.rsaPrivate.acceptableSizes) :
    ∃ k, 8 ≤ k ∧ bits / 2 = k + 2 ∧ bits = 2 * (k + 2) := by
  simp only [KeyType.acceptableSizes, List.mem_cons, List.not_mem_nil, or_false] at h
  exact ⟨bits / 2 - 2, by omega, by omega, by omega⟩

/-- What is known of a generated key, whether or not its factors are prime. -/
structure Generated (bits : Nat) (key : RsaPrivateKey) : Prop where
  publicKey : key.publicKey.Checked
  publicKey_size : key.publicKey.size = bits
  size_eq : key.size = bits
  one_lt_p : 1 < key.p
  one_lt_q : 1 < key.q
  mul_eq : key.p * key.q = key.publicKey.n
  not_dvd : ¬ key.p ∣ key.q
  inverts : key.publicKey.e * key.d ≡ 1 [MOD (key.p - 1) * (key.q - 1)]
  crt_eq : key.crt = .compute key.p key.q key.d

theorem generated_of_generate (h : generate bits entropy = .ok key) : key.Generated bits := by
  obtain ⟨⟨⟩, hsize, h⟩ := Result.bind_eq_ok.1 h
  obtain ⟨⟨p, middle⟩, hp, h⟩ := Result.bind_eq_ok.1 h
  obtain ⟨⟨q, last⟩, hq, h⟩ := Result.bind_eq_ok.1 h
  simp only at h
  split at h
  case isTrue => cases h
  case isFalse hne =>
    obtain ⟨d, hd, h⟩ := Result.bind_eq_ok.1 h
    cases h
    have hmem := KeyType.checkSize_eq_ok.1 hsize
    obtain ⟨k, hk, hhalf, hbits⟩ := exists_half hmem
    -- both factors are in the upper quarter of their length, which bounds all that follows
    rw [hhalf] at hp hq
    obtain ⟨hp, hp_odd⟩ := of_newFactor_eq_ok hp
    obtain ⟨hq, hq_odd⟩ := of_newFactor_eq_ok hq
    have hpos : 0 < 2 ^ k := Nat.pow_pos (by decide)
    have hone_p : 1 < p := by omega
    have hone_q : 1 < q := by omega
    have hlength : bitLength (p * q) = bits := by rw [bitLength_mul hp hq, hbits]
    have hexponent : newPublicExponent < p * q :=
      Nat.lt_of_lt_of_le (by decide) (two_pow_le_of_lt_bitLength (k := 17) (by omega))
    have hodd : p * q % 2 = 1 := by rw [Nat.mul_mod, hp_odd, hq_odd]
    have htotient : 0 < (p - 1) * (q - 1) :=
      Nat.mul_pos (Nat.sub_pos_of_lt hone_p) (Nat.sub_pos_of_lt hone_q)
    have hinverse := of_inverseMod?_eq_some htotient (Prime.outcome_eq_ok.1 hd)
    exact ⟨⟨hmem, hlength, checkPublic_newPublicExponent hexponent hodd⟩, rfl, rfl, hone_p, hone_q,
      rfl, not_dvd_of_ne hp hq hne, hinverse.2, rfl⟩

/-- A prime first factor makes the derived values those that are checked for. -/
theorem Generated.checked (h : key.Generated bits) (hp : key.p.Prime) : key.Checked := by
  have hfits := Rsa.CrtValues.fits_compute hp h.not_dvd key.d
  rw [← h.crt_eq] at hfits
  obtain ⟨hdp, hdq, hqinv, hmul⟩ := (Rsa.CrtValues.fits_iff h.one_lt_p).1 hfits
  apply (checked_iff h.publicKey).2
  have hsize : key.size = key.publicKey.size := h.size_eq.trans h.publicKey_size.symm
  exact ⟨hsize ▸ h.publicKey.size_mem, hsize, h.one_lt_p, h.one_lt_q, h.mul_eq, hdp, hdq, hqinv,
    hmul, h.inverts.of_mul_right _, h.inverts.of_mul_left _⟩

/-- **Generated RSA keys load.** A key that is generated with a length, from whatever supply of
random bytes, is of that length, as is its modulus, and has an exponent that undoes the public one
for the product of the factors less one each. If the first factor is prime, then the key is one that
its numbers give, and it loads from its own record as itself. -/
theorem obtained_of_generate (h : generate bits entropy = .ok key) :
    key.size = bits ∧ bitLength (key.p * key.q) = bits ∧
    key.publicKey.e * key.d ≡ 1 [MOD (key.p - 1) * (key.q - 1)] ∧
    (key.p.Prime → key.Obtained ∧ ofRecordText key.recordText = .ok key) := by
  have hgenerated := generated_of_generate h
  refine ⟨hgenerated.size_eq, ?_, hgenerated.inverts, fun hp => ?_⟩
  · rw [hgenerated.mul_eq, hgenerated.publicKey.bitLength_n, hgenerated.publicKey_size]
  · have hchecked := hgenerated.checked hp
    exact ⟨hchecked.obtained, ofRecordText_recordText hchecked⟩

/-- A supply that spells two primes gives the key of these primes. -/
theorem obtained_of_generate_smoothFactors :
    ∃ key, generate 512 (Bytes.ofNat 32 smoothFactors.q ++ Bytes.ofNat 32 nearPowers.p) = .ok key ∧
      key.p = smoothFactors.q ∧ key.Obtained ∧ ofRecordText key.recordText = .ok key := by
  have hfactor : (generate 512 (Bytes.ofNat 32 smoothFactors.q ++
      Bytes.ofNat 32 nearPowers.p)).toOption.map (·.p) = some smoothFactors.q := by
    decide +kernel
  obtain ⟨key, hvalue, hp⟩ := Option.map_eq_some_iff.1 hfactor
  have h := Result.eq_ok_of_toOption hvalue
  have hprime : key.p.Prime := hp ▸ prime_q_smoothFactors
  exact ⟨key, h, hp, (obtained_of_generate h).2.2.2 hprime⟩

end RsaPrivateKey

/-! ## DSA keys -/

namespace DsaPrivateKey

variable {bits p q g : Nat} {entropy rest : Entropy} {key : DsaPrivateKey}

theorem of_newOrder_eq_ok (h : newOrder entropy = .ok (q, rest)) :
    bitLength q = DsaPublicKey.orderBits := by
  unfold newOrder at h
  obtain ⟨⟨start, left⟩, -, h⟩ := Result.bind_eq_ok.1 h
  obtain ⟨found, hfound, h⟩ := Result.bind_eq_ok.1 h
  cases h
  exact Prime.bitLength_of_fills (Prime.of_search_eq_some (Prime.outcome_eq_ok.1 hfound)).1

/-- The search for a modulus starts behind a multiple of twice the order, and goes on in steps of
it. -/
theorem of_newModulus_eq_ok (h : newModulus bits q entropy = .ok (p, rest)) :
    bitLength p = bits ∧ q ∣ p - 1 := by
  unfold newModulus at h
  obtain ⟨⟨start, left⟩, -, h⟩ := Result.bind_eq_ok.1 h
  obtain ⟨found, hfound, h⟩ := Result.bind_eq_ok.1 h
  cases h
  obtain ⟨haccept, k, -, rfl⟩ := Prime.of_search_eq_some (Prime.outcome_eq_ok.1 hfound)
  refine ⟨Prime.bitLength_of_fills haccept, ?_⟩
  rw [Nat.add_right_comm, Nat.add_sub_cancel]
  exact (Nat.dvd_mul_left q 2).trans (Nat.dvd_add (Nat.dvd_sub_mod start) (Nat.dvd_mul_right _ _))

/-- A generator is not one, and is a power by the cofactor of one of the 64 bases from two on. -/
theorem of_newGenerator_eq_ok (h : newGenerator p q = .ok g) :
    g ≠ 1 ∧ ∃ base, (0 < base ∧ base < 66) ∧ g = base ^ ((p - 1) / q) % p := by
  unfold newGenerator at h
  obtain ⟨base, hfound, h⟩ := Result.bind_eq_ok.1 h
  cases h
  obtain ⟨haccept, k, hk, rfl⟩ := Prime.of_search_eq_some (Prime.outcome_eq_ok.1 hfound)
  exact ⟨of_decide_eq_true haccept, _, by omega, powMod_eq ..⟩

/-- What is known of a generated key, whether or not its modulus and its order are prime. -/
structure Generated (bits : Nat) (key : DsaPrivateKey) : Prop where
  size_mem : bits ∈ KeyType.dsaPrivate.acceptableSizes
  publicKey_size : key.publicKey.size = bits
  size_eq : key.size = bits
  bitLength_p : bitLength key.publicKey.numbers.p = bits
  bitLength_q : bitLength key.publicKey.numbers.q = DsaPublicKey.orderBits
  dvd : key.publicKey.numbers.q ∣ key.publicKey.numbers.p - 1
  g_ne_one : key.publicKey.numbers.g ≠ 1
  exists_base : ∃ base, (0 < base ∧ base < 66) ∧ key.publicKey.numbers.g =
    base ^ ((key.publicKey.numbers.p - 1) / key.publicKey.numbers.q) % key.publicKey.numbers.p
  y_eq : key.publicKey.numbers.y = key.publicKey.numbers.g ^ key.x % key.publicKey.numbers.p
  x_pos : 0 < key.x
  x_lt : key.x < key.publicKey.numbers.q

theorem generated_of_generate (h : generate bits entropy = .ok key) : key.Generated bits := by
  obtain ⟨⟨⟩, hsize, h⟩ := Result.bind_eq_ok.1 h
  obtain ⟨⟨q, middle⟩, hq, h⟩ := Result.bind_eq_ok.1 h
  obtain ⟨⟨p, last⟩, hp, h⟩ := Result.bind_eq_ok.1 h
  obtain ⟨g, hg, h⟩ := Result.bind_eq_ok.1 h
  simp only at h
  split at h
  · cases h
  · cases h
    obtain ⟨hp, hdvd⟩ := of_newModulus_eq_ok hp
    obtain ⟨hone, hbase⟩ := of_newGenerator_eq_ok hg
    have hq := of_newOrder_eq_ok hq
    have hlow : 2 ^ 1 ≤ q := two_pow_le_of_lt_bitLength (by rw [hq]; decide)
    exact ⟨KeyType.checkSize_eq_ok.1 hsize, rfl, rfl, hp, hq, hdvd, hone, hbase, powMod_eq ..,
      Dsa.candidate_pos .., Dsa.candidate_lt hlow _⟩

/-- The modulus is beyond all bases that are tried, so that it divides none of them. -/
theorem Generated.lt_p (h : key.Generated bits) : 66 < key.publicKey.numbers.p := by
  have hlength : 7 < bitLength key.publicKey.numbers.p := by
    have hmem := h.size_mem
    simp only [KeyType.acceptableSizes, List.mem_singleton] at hmem
    rw [h.bitLength_p, hmem]
    decide
  exact Nat.lt_of_lt_of_le (by decide) (two_pow_le_of_lt_bitLength hlength)

theorem Generated.g_lt (h : key.Generated bits) :
    key.publicKey.numbers.g < key.publicKey.numbers.p := by
  obtain ⟨base, -, hg⟩ := h.exists_base
  rw [hg]
  exact Nat.mod_lt _ (Nat.zero_lt_of_lt h.lt_p)

theorem Generated.not_g_modEq_one (h : key.Generated bits) :
    ¬ key.publicKey.numbers.g ≡ 1 [MOD key.publicKey.numbers.p] := by
  intro hone
  have hlt := h.lt_p
  exact h.g_ne_one (hone.eq_of_lt_of_lt h.g_lt (by omega))

theorem Generated.pow_q (h : key.Generated bits) (hp : key.publicKey.numbers.p.Prime) :
    key.publicKey.numbers.g ^ key.publicKey.numbers.q ≡ 1 [MOD key.publicKey.numbers.p] := by
  obtain ⟨base, ⟨hpos, hsmall⟩, hg⟩ := h.exists_base
  have hbase : ¬ key.publicKey.numbers.p ∣ base :=
    Nat.not_dvd_of_pos_of_lt hpos (hsmall.trans h.lt_p)
  rw [hg]
  exact Dsa.pow_cofactor_mod_pow hp h.dvd hbase

theorem Generated.usable (h : key.Generated bits) (hp : key.publicKey.numbers.p.Prime)
    (hq : key.publicKey.numbers.q.Prime) : key.publicKey.numbers.usable = true := by
  have hpow := h.pow_q hp
  have hg : key.publicKey.numbers.g ≠ 0 := ne_zero_of_pow_modEq_one hp.one_lt hq.ne_zero hpow
  obtain ⟨hy, hypow⟩ :=
    Dsa.two_le_pow_mod hp.one_lt hq hpow h.not_g_modEq_one h.x_pos h.x_lt
  rw [← h.y_eq] at hy hypow
  simp only [Dsa.Numbers.usable, Bool.and_eq_true, decide_eq_true_eq, beq_iff_eq]
  refine ⟨⟨⟨⟨⟨hp.two_le, hq.two_le⟩, Nat.pos_of_ne_zero hg⟩, h.g_lt.le⟩, hy⟩, ?_⟩
  rw [powMod_eq]
  exact mod_eq_one_of_modEq hp.one_lt hypow

theorem Generated.checked (h : key.Generated bits) (hp : key.publicKey.numbers.p.Prime)
    (hq : key.publicKey.numbers.q.Prime) : key.Checked := by
  have hsize : key.size = key.publicKey.size := h.size_eq.trans h.publicKey_size.symm
  have hmem : key.size ∈ KeyType.dsaPrivate.acceptableSizes := h.size_eq ▸ h.size_mem
  have hpower := powMod_eq key.publicKey.numbers.g key.x key.publicKey.numbers.p
  exact ⟨⟨hsize ▸ hmem, h.bitLength_p.trans h.publicKey_size.symm, h.bitLength_q, h.usable hp hq⟩,
    hmem, hsize, hpower.trans h.y_eq.symm, h.x_pos, h.x_lt.le⟩

/-- **Generated DSA keys load.** A key that is generated with a length, from whatever supply of
random bytes, is of that length, with a modulus of that length and an order of 160 bits that divides
the modulus less one, and a secret exponent below the order. If modulus and order are prime, then
the order takes the generator to one, the key is one that its numbers give, and it loads from its
own record as itself. -/
theorem obtained_of_generate (h : generate bits entropy = .ok key) :
    (key.size = bits ∧ bitLength key.publicKey.numbers.p = bits ∧
      bitLength key.publicKey.numbers.q = 160) ∧
    key.publicKey.numbers.q ∣ key.publicKey.numbers.p - 1 ∧
    (0 < key.x ∧ key.x < key.publicKey.numbers.q) ∧
    (key.publicKey.numbers.p.Prime → key.publicKey.numbers.q.Prime →
      key.publicKey.numbers.g ^ key.publicKey.numbers.q ≡ 1 [MOD key.publicKey.numbers.p] ∧
        key.Obtained ∧ ofRecordText key.recordText = .ok key) := by
  have hgenerated := generated_of_generate h
  refine ⟨⟨hgenerated.size_eq, hgenerated.bitLength_p, hgenerated.bitLength_q⟩, hgenerated.dvd,
    ⟨hgenerated.x_pos, hgenerated.x_lt⟩, fun hp hq => ?_⟩
  have hchecked := hgenerated.checked hp hq
  exact ⟨hgenerated.pow_q hp, hchecked.obtained, ofRecordText_recordText hchecked⟩

theorem prime_p_smoothOrder : smoothOrder.publicKey.numbers.p.Prime := by
  have hpred : smoothOrder.publicKey.numbers.p - 1 =
      2 ^ 828 * 3 ^ 23 * smoothOrder.publicKey.numbers.q := by decide +kernel
  have hfull : powMod 5 (smoothOrder.publicKey.numbers.p - 1) smoothOrder.publicKey.numbers.p = 1 :=
    by decide +kernel
  apply Prime.prime_of_powMod_of_prime prime_q_smoothOrder hpred hfull
  · decide +kernel
  · decide +kernel
  · decide +kernel

/-- A supply that spells an order and a modulus that are prime gives a key of them. -/
theorem obtained_of_generate_smoothOrder :
    ∃ key, generate 1024 (Bytes.ofNat 20 smoothOrder.publicKey.numbers.q ++
        Bytes.ofNat 128 smoothOrder.publicKey.numbers.p ++ List.replicate 32 1) = .ok key ∧
      key.publicKey.numbers.p = smoothOrder.publicKey.numbers.p ∧ key.Obtained ∧
      ofRecordText key.recordText = .ok key := by
  have hnumbers : (generate 1024 (Bytes.ofNat 20 smoothOrder.publicKey.numbers.q ++
      Bytes.ofNat 128 smoothOrder.publicKey.numbers.p ++ List.replicate 32 1)).toOption.map
        (fun key => (key.publicKey.numbers.p, key.publicKey.numbers.q)) =
      some (smoothOrder.publicKey.numbers.p, smoothOrder.publicKey.numbers.q) := by
    decide +kernel
  obtain ⟨key, hvalue, hboth⟩ := Option.map_eq_some_iff.1 hnumbers
  obtain ⟨hp, hq⟩ := Prod.mk.inj hboth
  have h := Result.eq_ok_of_toOption hvalue
  have hprime : key.publicKey.numbers.p.Prime := hp ▸ prime_p_smoothOrder
  have hprime' : key.publicKey.numbers.q.Prime := hq ▸ prime_q_smoothOrder
  obtain ⟨-, hload⟩ := (obtained_of_generate h).2.2.2 hprime hprime'
  exact ⟨key, h, hp, hload⟩

end DsaPrivateKey

end Keyring
