import Mathlib.Data.Nat.Squarefree
import Keyring.Proofs.Rsa.Genuine

/-!
# Powers that restore every residue

Nothing that is checked of factors makes them prime, so the private exponent need not undo the
public one. When it does is a matter of the prime factors of the modulus: none of them may divide it
twice, and each of them less one must divide what the product of the exponents exceeds one by. The
same holds for each of the two given factors, with the private exponent that was reduced for it, if
the two powers are to be joined. Main statements: both conditions are exact, and under the second
one the private operation undoes the public one, whatever the blinding.
-/

namespace Keyring.Rsa

/-! ## Restoring residues -/

/-- What a modulus and an exponent must satisfy for the power to be the identity on residues. -/
structure Restores (n k : Nat) : Prop where
  squarefree : Squarefree n
  pred_dvd : ∀ ℓ : Nat, ℓ.Prime → ℓ ∣ n → ℓ - 1 ∣ k - 1

section Residues

variable {n k : Nat}

theorem forall_lt_pow_mod_eq_iff (hn : 0 < n) :
    (∀ m, m < n → m ^ k % n = m) ↔ ∀ x : Nat, x ^ k ≡ x [MOD n] := by
  constructor
  · intro h x
    calc x ^ k ≡ (x % n) ^ k [MOD n] := ((Nat.mod_modEq x n).pow k).symm
      _ ≡ (x % n) ^ k % n [MOD n] := (Nat.mod_modEq _ _).symm
      _ = x % n := h (x % n) (Nat.mod_lt x hn)
      _ ≡ x [MOD n] := Nat.mod_modEq x n
  · intro h m hm
    rw [h m, Nat.mod_eq_of_lt hm]

/-- For a prime modulus the exponents that restore residues are one and a multiple of the modulus
less one. -/
theorem forall_pow_modEq_self_iff_of_prime {ℓ : Nat} (hℓ : ℓ.Prime) (hk : 0 < k) :
    (∀ x : Nat, x ^ k ≡ x [MOD ℓ]) ↔ ℓ - 1 ∣ k - 1 := by
  have : Fact ℓ.Prime := ⟨hℓ⟩
  have hsplit : k = k - 1 + 1 := by omega
  have hunits : (∀ u : (ZMod ℓ)ˣ, u ^ (k - 1) = 1) ↔ ℓ - 1 ∣ k - 1 := by
    rw [FiniteField.forall_pow_eq_one_iff, ZMod.card]
  rw [← hunits]
  constructor
  · intro h u
    have hself : (u : ZMod ℓ) ^ k = u := by
      have hcast := (ZMod.natCast_eq_natCast_iff _ _ _).2 (h (u : ZMod ℓ).val)
      rwa [Nat.cast_pow, ZMod.natCast_zmod_val] at hcast
    apply mul_right_cancel (b := u)
    apply Units.ext
    rw [one_mul, ← pow_succ, ← hsplit, Units.val_pow_eq_pow_val, hself]
  · intro h x
    apply (ZMod.natCast_eq_natCast_iff _ _ _).1
    rw [Nat.cast_pow, hsplit, pow_succ]
    by_cases hzero : (x : ZMod ℓ) = 0
    · rw [hzero, mul_zero]
    · have hone := congrArg Units.val (h (Units.mk0 _ hzero))
      rw [Units.val_pow_eq_pow_val, Units.val_mk0, Units.val_one] at hone
      rw [hone, one_mul]

/-- A prime whose square divides the modulus is not restored: its powers lose it. -/
theorem squarefree_of_forall_pow_modEq (hk : 1 < k) (h : ∀ x : Nat, x ^ k ≡ x [MOD n]) :
    Squarefree n := by
  rw [Nat.squarefree_iff_prime_squarefree]
  intro ℓ hℓ hsquare
  have hpower : ℓ * ℓ ∣ ℓ ^ k := by
    rw [← pow_two]
    exact pow_dvd_pow ℓ hk
  have hself : ℓ * ℓ ∣ ℓ := ((h ℓ).of_dvd hsquare).dvd_iff (dvd_refl _) |>.1 hpower
  have hle := Nat.le_of_dvd hℓ.pos hself
  have hgt : ℓ * 1 < ℓ * ℓ := Nat.mul_lt_mul_of_pos_left hℓ.one_lt hℓ.pos
  omega

/-- Residues of a modulus without square factors are told apart by its prime factors. -/
theorem modEq_of_squarefree {a b : Nat} (hn : Squarefree n)
    (h : ∀ ℓ : Nat, ℓ.Prime → ℓ ∣ n → a ≡ b [MOD ℓ]) : a ≡ b [MOD n] := by
  rw [Nat.modEq_iff_dvd, Int.natCast_dvd, ← Nat.prod_primeFactors_of_squarefree hn]
  apply Finset.prod_primes_dvd
  · intro ℓ hℓ
    exact (Nat.prime_of_mem_primeFactors hℓ).prime
  · intro ℓ hℓ
    have hmod := h ℓ (Nat.prime_of_mem_primeFactors hℓ) (Nat.dvd_of_mem_primeFactors hℓ)
    exact Int.natCast_dvd.1 (Nat.modEq_iff_dvd.1 hmod)

/-- Exactly when a power is the identity on residues. -/
theorem forall_pow_modEq_self_iff (hk : 1 < k) :
    (∀ x : Nat, x ^ k ≡ x [MOD n]) ↔ Restores n k := by
  have hpos : 0 < k := by omega
  constructor
  · intro h
    refine ⟨squarefree_of_forall_pow_modEq hk h, ?_⟩
    intro ℓ hℓ hdvd
    exact (forall_pow_modEq_self_iff_of_prime hℓ hpos).1 fun x => (h x).of_dvd hdvd
  · rintro ⟨hsquarefree, hpred⟩ x
    apply modEq_of_squarefree hsquarefree
    intro ℓ hℓ hdvd
    exact (forall_pow_modEq_self_iff_of_prime hℓ hpos).2 (hpred ℓ hℓ hdvd) x

/-- A prime has no other prime factor. -/
theorem Restores.of_prime {ℓ : Nat} (hℓ : ℓ.Prime) (h : k ≡ 1 [MOD ℓ - 1]) : Restores ℓ k := by
  refine ⟨hℓ.prime.squarefree, ?_⟩
  intro divisor hdivisor hdvd
  obtain rfl : divisor = ℓ := (Nat.prime_dvd_prime_iff_eq hdivisor hℓ).1 hdvd
  rcases Nat.eq_zero_or_pos k with rfl | hk
  · exact dvd_zero _
  · exact (Nat.modEq_iff_dvd' hk).1 h.symm

end Residues

/-! ## Restoring through the factors -/

/-- Factors of a modulus, with an inverse of the second one modulo the first. -/
structure Joins (n p q : Nat) (values : CrtValues) : Prop where
  one_lt_p : 1 < p
  one_lt_q : 1 < q
  mul_eq : p * q = n
  inverse : values.qinv * q ≡ 1 [MOD p]

namespace Joins

variable {n e p q : Nat} {values : CrtValues}

theorem coprime (h : Joins n p q values) : Nat.Coprime p q := by
  have hinverse : q * values.qinv ≡ 1 [MOD p] := by
    rw [mul_comm]
    exact h.inverse
  exact (Nat.coprime_of_mul_modEq_one _ hinverse).symm

theorem one_lt_modulus (h : Joins n p q values) : 1 < n := by
  calc 1 < p := h.one_lt_p
    _ ≤ p * q := Nat.le_mul_of_pos_right p (Nat.zero_lt_of_lt h.one_lt_q)
    _ = n := h.mul_eq

/-- What is joined is known by what it is made of. -/
theorem crtPower_modEq_iff (h : Joins n p q values) {c x : Nat} :
    crtPower p q values c ≡ x [MOD n] ↔
      c ^ values.dp ≡ x [MOD p] ∧ c ^ values.dq ≡ x [MOD q] := by
  have hp : 0 < p := Nat.zero_lt_of_lt h.one_lt_p
  have hleft := crtPower_modEq_left hp h.inverse c
  have hright := crtPower_modEq_right p q values c
  rw [← h.mul_eq, ← Nat.modEq_and_modEq_iff_modEq_mul h.coprime]
  exact and_congr ⟨hleft.symm.trans, hleft.trans⟩ ⟨hright.symm.trans, hright.trans⟩

/-- Joining undoes the public operation just when each factor restores its residues. -/
theorem forall_crtPower_publicOp_iff (h : Joins n p q values) :
    (∀ x : Nat, crtPower p q values (publicOp n e x) ≡ x [MOD n]) ↔
      (∀ x : Nat, x ^ (e * values.dp) ≡ x [MOD p]) ∧
        ∀ x : Nat, x ^ (e * values.dq) ≡ x [MOD q] := by
  have hpublic (x : Nat) : publicOp n e x ≡ x ^ e [MOD n] := by
    rw [publicOp, powMod_eq]
    exact Nat.mod_modEq _ _
  have hleft (x : Nat) : publicOp n e x ^ values.dp ≡ x ^ (e * values.dp) [MOD p] := by
    rw [pow_mul]
    exact ((hpublic x).of_dvd (h.mul_eq ▸ Nat.dvd_mul_right p q)).pow _
  have hright (x : Nat) : publicOp n e x ^ values.dq ≡ x ^ (e * values.dq) [MOD q] := by
    rw [pow_mul]
    exact ((hpublic x).of_dvd (h.mul_eq ▸ Nat.dvd_mul_left q p)).pow _
  constructor
  · intro hall
    have hboth (x : Nat) := h.crtPower_modEq_iff.1 (hall x)
    exact ⟨fun x => (hleft x).symm.trans (hboth x).1, fun x => (hright x).symm.trans (hboth x).2⟩
  · rintro ⟨hp, hq⟩ x
    exact h.crtPower_modEq_iff.2 ⟨(hleft x).trans (hp x), (hright x).trans (hq x)⟩

end Joins

/-! ## The private operation -/

section PrivateOp

variable {n e p q m : Nat} {values : CrtValues}

theorem publicOp_mul (n e x y : Nat) :
    publicOp n e x * publicOp n e y % n = publicOp n e (x * y) := by
  simp only [publicOp, powMod_eq]
  rw [← Nat.mul_mod, ← mul_pow]

theorem publicOp_lt (hn : 0 < n) (e m : Nat) : publicOp n e m < n := by
  rw [publicOp, powMod_eq]
  exact Nat.mod_lt _ hn

/-- Where joining undoes the public operation, so does the private one: the blinding is undone with
the rest, and cancels. -/
theorem privateOp_publicOp_of_crtPower (hm : m < n)
    (h : ∀ x : Nat, crtPower p q values (publicOp n e x) ≡ x [MOD n]) (blinding : Nat) :
    privateOp n e p q values blinding (publicOp n e m) = .ok m := by
  have hpos : 0 < n := Nat.zero_lt_of_lt hm
  have hcancel := blindingPair_mul_modEq hpos blinding
  unfold privateOp
  rw [if_neg (Nat.not_le_of_lt (publicOp_lt hpos e m))]
  generalize blindingPair n blinding = pair at hcancel ⊢
  obtain ⟨r, inverse⟩ := pair
  simp only at hcancel ⊢
  have hresult : crtPower p q values (publicOp n e m * publicOp n e r % n) * inverse ≡ m
      [MOD n] := by
    rw [publicOp_mul]
    calc crtPower p q values (publicOp n e (m * r)) * inverse
        ≡ m * r * inverse [MOD n] := (h (m * r)).mul_right inverse
      _ = m * (r * inverse) := mul_assoc _ _ _
      _ ≡ m * 1 [MOD n] := hcancel.mul_left m
      _ = m := mul_one m
  rw [hresult, Nat.mod_eq_of_lt hm, if_pos rfl]

/-- Zero has no inverse, so that nothing is blinded with it. -/
theorem blindingPair_zero (hn : 1 < n) : blindingPair n 0 = (1, 1) := by
  unfold blindingPair
  cases hinverse : inverseMod? 0 n with
  | none => rfl
  | some inverse =>
    have hproduct := (of_inverseMod?_eq_some (Nat.zero_lt_of_lt hn) hinverse).2
    rw [zero_mul, Nat.ModEq, Nat.zero_mod, Nat.mod_eq_of_lt hn] at hproduct
    cases hproduct

theorem crtPower_modEq_of_privateOp {c : Nat} (hn : 1 < n)
    (h : privateOp n e p q values 0 c = .ok m) : crtPower p q values c ≡ m [MOD n] := by
  unfold privateOp at h
  rw [blindingPair_zero hn] at h
  split at h
  case isTrue => cases h
  case isFalse hlt =>
    have hc : c * publicOp n e 1 % n = c := by
      rw [publicOp, powMod_eq, one_pow, Nat.mod_eq_of_lt hn, mul_one,
        Nat.mod_eq_of_lt (Nat.lt_of_not_le hlt)]
    simp only [hc, mul_one] at h
    split at h
    case isTrue =>
      cases h
      exact (Nat.mod_modEq _ _).symm
    case isFalse => cases h

/-- Exactly when the private operation undoes the public one on every residue. -/
theorem forall_privateOp_publicOp_iff (h : Joins n p q values) (hp : 1 < e * values.dp)
    (hq : 1 < e * values.dq) :
    (∀ m, m < n → ∀ blinding, privateOp n e p q values blinding (publicOp n e m) = .ok m) ↔
      Restores p (e * values.dp) ∧ Restores q (e * values.dq) := by
  rw [← forall_pow_modEq_self_iff hp, ← forall_pow_modEq_self_iff hq,
    ← h.forall_crtPower_publicOp_iff]
  constructor
  · intro hall x
    have hlt : x % n < n := Nat.mod_lt x (Nat.zero_lt_of_lt h.one_lt_modulus)
    have hreduced := crtPower_modEq_of_privateOp h.one_lt_modulus (hall (x % n) hlt 0)
    have hsame : publicOp n e (x % n) = publicOp n e x := by
      rw [publicOp, publicOp, powMod_eq, powMod_eq, ← Nat.pow_mod]
    rw [← hsame]
    exact hreduced.trans (Nat.mod_modEq x n)
  · intro hall m hm blinding
    exact privateOp_publicOp_of_crtPower hm hall blinding

end PrivateOp

end Keyring.Rsa
