import Mathlib.Data.Nat.ChineseRemainder
import Keyring.Proofs.Modular
import Keyring.Rsa.Primitive

/-!
# Factors that are prime

With prime factors the private exponent undoes the public one on every number below the modulus,
also on multiples of a factor. The two powers modulo the factors join to the power modulo their
product, and the blinding cancels. Main statement: the private operation never fails, and gives the
power by the private exponent, which is the only number that the public operation takes to its
input.
-/

namespace Keyring.Rsa

/-! ## Joining two powers -/

section Join

variable {p q : Nat} {values : CrtValues}

theorem crtPower_modEq_right (p q : Nat) (values : CrtValues) (c : Nat) :
    crtPower p q values c ≡ c ^ values.dq [MOD q] := by
  unfold crtPower
  rw [powMod_eq, powMod_eq]
  calc c ^ values.dq % q + _ * q ≡ c ^ values.dq % q + 0 [MOD q] :=
        (Nat.modEq_zero_iff_dvd.2 (Nat.dvd_mul_left q _)).add_left _
    _ ≡ c ^ values.dq [MOD q] := Nat.mod_modEq _ _

/-- Adding to the second result a multiple of the second factor gives the first result: the inverse
of the second factor takes it away from the difference of the two. -/
theorem join_modEq_left {qinv : Nat} (hp : 0 < p) (hinverse : qinv * q ≡ 1 [MOD p]) (m₁ m₂ : Nat) :
    m₂ + qinv * (((m₁ : Int) - m₂) % p).toNat % p * q ≡ m₁ [MOD p] := by
  have hpos : (0 : Int) < p := by exact_mod_cast hp
  have hdifference : ((((m₁ : Int) - m₂) % p).toNat : Int) ≡ m₁ - m₂ [ZMOD p] := by
    rw [Int.toNat_of_nonneg (Int.emod_nonneg _ hpos.ne')]
    exact Int.mod_modEq _ _
  have hone : (qinv : Int) * q ≡ 1 [ZMOD p] := by
    exact_mod_cast Int.natCast_modEq_iff.2 hinverse
  generalize (((m₁ : Int) - m₂) % p).toNat = difference at hdifference ⊢
  have hreduce : m₂ + qinv * difference % p * q ≡ m₂ + qinv * difference * q [MOD p] :=
    ((Nat.mod_modEq _ _).mul_right q).add_left m₂
  have hjoin : (m₂ : Int) + qinv * difference * q ≡ m₁ [ZMOD p] := by
    calc (m₂ : Int) + qinv * difference * q = m₂ + qinv * q * difference := by ring
      _ ≡ m₂ + 1 * (m₁ - m₂) [ZMOD p] := (hone.mul hdifference).add_left _
      _ = m₁ := by ring
  exact hreduce.trans (Int.natCast_modEq_iff.1 (by exact_mod_cast hjoin))

theorem crtPower_modEq_left (hp : 0 < p) (hinverse : values.qinv * q ≡ 1 [MOD p]) (c : Nat) :
    crtPower p q values c ≡ c ^ values.dp [MOD p] := by
  unfold crtPower
  rw [powMod_eq, powMod_eq]
  exact (join_modEq_left hp hinverse _ _).trans (Nat.mod_modEq _ _)

end Join

/-! ## The private exponent -/

/-- A private exponent that inverts the public one modulo a prime less one undoes it modulo the
prime. -/
theorem pow_modEq_self {p e d : Nat} (hp : p.Prime) (h : d * e % (p - 1) = 1) (x : Nat) :
    x ^ (d * e) ≡ x [MOD p] := by
  have hreduce := pow_mod_pred_modEq hp (by omega : d * e % (p - 1) ≠ 0) x
  rw [h, pow_one] at hreduce
  exact hreduce.symm

theorem mod_pred_ne_zero {p e d : Nat} (h : d * e % (p - 1) = 1) : d % (p - 1) ≠ 0 := by
  intro hzero
  rw [Nat.mul_mod, hzero, Nat.zero_mul, Nat.zero_mod] at h
  cases h

/-- The numbers of a key whose factors are prime: the factors are different, and the private
exponent inverts the public one modulo each of them less one. -/
structure Genuine (n e d p q : Nat) : Prop where
  prime_p : p.Prime
  prime_q : q.Prime
  coprime : Nat.Coprime p q
  mul_eq : p * q = n
  inverts_p : d * e % (p - 1) = 1
  inverts_q : d * e % (q - 1) = 1

namespace Genuine

variable {n e d p q c m : Nat} {values : CrtValues}

theorem modEq_iff (h : Genuine n e d p q) {a b : Nat} :
    a ≡ b [MOD n] ↔ a ≡ b [MOD p] ∧ a ≡ b [MOD q] := by
  rw [← h.mul_eq]
  exact (Nat.modEq_and_modEq_iff_modEq_mul h.coprime).symm

theorem modulus_pos (h : Genuine n e d p q) : 0 < n := by
  rw [← h.mul_eq]
  exact Nat.mul_pos h.prime_p.pos h.prime_q.pos

/-- The private exponent undoes the public one on every residue. -/
theorem pow_modEq (h : Genuine n e d p q) (x : Nat) : x ^ (d * e) ≡ x [MOD n] :=
  h.modEq_iff.2 ⟨pow_modEq_self h.prime_p h.inverts_p x, pow_modEq_self h.prime_q h.inverts_q x⟩

/-- The public operation takes just one number below the modulus to a given one. -/
theorem publicOp_eq_iff (h : Genuine n e d p q) (hc : c < n) (hm : m < n) :
    publicOp n e m = c ↔ m = c ^ d % n := by
  unfold publicOp
  rw [powMod_eq]
  constructor
  · intro hpublic
    have hpower : m ^ e ≡ c [MOD n] := by
      rw [Nat.ModEq, hpublic, Nat.mod_eq_of_lt hc]
    have hroot : m ≡ c ^ d [MOD n] := by
      calc m ≡ m ^ (d * e) [MOD n] := (h.pow_modEq m).symm
        _ = (m ^ e) ^ d := by rw [mul_comm, pow_mul]
        _ ≡ c ^ d [MOD n] := hpower.pow d
    rw [← Nat.mod_eq_of_lt hm]
    exact hroot
  · rintro rfl
    have hpower : (c ^ d % n) ^ e ≡ c [MOD n] := by
      calc (c ^ d % n) ^ e ≡ (c ^ d) ^ e [MOD n] := (Nat.mod_modEq _ _).pow e
        _ = c ^ (d * e) := (pow_mul c d e).symm
        _ ≡ c [MOD n] := h.pow_modEq c
    rw [hpower, Nat.mod_eq_of_lt hc]

/-! ## The private operation -/

/-- Working modulo each factor gives the power by the private exponent. -/
theorem crtPower_modEq (h : Genuine n e d p q) (hfits : values.fits p q d) (c : Nat) :
    crtPower p q values c ≡ c ^ d [MOD n] := by
  simp only [CrtValues.fits, Bool.and_eq_true, beq_iff_eq, decide_eq_true_eq] at hfits
  obtain ⟨⟨⟨hdp, hdq⟩, -⟩, hqinv⟩ := hfits
  have hinverse : values.qinv * q ≡ 1 [MOD p] := by
    rw [Nat.ModEq, hqinv, Nat.mod_eq_of_lt h.prime_p.one_lt]
  apply h.modEq_iff.2
  constructor
  · refine (crtPower_modEq_left h.prime_p.pos hinverse c).trans ?_
    rw [hdp]
    exact pow_mod_pred_modEq h.prime_p (mod_pred_ne_zero h.inverts_p) c
  · refine (crtPower_modEq_right p q values c).trans ?_
    rw [hdq]
    exact pow_mod_pred_modEq h.prime_q (mod_pred_ne_zero h.inverts_q) c

end Genuine

/-- The two halves of a blinding cancel. -/
theorem blindingPair_mul_modEq {n : Nat} (hn : 0 < n) (candidate : Nat) :
    (blindingPair n candidate).1 * (blindingPair n candidate).2 ≡ 1 [MOD n] := by
  unfold blindingPair
  cases hinverse : inverseMod? candidate n with
  | none => exact Nat.ModEq.refl 1
  | some inverse =>
    have hproduct := (of_inverseMod?_eq_some hn hinverse).2
    exact ((Nat.mod_modEq _ _).mul_right inverse).trans hproduct

/-- For prime factors the private operation gives the power by the private exponent, whatever the
blinding. -/
theorem Genuine.privateOp_eq {n e d p q c : Nat} {values : CrtValues} (h : Genuine n e d p q)
    (hfits : values.fits p q d) (hc : c < n) (blinding : Nat) :
    privateOp n e p q values blinding c = .ok (c ^ d % n) := by
  have hcancel := blindingPair_mul_modEq h.modulus_pos blinding
  unfold privateOp
  rw [if_neg (Nat.not_le_of_lt hc)]
  generalize blindingPair n blinding = pair at hcancel ⊢
  obtain ⟨r, inverse⟩ := pair
  simp only at hcancel ⊢
  -- the power by the public exponent is undone, which leaves the blinding itself
  have hblinded : c * publicOp n e r % n ≡ c * r ^ e [MOD n] := by
    unfold publicOp
    rw [powMod_eq]
    exact (Nat.mod_modEq _ _).trans ((Nat.mod_modEq _ _).mul_left c)
  have hresult : crtPower p q values (c * publicOp n e r % n) * inverse ≡ c ^ d [MOD n] := by
    calc crtPower p q values (c * publicOp n e r % n) * inverse
        ≡ (c * publicOp n e r % n) ^ d * inverse [MOD n] :=
          (h.crtPower_modEq hfits _).mul_right inverse
      _ ≡ (c * r ^ e) ^ d * inverse [MOD n] := (hblinded.pow d).mul_right inverse
      _ = c ^ d * (r ^ (d * e) * inverse) := by
          rw [mul_pow, ← pow_mul, mul_comm e d, mul_assoc]
      _ ≡ c ^ d * (r * inverse) [MOD n] := ((h.pow_modEq r).mul_right inverse).mul_left _
      _ ≡ c ^ d * 1 [MOD n] := hcancel.mul_left _
      _ = c ^ d := mul_one _
  rw [hresult, if_pos ((h.publicOp_eq_iff hc (Nat.mod_lt _ h.modulus_pos)).2 rfl)]

end Keyring.Rsa
