import Keyring.Dsa.Primitive
import Keyring.Proofs.Modular

/-!
# Pairs that verify

The second number of a signature is made so that the two exponents of verification, counted along
the order of the generator, add up to the secret number. So verification makes the same power of the
generator as signing did, and a pair fails only for want of an inverse of its second number. A prime
order leaves no such pair; nothing is asked of the modulus.
-/

namespace Keyring.Dsa

variable {n : Numbers} {x z k inverse r s : Nat}

/-- The secret number of any attempt is a candidate, and comes with its inverse. -/
theorem exists_candidate_of_secret? {q attempts : Nat} {entropy : Entropy}
    (h : secret? q attempts entropy = some (k, inverse)) :
    (∃ bytes, k = candidate q bytes) ∧ inverseMod? k q = some inverse := by
  induction attempts generalizing entropy with
  | zero => cases h
  | succ attempts ih =>
    rw [secret?] at h
    cases hdraw : Entropy.draw? attemptLength entropy with
    | none =>
      rw [hdraw] at h
      cases h
    | some drawn =>
      obtain ⟨bytes, rest⟩ := drawn
      rw [hdraw] at h
      simp only at h
      cases hinverse : inverseMod? (candidate q bytes) q with
      | none =>
        rw [hinverse] at h
        exact ih h
      | some found =>
        rw [hinverse] at h
        cases h
        exact ⟨⟨bytes, rfl⟩, hinverse⟩

theorem of_secret?_eq_some {q attempts : Nat} {entropy : Entropy}
    (h : secret? q attempts entropy = some (k, inverse)) : inverseMod? k q = some inverse :=
  (exists_candidate_of_secret? h).2

theorem candidate_pos (q : Nat) (bytes : Bytes) : 0 < candidate q bytes :=
  Nat.succ_pos _

theorem candidate_lt {q : Nat} (hq : 1 < q) (bytes : Bytes) : candidate q bytes < q := by
  have hlt : (Bytes.toNatLittle (bytes.take 24) + 2 ^ 192 * Bytes.toNatLittle (bytes.drop 28)) %
      (q - 1) < q - 1 := Nat.mod_lt _ (by omega)
  simp only [candidate]
  omega

/-- A signature is a pair of positive numbers below the order. -/
theorem of_signWith?_eq_some (hq : 0 < n.q) (h : signWith? n x z k inverse = some (r, s)) :
    r = n.g ^ k % n.p % n.q ∧ s = inverse * (z + x * r) % n.q ∧
      (0 < r ∧ r < n.q) ∧ 0 < s ∧ s < n.q := by
  unfold signWith? at h
  rw [powMod_eq] at h
  simp only at h
  split at h
  case isTrue => cases h
  case isFalse hnonzero =>
    cases h
    rw [not_or] at hnonzero
    exact ⟨rfl, rfl, ⟨Nat.pos_of_ne_zero hnonzero.1, Nat.mod_lt _ hq⟩,
      Nat.pos_of_ne_zero hnonzero.2, Nat.mod_lt _ hq⟩

/-- Verification, once the inverse of the second number is known. -/
theorem verify_iff {w : Nat} (hr : r < n.q) (hs : s < n.q) (hw : inverseMod? s n.q = some w) :
    verify n z r s = true ↔
      n.g ^ (z * w % n.q) * n.y ^ (r * w % n.q) % n.p % n.q = r := by
  have hrange : ¬ (n.q ≤ r ∨ n.q ≤ s) := by omega
  unfold verify
  rw [if_neg hrange, hw]
  simp only [powMod_eq, beq_iff_eq]
  rw [← Nat.mul_mod]

/-- The exponents of verification add up to the secret number, along the order. -/
theorem exponents_modEq {q w : Nat} (hk : k * inverse ≡ 1 [MOD q]) (hw : s * w ≡ 1 [MOD q])
    (hs : s ≡ inverse * (z + x * r) [MOD q]) :
    z * w % q + x * (r * w % q) ≡ k [MOD q] := by
  have hsecret : k * s ≡ z + x * r [MOD q] := by
    calc k * s ≡ k * (inverse * (z + x * r)) [MOD q] := hs.mul_left k
      _ = k * inverse * (z + x * r) := (mul_assoc _ _ _).symm
      _ ≡ 1 * (z + x * r) [MOD q] := hk.mul_right _
      _ = z + x * r := one_mul _
  calc z * w % q + x * (r * w % q)
      ≡ z * w + x * (r * w) [MOD q] := (Nat.mod_modEq _ _).add ((Nat.mod_modEq _ _).mul_left x)
    _ = (z + x * r) * w := by ring
    _ ≡ k * s * w [MOD q] := hsecret.symm.mul_right w
    _ = k * (s * w) := mul_assoc _ _ _
    _ ≡ k * 1 [MOD q] := hw.mul_left k
    _ = k := mul_one k

/-- The powers of verification make one power of the generator, if the public number is one. -/
theorem pow_mul_pow_modEq (hy : n.y ≡ n.g ^ x [MOD n.p]) (u₁ u₂ : Nat) :
    n.g ^ u₁ * n.y ^ u₂ ≡ n.g ^ (u₁ + x * u₂) [MOD n.p] := by
  calc n.g ^ u₁ * n.y ^ u₂ ≡ n.g ^ u₁ * (n.g ^ x) ^ u₂ [MOD n.p] := (hy.pow u₂).mul_left _
    _ = n.g ^ (u₁ + x * u₂) := by rw [← pow_mul, ← pow_add]

/-- Exactly when what is signed verifies, whatever the order and the generator. -/
theorem verify_of_signWith_iff (hq : 0 < n.q) (hy : n.y ≡ n.g ^ x [MOD n.p])
    (h : signWith? n x z k inverse = some (r, s)) :
    verify n z r s = true ↔ ∃ w, w < n.q ∧ s * w ≡ 1 [MOD n.q] ∧
      n.g ^ (z * w % n.q + x * (r * w % n.q)) % n.p % n.q = r := by
  obtain ⟨-, -, ⟨-, hr⟩, -, hs⟩ := of_signWith?_eq_some hq h
  have hpower (w : Nat) : n.g ^ (z * w % n.q) * n.y ^ (r * w % n.q) % n.p =
      n.g ^ (z * w % n.q + x * (r * w % n.q)) % n.p := pow_mul_pow_modEq hy _ _
  constructor
  · intro hverify
    cases hw : inverseMod? s n.q with
    | none =>
      unfold verify at hverify
      rw [if_neg (by omega), hw] at hverify
      cases hverify
    | some w =>
      obtain ⟨hlt, hmul⟩ := of_inverseMod?_eq_some hq hw
      refine ⟨w, hlt, hmul, ?_⟩
      rw [← hpower]
      exact (verify_iff hr hs hw).1 hverify
  · rintro ⟨w, hlt, hmul, hsame⟩
    apply (verify_iff hr hs ((inverseMod?_eq_some_iff hq).2 ⟨hlt, hmul⟩)).2
    rw [hpower]
    exact hsame

/-- If the power of the generator by the order is one, then only the inverse can be missing. -/
theorem verify_of_signWith_iff_coprime (hq : 0 < n.q) (hg : n.g ^ n.q ≡ 1 [MOD n.p])
    (hy : n.y ≡ n.g ^ x [MOD n.p]) (hk : inverseMod? k n.q = some inverse)
    (h : signWith? n x z k inverse = some (r, s)) :
    verify n z r s = true ↔ Nat.Coprime s n.q := by
  rw [verify_of_signWith_iff hq hy h]
  constructor
  · rintro ⟨w, -, hmul, -⟩
    exact Nat.coprime_of_mul_modEq_one w hmul
  · intro hcoprime
    obtain ⟨hr, hs, -⟩ := of_signWith?_eq_some hq h
    obtain ⟨w, hw⟩ := exists_inverseMod?_eq_some hq hcoprime
    obtain ⟨hlt, hmul⟩ := of_inverseMod?_eq_some hq hw
    have hsecond : s ≡ inverse * (z + x * r) [MOD n.q] := by
      rw [hs]
      exact Nat.mod_modEq _ _
    have hexponents := exponents_modEq (of_inverseMod?_eq_some hq hk).2 hmul hsecond
    refine ⟨w, hlt, hmul, ?_⟩
    generalize z * w % n.q + x * (r * w % n.q) = exponent at hexponents ⊢
    have hpower : n.g ^ exponent ≡ n.g ^ k [MOD n.p] := by
      calc n.g ^ exponent ≡ n.g ^ (exponent % n.q) [MOD n.p] := (pow_mod_modEq hg _).symm
        _ = n.g ^ (k % n.q) := by rw [hexponents]
        _ ≡ n.g ^ k [MOD n.p] := pow_mod_modEq hg k
    rw [hpower, ← hr]

/-- What is signed verifies: for a prime order of the generator, and a public number that is the
power of the generator by the private one. -/
theorem verify_of_signWith (hq : n.q.Prime) (hg : n.g ^ n.q ≡ 1 [MOD n.p])
    (hy : n.y ≡ n.g ^ x [MOD n.p]) (hk : inverseMod? k n.q = some inverse)
    (h : signWith? n x z k inverse = some (r, s)) : verify n z r s = true := by
  obtain ⟨-, -, -, hpos, hlt⟩ := of_signWith?_eq_some hq.pos h
  rw [verify_of_signWith_iff_coprime hq.pos hg hy hk h]
  exact (Nat.coprime_of_lt_prime hpos.ne' hlt hq).symm

end Keyring.Dsa
