import Keyring.Proofs.Key.RsaNumbers

/-!
# Values for a prime factor

The inverse of the second factor is derived as a power, and tested as an inverse. For a prime first
factor that does not divide the second one, the power is an inverse by Fermat's theorem, and it is
the only one that is reduced. Main statement: the values that pass the test are just the derived
ones, so that a key which was put together with derived values never fails for them when it is
loaded again.
-/

namespace Keyring

namespace Rsa

variable {p q d : Nat}

/-- The values for a prime first factor, with every difference and every remainder checked. -/
def CrtValues.computeRanged (p q d : Nat) : Ranged CrtValues := do
  let dp ← modPred? d p
  let dq ← modPred? d q
  let exponent ← Ranged.sub? p 2
  let qinv ← Ranged.powMod? q exponent p
  .within (.ok ⟨dp, dq, qinv⟩)

theorem CrtValues.computeRanged_eq (hp : 1 < p) (hq : 1 < q) (d : Nat) :
    computeRanged p q d = .within (.ok (compute p q d)) := by
  rw [computeRanged, modPred?_of_one_lt hp, Ranged.within_ok_bind, modPred?_of_one_lt hq,
    Ranged.within_ok_bind, Ranged.sub?_of_le hp, Ranged.within_ok_bind,
    Ranged.powMod?_of_pos (Nat.lt_of_succ_lt hp), Ranged.within_ok_bind]
  rfl

/-- Fermat's theorem, with one of the factors split off. -/
theorem pow_sub_two_mul_modEq_one (hp : p.Prime) (hdvd : ¬ p ∣ q) :
    q ^ (p - 2) * q ≡ 1 [MOD p] := by
  have hexponent : p - 2 + 1 = p - 1 := by
    have htwo := hp.two_le
    omega
  calc q ^ (p - 2) * q = q ^ (p - 1) := by rw [← pow_succ, hexponent]
    _ ≡ 1 [MOD p] := pow_pred_modEq_one hp hdvd

theorem CrtValues.fits_compute (hp : p.Prime) (hdvd : ¬ p ∣ q) (d : Nat) :
    (compute p q d).fits p q d = true := by
  have hqinv : (compute p q d).qinv = q ^ (p - 2) % p := powMod_eq q (p - 2) p
  rw [fits_iff hp.one_lt, hqinv]
  exact ⟨rfl, rfl, Nat.mod_lt _ hp.pos,
    ((Nat.mod_modEq _ _).mul_right q).trans (pow_sub_two_mul_modEq_one hp hdvd)⟩

/-- The derived values are the only ones that pass the test. -/
theorem CrtValues.fits_iff_eq_compute (hp : p.Prime) (hdvd : ¬ p ∣ q) (values : CrtValues) :
    values.fits p q d = true ↔ values = compute p q d := by
  constructor
  · exact eq_of_fits hp.one_lt (fits_compute hp hdvd d)
  · rintro rfl
    exact fits_compute hp hdvd d

end Rsa

namespace RsaPrivateKey

/-- The keys that load from their own records are those that pass the tests of loading. -/
theorem ofRecordText_recordText_iff {key : RsaPrivateKey} :
    ofRecordText key.recordText = .ok key ↔ key.Checked :=
  ⟨fun h => (Obtained.ofRecordText h).checked, ofRecordText_recordText⟩

/-- **Derived values pass the test.** For every prime first factor, every second factor that is more
than one and no multiple of it, and every private exponent: the values that belong to them are just
those derived from them; deriving them never takes a greater number off a smaller one and divides by
nothing that is zero; and a key with the derived values and a public half that was obtained loads
from its record exactly when the size is a listed one and that of the public half, the factors make
the modulus, and the private exponent undoes the public one for each factor less one. -/
theorem fits_just_derived_values {p q : Nat} (hp : p.Prime) (hq : 1 < q) (hdvd : ¬ p ∣ q)
    (d : Nat) :
    (∀ values : Rsa.CrtValues, values.fits p q d = true ↔ values = .compute p q d) ∧
    Rsa.CrtValues.computeRanged p q d = .within (.ok (.compute p q d)) ∧
    ∀ (publicKey : RsaPublicKey) (size : Nat), publicKey.Obtained →
      let key : RsaPrivateKey := ⟨publicKey, d, p, q, .compute p q d, size⟩
      ofRecordText key.recordText = .ok key ↔
        size ∈ [512, 768, 1024, 2048, 4096] ∧ size = publicKey.size ∧ p * q = publicKey.n ∧
          publicKey.e * d ≡ 1 [MOD p - 1] ∧ publicKey.e * d ≡ 1 [MOD q - 1] := by
  refine ⟨Rsa.CrtValues.fits_iff_eq_compute hp hdvd,
    Rsa.CrtValues.computeRanged_eq hp.one_lt hq d, ?_⟩
  intro publicKey size hpublic key
  obtain ⟨hdp, hdq, hlt, hinverse⟩ :=
    (Rsa.CrtValues.fits_iff hp.one_lt).1 (Rsa.CrtValues.fits_compute hp hdvd d)
  rw [ofRecordText_recordText_iff, @checked_iff key hpublic.checked]
  constructor
  · rintro ⟨hmem, hsize, -, -, hn, -, -, -, -, hinverts_p, hinverts_q⟩
    exact ⟨hmem, hsize, hn, hinverts_p, hinverts_q⟩
  · rintro ⟨hmem, hsize, hn, hinverts_p, hinverts_q⟩
    exact ⟨hmem, hsize, hp.one_lt, hq, hn, hdp, hdq, hlt, hinverse, hinverts_p, hinverts_q⟩

/-- The least prime beside a greater second factor, which need not be prime, and a key with two
prime factors. -/
theorem fits_just_derived_values_two :
    ((⟨0, 5, 1⟩ : Rsa.CrtValues).fits 2 9 5 = true ∧
      Rsa.CrtValues.computeRanged 2 9 5 = .within (.ok ⟨0, 5, 1⟩)) ∧
    ofRecordText smoothFactors.recordText = .ok smoothFactors := by
  obtain ⟨hfits, hranged, -⟩ :=
    fits_just_derived_values Nat.prime_two (by decide : 1 < 9) (by decide) 5
  obtain ⟨-, -, hreload⟩ := fits_just_derived_values prime_p_smoothFactors
    prime_q_smoothFactors.one_lt (by decide +kernel) smoothFactors.d
  have hpublic : smoothFactors.publicKey.Obtained :=
    .ofNumbers (RsaPublicKey.ofNumbers_eq_ok.2 ⟨obtained_smoothFactors.checked.publicKey, rfl⟩)
  refine ⟨⟨(hfits _).2 rfl, hranged⟩, ?_⟩
  exact (hreload smoothFactors.publicKey 512 hpublic).2 (by decide +kernel)

end RsaPrivateKey

end Keyring
