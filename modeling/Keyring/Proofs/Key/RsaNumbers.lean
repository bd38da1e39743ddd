import Keyring.Proofs.Key.Reachable
import Keyring.Proofs.Ranged

/-!
# What RSA private keys are loaded from

Loading a private key reduces the private exponent for each factor less one, and a product modulo
the first factor. That the factors are more than one is tested before, so that each of these steps
has a result. Main statement: loading a private key only takes steps that have a result; it succeeds
just for numbers that fit together; and the values that speed up the private operation are
determined by the others, so that no other values load.
-/

namespace Keyring

namespace Rsa

/-! ## Steps with a result -/

/-- The remainder by a factor less one. -/
def modPred? (a factor : Nat) : Ranged Nat := do
  Ranged.mod? a (← Ranged.sub? factor 1)

/-- Whether values belong to the factors and the private exponent, with every step checked; a test
is only made after the one before it. -/
def CrtValues.fitsRanged (values : CrtValues) (p q d : Nat) : Ranged Bool := do
  let dp ← modPred? d p
  if values.dp = dp then do
    let dq ← modPred? d q
    if values.dq = dq then
      if values.qinv < p then do
        let product ← Ranged.mod? (values.qinv * q) p
        .within (.ok (product == 1))
      else .within (.ok false)
    else .within (.ok false)
  else .within (.ok false)

/-- Refuses a private exponent that does not undo the public one, with every step checked. -/
def checkPrivateRanged (e d p q : Nat) : Ranged Unit := do
  let left ← modPred? (d * e) p
  if left = 1 then do
    let right ← modPred? (d * e) q
    if right = 1 then .within (.ok ()) else .within (.error (.rsa .invalidExponent))
  else .within (.error (.rsa .invalidExponent))

section Ranged

variable {p q : Nat}

theorem modPred?_of_one_lt {factor : Nat} (h : 1 < factor) (a : Nat) :
    modPred? a factor = .within (.ok (a % (factor - 1))) := by
  unfold modPred?
  rw [Ranged.sub?_of_le (Nat.le_of_lt h), Ranged.within_ok_bind, Ranged.mod?_of_pos (by omega)]

theorem CrtValues.fitsRanged_eq (hp : 1 < p) (hq : 1 < q) (values : CrtValues) (d : Nat) :
    values.fitsRanged p q d = .within (.ok (values.fits p q d)) := by
  unfold fitsRanged fits
  rw [modPred?_of_one_lt hp, Ranged.within_ok_bind]
  by_cases hdp : values.dp = d % (p - 1)
  · rw [if_pos hdp, modPred?_of_one_lt hq, Ranged.within_ok_bind]
    by_cases hdq : values.dq = d % (q - 1)
    · rw [if_pos hdq]
      by_cases hlt : values.qinv < p
      · rw [if_pos hlt, Ranged.mod?_of_pos (by omega), Ranged.within_ok_bind]
        simp [hdp, hdq, hlt]
      · rw [if_neg hlt]
        simp [hlt]
    · rw [if_neg hdq]
      simp [beq_eq_false_iff_ne.2 hdq]
  · rw [if_neg hdp]
    simp [beq_eq_false_iff_ne.2 hdp]

theorem checkPrivateRanged_eq (hp : 1 < p) (hq : 1 < q) (e d : Nat) :
    checkPrivateRanged e d p q = .within (Result.ofFault .rsa (checkPrivate e d p q)) := by
  unfold checkPrivateRanged checkPrivate
  rw [modPred?_of_one_lt hp, Ranged.within_ok_bind]
  by_cases hleft : d * e % (p - 1) = 1
  · rw [if_pos hleft, modPred?_of_one_lt hq, Ranged.within_ok_bind]
    by_cases hright : d * e % (q - 1) = 1
    · rw [if_pos hright, if_pos ⟨hleft, hright⟩]
      rfl
    · rw [if_neg hright, if_neg fun hboth => hright hboth.2]
      rfl
  · rw [if_neg hleft, if_neg fun hboth => hleft hboth.1]
    rfl

end Ranged

/-! ## The values of a key -/

/-- What it is for values to belong to the factors and the private exponent. -/
theorem CrtValues.fits_iff {values : CrtValues} {p q d : Nat} (hp : 1 < p) :
    values.fits p q d = true ↔ values.dp = d % (p - 1) ∧ values.dq = d % (q - 1) ∧
      values.qinv < p ∧ values.qinv * q ≡ 1 [MOD p] := by
  simp only [fits, Bool.and_eq_true, beq_iff_eq, decide_eq_true_eq, and_assoc, Nat.ModEq,
    Nat.mod_eq_of_lt hp]

/-- The values are determined: an inverse modulo the first factor is the only one below it, whether
or not the factor is prime. -/
theorem CrtValues.eq_of_fits {values values' : CrtValues} {p q d : Nat} (hp : 1 < p)
    (h : values.fits p q d = true) (h' : values'.fits p q d = true) : values' = values := by
  obtain ⟨hdp, hdq, hlt, hinverse⟩ := (fits_iff hp).1 h
  obtain ⟨hdp', hdq', hlt', hinverse'⟩ := (fits_iff hp).1 h'
  have hcoprime : Nat.gcd p q = 1 := by
    rw [mul_comm] at hinverse
    exact (Nat.coprime_of_mul_modEq_one _ hinverse).symm
  have hqinv : values'.qinv ≡ values.qinv [MOD p] :=
    Nat.ModEq.cancel_right_of_coprime hcoprime (hinverse'.trans hinverse.symm)
  obtain ⟨dp, dq, qinv⟩ := values
  obtain ⟨dp', dq', qinv'⟩ := values'
  rw [CrtValues.mk.injEq]
  exact ⟨hdp'.trans hdp.symm, hdq'.trans hdq.symm, hqinv.eq_of_lt_of_lt hlt' hlt⟩

/-- A factor of an odd number other than one is not two, so that its predecessor is not one. -/
theorem one_lt_pred_of_dvd {n factor : Nat} (hn : Odd n) (hdvd : factor ∣ n) (h : 1 < factor) :
    1 < factor - 1 := by
  have hodd : Odd factor := hn.of_dvd_nat hdvd
  rw [Nat.odd_iff] at hodd
  omega

end Rsa

namespace RsaPrivateKey

/-! ## Loading -/

/-- The key of numbers, with every step checked. -/
def ofNumbersRanged (publicKey : RsaPublicKey) (d p q : Nat) (crt : Rsa.CrtValues) (size : Nat) :
    Ranged RsaPrivateKey := do
  .within (keyType.checkSize size)
  if size ≠ publicKey.size then .within (.error .invalidKeySize)
  else if p ≤ 1 ∨ q ≤ 1 ∨ p * q ≠ publicKey.n then .within (.error .invalidKey)
  else do
    if ← crt.fitsRanged p q d then do
      .within (Result.ofFault .rsa (Rsa.checkPublic publicKey.n publicKey.e))
      Rsa.checkPrivateRanged publicKey.e d p q
      .within (.ok ⟨publicKey, d, p, q, crt, size⟩)
    else .within (.error .invalidKey)

/-- The test of the factors comes before every step that needs it. -/
theorem ofNumbersRanged_eq (publicKey : RsaPublicKey) (d p q : Nat) (crt : Rsa.CrtValues)
    (size : Nat) :
    ofNumbersRanged publicKey d p q crt size = .within (ofNumbers publicKey d p q crt size) := by
  unfold ofNumbersRanged ofNumbers
  cases keyType.checkSize size with
  | error error => rfl
  | ok value =>
    rw [Ranged.within_ok_bind]
    show _ = Ranged.within (if size ≠ publicKey.size then _ else _)
    split
    case isTrue => rfl
    case isFalse =>
      split
      case isTrue => rfl
      case isFalse hfactors =>
        have hp : 1 < p := by omega
        have hq : 1 < q := by omega
        rw [Rsa.CrtValues.fitsRanged_eq hp hq, Ranged.within_ok_bind]
        split
        case isFalse => rfl
        case isTrue =>
          rw [Rsa.checkPrivateRanged_eq hp hq]
          cases Rsa.checkPublic publicKey.n publicKey.e with
          | error fault => rfl
          | ok value =>
            cases Rsa.checkPrivate publicKey.e d p q with
            | error fault => rfl
            | ok value => rfl

/-- What is checked of a key with a public half that was checked is that its numbers fit together.
Remainders of one and congruence to one are the same here, as the factors are odd. -/
theorem checked_iff {key : RsaPrivateKey} (hpublic : key.publicKey.Checked) :
    key.Checked ↔
      key.size ∈ [512, 768, 1024, 2048, 4096] ∧ key.size = key.publicKey.size ∧
      1 < key.p ∧ 1 < key.q ∧ key.p * key.q = key.publicKey.n ∧
      key.crt.dp = key.d % (key.p - 1) ∧ key.crt.dq = key.d % (key.q - 1) ∧
      key.crt.qinv < key.p ∧ key.crt.qinv * key.q ≡ 1 [MOD key.p] ∧
      key.publicKey.e * key.d ≡ 1 [MOD key.p - 1] ∧
      key.publicKey.e * key.d ≡ 1 [MOD key.q - 1] := by
  constructor
  · intro h
    have hwell := h.wellFormed
    exact ⟨h.size_mem, h.size_eq, h.one_lt_p, h.one_lt_q, h.mul_eq, hwell.dp_eq, hwell.dq_eq,
      hwell.qinv_lt, hwell.qinv_mul, hwell.inverts_p, hwell.inverts_q⟩
  · rintro ⟨hmem, hsize, hp, hq, hn, hdp, hdq, hlt, hinverse, hinverts_p, hinverts_q⟩
    have hodd : Odd key.publicKey.n := hpublic.wellFormed.odd_n
    have hpred_p : 1 < key.p - 1 := Rsa.one_lt_pred_of_dvd hodd (hn ▸ Nat.dvd_mul_right _ _) hp
    have hpred_q : 1 < key.q - 1 := Rsa.one_lt_pred_of_dvd hodd (hn ▸ Nat.dvd_mul_left _ _) hq
    have hfits := (Rsa.CrtValues.fits_iff hp).2 ⟨hdp, hdq, hlt, hinverse⟩
    rw [mul_comm] at hinverts_p hinverts_q
    have hprivate := Rsa.checkPrivate_eq_ok.2
      ⟨mod_eq_one_of_modEq hpred_p hinverts_p, mod_eq_one_of_modEq hpred_q hinverts_q⟩
    exact ⟨hpublic, hmem, hsize, hp, hq, hn, hfits, hprivate⟩

/-- Values that do not belong to the other numbers of a key are refused in their place. -/
theorem Checked.ofNumbers_of_not_fits {key : RsaPrivateKey} (h : key.Checked)
    {crt : Rsa.CrtValues} (hfits : ¬ crt.fits key.p key.q key.d = true) :
    ofNumbers key.publicKey key.d key.p key.q crt key.size = .error .invalidKey := by
  have hsize : keyType.checkSize key.size = .ok () := KeyType.checkSize_eq_ok.2 h.size_mem
  have hfactors : ¬ (key.p ≤ 1 ∨ key.q ≤ 1 ∨ key.p * key.q ≠ key.publicKey.n) := by
    have hp := h.one_lt_p
    have hq := h.one_lt_q
    have hn := h.mul_eq
    omega
  unfold ofNumbers
  rw [hsize]
  show (if key.size ≠ key.publicKey.size then _ else _) = _
  rw [if_neg (Decidable.not_not.2 h.size_eq), if_neg hfactors, if_neg hfits]

/-- **Private keys load from numbers that fit together.** For every public key that was obtained and
all other numbers: loading takes no greater number off a smaller one and no remainder by zero; it
succeeds just when the size is a listed one and that of the public key, the factors are more than
one and make the modulus, the values that speed up the private operation are the reduced private
exponents and the inverse of the second factor, and the private exponent undoes the public one for
each factor less one. With other values in the place of those of a key, it is refused. -/
theorem ofNumbers_accepts_iff {publicKey : RsaPublicKey} (hpublic : publicKey.Obtained)
    (d p q : Nat) (crt : Rsa.CrtValues) (size : Nat) :
    ofNumbersRanged publicKey d p q crt size = .within (ofNumbers publicKey d p q crt size) ∧
    (∀ key, ofNumbers publicKey d p q crt size = .ok key ↔
      key = ⟨publicKey, d, p, q, crt, size⟩ ∧
      size ∈ [512, 768, 1024, 2048, 4096] ∧ size = publicKey.size ∧
      1 < p ∧ 1 < q ∧ p * q = publicKey.n ∧
      crt.dp = d % (p - 1) ∧ crt.dq = d % (q - 1) ∧
      crt.qinv < p ∧ crt.qinv * q ≡ 1 [MOD p] ∧
      publicKey.e * d ≡ 1 [MOD p - 1] ∧ publicKey.e * d ≡ 1 [MOD q - 1]) ∧
    ∀ key crt', ofNumbers publicKey d p q crt size = .ok key → crt' ≠ crt →
      ofNumbers publicKey d p q crt' size = .error .invalidKey := by
  refine ⟨ofNumbersRanged_eq publicKey d p q crt size, ?_, ?_⟩
  · intro key
    rw [ofNumbers_eq_ok hpublic.checked, and_comm]
    apply and_congr_right
    rintro rfl
    exact checked_iff hpublic.checked
  · intro key crt' h hother
    obtain ⟨hchecked, rfl⟩ := (ofNumbers_eq_ok hpublic.checked).1 h
    apply hchecked.ofNumbers_of_not_fits
    intro hfits
    exact hother (Rsa.CrtValues.eq_of_fits hchecked.one_lt_p hchecked.fits hfits)

/-- The inverse of the second factor plus the first factor is an inverse too, and is refused. -/
theorem ofNumbers_accepts_iff_nearPowers :
    ofNumbersRanged nearPowers.publicKey nearPowers.d nearPowers.p nearPowers.q nearPowers.crt 512 =
      .within (.ok nearPowers) ∧
    ofNumbers nearPowers.publicKey nearPowers.d nearPowers.p nearPowers.q
      { nearPowers.crt with qinv := nearPowers.crt.qinv + nearPowers.p } 512 =
        .error .invalidKey := by
  obtain ⟨hranged, -, hother⟩ := ofNumbers_accepts_iff (.ofNumbers ofNumbers_publicKey_nearPowers)
    nearPowers.d nearPowers.p nearPowers.q nearPowers.crt 512
  rw [ofNumbers_nearPowers] at hranged
  refine ⟨hranged, hother _ _ ofNumbers_nearPowers ?_⟩
  decide +kernel

end RsaPrivateKey

end Keyring
