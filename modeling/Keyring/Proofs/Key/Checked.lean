import Keyring.Key.Dsa
import Keyring.Key.Rsa

/-!
# Keys of checked numbers

DSA and RSA keys are obtained from their numbers or from a record, and each way ends in the same
checks on the numbers. So a key that was obtained is one that its own numbers give again, and every
key whose numbers pass the checks can be obtained from them. Generated keys go through no checks;
that they are among these keys, if they are made of primes, is proved of how they are generated.
-/

namespace Keyring

/-! ## RSA public keys -/

namespace RsaPublicKey

/-- What is checked of the numbers of a public key. -/
structure Checked (key : RsaPublicKey) : Prop where
  size_mem : key.size ∈ KeyType.rsaPublic.acceptableSizes
  bitLength_n : bitLength key.n = key.size
  checkPublic : Rsa.checkPublic key.n key.e = .ok ()

theorem ofNumbers_eq_ok {n e size : Nat} {key : RsaPublicKey} :
    ofNumbers n e size = .ok key ↔ key.Checked ∧ key = ⟨n, e, size⟩ := by
  unfold ofNumbers
  constructor
  · intro h
    obtain ⟨⟨⟩, hsize, h⟩ := Result.bind_eq_ok.1 h
    split at h
    case isTrue => cases h
    case isFalse hlength =>
      obtain ⟨⟨⟩, hpublic, h⟩ := Result.bind_eq_ok.1 h
      cases h
      exact ⟨⟨KeyType.checkSize_eq_ok.1 hsize, Decidable.not_not.1 hlength,
        Result.ofFault_eq_ok.1 hpublic⟩, rfl⟩
  · rintro ⟨⟨hsize, hlength, hpublic⟩, rfl⟩
    apply Result.bind_eq_ok.2
    refine ⟨(), KeyType.checkSize_eq_ok.2 hsize, ?_⟩
    rw [if_neg (Decidable.not_not.2 hlength)]
    apply Result.bind_eq_ok.2
    exact ⟨(), Result.ofFault_eq_ok.2 hpublic, rfl⟩

/-- The ways to come by a public key. -/
inductive Obtained : RsaPublicKey → Prop
  | ofNumbers {n e size : Nat} {key : RsaPublicKey}
    (h : RsaPublicKey.ofNumbers n e size = .ok key) : Obtained key
  | ofRecordText {text : String} {key : RsaPublicKey}
    (h : RsaPublicKey.ofRecordText text = .ok key) : Obtained key

theorem checked_of_ofRecord {record : Record.RsaPublic} {key : RsaPublicKey}
    (h : ofRecord record = .ok key) : key.Checked := by
  obtain ⟨⟨⟩, -, h⟩ := Result.bind_eq_ok.1 h
  obtain ⟨n, -, h⟩ := Result.bind_eq_ok.1 h
  obtain ⟨e, -, h⟩ := Result.bind_eq_ok.1 h
  exact (ofNumbers_eq_ok.1 h).1

theorem Obtained.checked {key : RsaPublicKey} (h : key.Obtained) : key.Checked := by
  cases h with
  | ofNumbers h => exact (ofNumbers_eq_ok.1 h).1
  | ofRecordText h =>
    obtain ⟨record, -, h⟩ := Result.bind_eq_ok.1 h
    exact checked_of_ofRecord h

end RsaPublicKey

/-! ## RSA private keys -/

namespace RsaPrivateKey

/-- What is checked of the numbers of a private key. That the factors are prime is not. -/
structure Checked (key : RsaPrivateKey) : Prop where
  publicKey : key.publicKey.Checked
  size_mem : key.size ∈ KeyType.rsaPrivate.acceptableSizes
  size_eq : key.size = key.publicKey.size
  one_lt_p : 1 < key.p
  one_lt_q : 1 < key.q
  mul_eq : key.p * key.q = key.publicKey.n
  fits : key.crt.fits key.p key.q key.d
  checkPrivate : Rsa.checkPrivate key.publicKey.e key.d key.p key.q = .ok ()

theorem ofNumbers_eq_ok {publicKey : RsaPublicKey} (hpublic : publicKey.Checked) {d p q : Nat}
    {crt : Rsa.CrtValues} {size : Nat} {key : RsaPrivateKey} :
    ofNumbers publicKey d p q crt size = .ok key ↔
      key.Checked ∧ key = ⟨publicKey, d, p, q, crt, size⟩ := by
  unfold ofNumbers
  constructor
  · intro h
    obtain ⟨⟨⟩, hmem, h⟩ := Result.bind_eq_ok.1 h
    split at h
    case isTrue => cases h
    case isFalse hsize =>
      split at h
      case isTrue => cases h
      case isFalse hfactors =>
        split at h
        case isTrue hfits =>
          obtain ⟨⟨⟩, -, h⟩ := Result.bind_eq_ok.1 h
          obtain ⟨⟨⟩, hprivate, h⟩ := Result.bind_eq_ok.1 h
          cases h
          simp only [not_or, Nat.not_le, ne_eq, Decidable.not_not] at hsize hfactors
          exact ⟨⟨hpublic, KeyType.checkSize_eq_ok.1 hmem, hsize, hfactors.1, hfactors.2.1,
            hfactors.2.2, hfits, Result.ofFault_eq_ok.1 hprivate⟩, rfl⟩
        case isFalse => cases h
  · rintro ⟨hkey, rfl⟩
    have hfactors : ¬ (p ≤ 1 ∨ q ≤ 1 ∨ p * q ≠ publicKey.n) := by
      have hp : 1 < p := hkey.one_lt_p
      have hq : 1 < q := hkey.one_lt_q
      have hn : p * q = publicKey.n := hkey.mul_eq
      omega
    apply Result.bind_eq_ok.2
    refine ⟨(), KeyType.checkSize_eq_ok.2 hkey.size_mem, ?_⟩
    rw [if_neg (Decidable.not_not.2 hkey.size_eq), if_neg hfactors, if_pos hkey.fits]
    apply Result.bind_eq_ok.2
    refine ⟨(), Result.ofFault_eq_ok.2 hpublic.checkPublic, ?_⟩
    apply Result.bind_eq_ok.2
    exact ⟨(), Result.ofFault_eq_ok.2 hkey.checkPrivate, rfl⟩

/-- The ways to come by a private key. -/
inductive Obtained : RsaPrivateKey → Prop
  | ofNumbers {publicKey : RsaPublicKey} {d p q : Nat} {crt : Rsa.CrtValues} {size : Nat}
    {key : RsaPrivateKey} (hpublic : publicKey.Obtained)
    (h : RsaPrivateKey.ofNumbers publicKey d p q crt size = .ok key) : Obtained key
  | ofRecordText {text : String} {key : RsaPrivateKey}
    (h : RsaPrivateKey.ofRecordText text = .ok key) : Obtained key

theorem checked_of_ofRecord {record : Record.RsaPrivate} {key : RsaPrivateKey}
    (h : ofRecord record = .ok key) : key.Checked := by
  obtain ⟨⟨⟩, -, h⟩ := Result.bind_eq_ok.1 h
  obtain ⟨publicKey, hpublic, h⟩ := Result.bind_eq_ok.1 h
  obtain ⟨d, -, h⟩ := Result.bind_eq_ok.1 h
  obtain ⟨p, -, h⟩ := Result.bind_eq_ok.1 h
  obtain ⟨q, -, h⟩ := Result.bind_eq_ok.1 h
  obtain ⟨dp, -, h⟩ := Result.bind_eq_ok.1 h
  obtain ⟨dq, -, h⟩ := Result.bind_eq_ok.1 h
  obtain ⟨qinv, -, h⟩ := Result.bind_eq_ok.1 h
  exact ((ofNumbers_eq_ok (RsaPublicKey.checked_of_ofRecord hpublic)).1 h).1

theorem Obtained.checked {key : RsaPrivateKey} (h : key.Obtained) : key.Checked := by
  cases h with
  | ofNumbers hpublic h => exact ((ofNumbers_eq_ok hpublic.checked).1 h).1
  | ofRecordText h =>
    obtain ⟨record, -, h⟩ := Result.bind_eq_ok.1 h
    exact checked_of_ofRecord h

/-- Numbers that pass the checks give their key. -/
theorem Checked.obtained {key : RsaPrivateKey} (h : key.Checked) : key.Obtained := by
  have hpublic : RsaPublicKey.ofNumbers key.publicKey.n key.publicKey.e key.publicKey.size =
      .ok key.publicKey := RsaPublicKey.ofNumbers_eq_ok.2 ⟨h.publicKey, rfl⟩
  exact .ofNumbers (.ofNumbers hpublic) ((ofNumbers_eq_ok h.publicKey).2 ⟨h, rfl⟩)

/-- The key of the primes `2 ^ 256 - 587` and `2 ^ 256 - 617` with the public exponent three. The
second prime is thirty below the first, so its inverse is the one of minus thirty. -/
def nearPowers : RsaPrivateKey :=
  let p := 2 ^ 256 - 587
  let q := 2 ^ 256 - 617
  { publicKey := ⟨p * q, 3, 512⟩
    d := (2 * (p - 1) * (q - 1) + 1) / 3
    p, q
    crt := ⟨(2 * (p - 1) + 1) / 3, (2 * (q - 1) + 1) / 3, (29 * p - 1) / 30⟩
    size := 512 }

theorem ofNumbers_publicKey_nearPowers :
    RsaPublicKey.ofNumbers nearPowers.publicKey.n 3 512 = .ok nearPowers.publicKey :=
  Result.eq_ok_of_toOption (by decide +kernel)

theorem ofNumbers_nearPowers : ofNumbers nearPowers.publicKey nearPowers.d nearPowers.p nearPowers.q
    nearPowers.crt 512 = .ok nearPowers :=
  Result.eq_ok_of_toOption (by decide +kernel)

theorem obtained_nearPowers : nearPowers.Obtained :=
  .ofNumbers (.ofNumbers ofNumbers_publicKey_nearPowers) ofNumbers_nearPowers

end RsaPrivateKey

/-! ## DSA public keys -/

namespace DsaPublicKey

/-- What is checked of the numbers of a public key. -/
structure Checked (key : DsaPublicKey) : Prop where
  size_mem : key.size ∈ KeyType.dsaPublic.acceptableSizes
  bitLength_p : bitLength key.numbers.p = key.size
  bitLength_q : bitLength key.numbers.q = orderBits
  usable : key.numbers.usable

theorem ofNumbers_eq_ok {numbers : Dsa.Numbers} {size : Nat} {key : DsaPublicKey} :
    ofNumbers numbers size = .ok key ↔ key.Checked ∧ key = ⟨numbers, size⟩ := by
  unfold ofNumbers
  constructor
  · intro h
    obtain ⟨⟨⟩, hmem, h⟩ := Result.bind_eq_ok.1 h
    split at h
    case isTrue => cases h
    case isFalse hlengths =>
      split at h
      case isTrue husable =>
        cases h
        simp only [not_or, ne_eq, Decidable.not_not] at hlengths
        exact ⟨⟨KeyType.checkSize_eq_ok.1 hmem, hlengths.1, hlengths.2, husable⟩, rfl⟩
      case isFalse => cases h
  · rintro ⟨⟨hmem, hp, hq, husable⟩, rfl⟩
    apply Result.bind_eq_ok.2
    refine ⟨(), KeyType.checkSize_eq_ok.2 hmem, ?_⟩
    rw [if_neg (by simp [hp, hq]), if_pos husable]
    rfl

/-- The ways to come by a public key. -/
inductive Obtained : DsaPublicKey → Prop
  | ofNumbers {numbers : Dsa.Numbers} {size : Nat} {key : DsaPublicKey}
    (h : DsaPublicKey.ofNumbers numbers size = .ok key) : Obtained key
  | ofRecordText {text : String} {key : DsaPublicKey}
    (h : DsaPublicKey.ofRecordText text = .ok key) : Obtained key

theorem checked_of_ofRecord {record : Record.DsaPublic} {key : DsaPublicKey}
    (h : ofRecord record = .ok key) : key.Checked := by
  obtain ⟨⟨⟩, -, h⟩ := Result.bind_eq_ok.1 h
  obtain ⟨p, -, h⟩ := Result.bind_eq_ok.1 h
  obtain ⟨q, -, h⟩ := Result.bind_eq_ok.1 h
  obtain ⟨g, -, h⟩ := Result.bind_eq_ok.1 h
  obtain ⟨y, -, h⟩ := Result.bind_eq_ok.1 h
  exact (ofNumbers_eq_ok.1 h).1

theorem Obtained.checked {key : DsaPublicKey} (h : key.Obtained) : key.Checked := by
  cases h with
  | ofNumbers h => exact (ofNumbers_eq_ok.1 h).1
  | ofRecordText h =>
    obtain ⟨record, -, h⟩ := Result.bind_eq_ok.1 h
    exact checked_of_ofRecord h

end DsaPublicKey

/-! ## DSA private keys -/

namespace DsaPrivateKey

/-- What is checked of the numbers of a private key. -/
structure Checked (key : DsaPrivateKey) : Prop where
  publicKey : key.publicKey.Checked
  size_mem : key.size ∈ KeyType.dsaPrivate.acceptableSizes
  size_eq : key.size = key.publicKey.size
  powMod_eq : powMod key.publicKey.numbers.g key.x key.publicKey.numbers.p =
    key.publicKey.numbers.y
  x_pos : 0 < key.x
  x_le : key.x ≤ key.publicKey.numbers.q

theorem ofNumbers_eq_ok {publicKey : DsaPublicKey} (hpublic : publicKey.Checked) {x size : Nat}
    {key : DsaPrivateKey} :
    ofNumbers publicKey x size = .ok key ↔ key.Checked ∧ key = ⟨publicKey, x, size⟩ := by
  unfold ofNumbers
  constructor
  · intro h
    obtain ⟨⟨⟩, hmem, h⟩ := Result.bind_eq_ok.1 h
    simp only at h
    split at h
    case isTrue => cases h
    case isFalse hsize =>
      split at h
      case isTrue => cases h
      case isFalse hpower =>
        split at h
        case isTrue => cases h
        case isFalse hx =>
          cases h
          simp only [not_or, Nat.not_lt, ne_eq, Decidable.not_not] at hsize hpower hx
          exact ⟨⟨hpublic, KeyType.checkSize_eq_ok.1 hmem, hsize, hpower,
            Nat.pos_of_ne_zero hx.1, hx.2⟩, rfl⟩
  · rintro ⟨hkey, rfl⟩
    have hx : ¬ (x = 0 ∨ publicKey.numbers.q < x) := by
      have hpos : 0 < x := hkey.x_pos
      have hle : x ≤ publicKey.numbers.q := hkey.x_le
      omega
    apply Result.bind_eq_ok.2
    refine ⟨(), KeyType.checkSize_eq_ok.2 hkey.size_mem, ?_⟩
    simp only
    rw [if_neg (Decidable.not_not.2 hkey.size_eq), if_neg (Decidable.not_not.2 hkey.powMod_eq),
      if_neg hx]
    rfl

/-- The ways to come by a private key. -/
inductive Obtained : DsaPrivateKey → Prop
  | ofNumbers {publicKey : DsaPublicKey} {x size : Nat} {key : DsaPrivateKey}
    (hpublic : publicKey.Obtained) (h : DsaPrivateKey.ofNumbers publicKey x size = .ok key) :
    Obtained key
  | ofRecordText {text : String} {key : DsaPrivateKey}
    (h : DsaPrivateKey.ofRecordText text = .ok key) : Obtained key

theorem checked_of_ofRecord {record : Record.DsaPrivate} {key : DsaPrivateKey}
    (h : ofRecord record = .ok key) : key.Checked := by
  obtain ⟨⟨⟩, -, h⟩ := Result.bind_eq_ok.1 h
  obtain ⟨publicKey, hpublic, h⟩ := Result.bind_eq_ok.1 h
  obtain ⟨x, -, h⟩ := Result.bind_eq_ok.1 h
  exact ((ofNumbers_eq_ok (DsaPublicKey.checked_of_ofRecord hpublic)).1 h).1

theorem Obtained.checked {key : DsaPrivateKey} (h : key.Obtained) : key.Checked := by
  cases h with
  | ofNumbers hpublic h => exact ((ofNumbers_eq_ok hpublic.checked).1 h).1
  | ofRecordText h =>
    obtain ⟨record, -, h⟩ := Result.bind_eq_ok.1 h
    exact checked_of_ofRecord h

/-- Numbers that pass the checks give their key. -/
theorem Checked.obtained {key : DsaPrivateKey} (h : key.Checked) : key.Obtained := by
  have hpublic : DsaPublicKey.ofNumbers key.publicKey.numbers key.publicKey.size =
      .ok key.publicKey := DsaPublicKey.ofNumbers_eq_ok.2 ⟨h.publicKey, rfl⟩
  exact .ofNumbers (.ofNumbers hpublic) ((ofNumbers_eq_ok h.publicKey).2 ⟨h, rfl⟩)

end DsaPrivateKey

end Keyring
