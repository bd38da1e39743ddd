import Keyring.Proofs.Key.RecordText
import Keyring.Proofs.KeyId

/-!
# What a key id stands for

The material that is hashed for a key id carries no mark of its family. Main statement: still two
keys have the same material only if they are of one family, a private key counting as its public
half, and agree in what identifies them. So two keys that differ share an id only when the digests
of two byte strings that differ begin with the same four bytes.

Lengths keep most families apart: a MAC key is hashed alone and is short, an AES key of at most 32
bytes stands behind its length and before a MAC key, and a modulus is longer than both together.
What RSA and DSA keys hash are joined parts, two against four.
-/

namespace Keyring

/-- What identifies a key: its family, without regard to private or public, and its material. -/
inductive Identity
  | mac (bytes : Bytes)
  | symmetric (bytes macBytes : Bytes)
  | rsa (n e : Nat)
  | dsa (numbers : Dsa.Numbers)
  deriving DecidableEq

namespace Identity

/-- The byte strings that go into the material. -/
def parts : Identity → List Bytes
  | mac bytes => [bytes]
  | symmetric bytes macBytes => [bytes, macBytes]
  | rsa n e => [.minimal n, .minimal e]
  | dsa numbers => [.minimal numbers.p, .minimal numbers.q, .minimal numbers.g, .minimal numbers.y]

/-- What is hashed. Parts stand behind their lengths, but for a MAC key, alone or behind an AES
key. -/
def material : Identity → Bytes
  | mac bytes => bytes
  | symmetric bytes macBytes => KeyId.lengthPrefixed bytes ++ macBytes
  | rsa n e => KeyId.joinParts (rsa n e).parts
  | dsa numbers => KeyId.joinParts (dsa numbers).parts

/-! ## Families by the length of their material -/

/-- The lengths that the families admit, as far as they keep the families apart. -/
def Admitted : Identity → Prop
  | mac bytes => bytes.length ≤ 32
  | symmetric bytes macBytes =>
    (16 ≤ bytes.length ∧ bytes.length ≤ 32) ∧ 20 ≤ macBytes.length ∧ macBytes.length ≤ 32
  | rsa n _ => 512 ≤ bitLength n
  | dsa numbers => 512 ≤ bitLength numbers.p

theorem le_length_joinParts {n : Nat} (h : 512 ≤ bitLength n) (second : Bytes)
    (rest : List Bytes) : 72 ≤ (KeyId.joinParts (.minimal n :: second :: rest)).length := by
  have hfirst : 64 ≤ (Bytes.minimal n).length := by
    rw [Bytes.minimal, Bytes.length_ofNat]
    omega
  simp only [KeyId.joinParts, List.flatMap_cons, List.length_append, KeyId.length_lengthPrefixed]
  omega

/-- The families that the length of the material tells apart. -/
inductive LengthClass
  | short
  | middle
  | long
  deriving DecidableEq

def lengthClass : Identity → LengthClass
  | mac _ => .short
  | symmetric _ _ => .middle
  | rsa _ _ | dsa _ => .long

theorem lengthClass_eq {identity : Identity} (h : identity.Admitted) :
    identity.lengthClass =
      if identity.material.length ≤ 32 then .short
      else if identity.material.length < 72 then .middle
      else .long := by
  cases identity with
  | mac bytes =>
    have hlength : (mac bytes).material.length ≤ 32 := h
    rw [if_pos hlength]
    rfl
  | symmetric bytes macBytes =>
    have hlength : (symmetric bytes macBytes).material.length =
        4 + bytes.length + macBytes.length := by
      rw [material, List.length_append, KeyId.length_lengthPrefixed]
    obtain ⟨⟨hlower, hupper⟩, hmacLower, hmacUpper⟩ := h
    rw [if_neg (by omega), if_pos (by omega)]
    rfl
  | rsa n e =>
    have hlength : 72 ≤ (rsa n e).material.length := le_length_joinParts h _ _
    rw [if_neg (by omega), if_neg (by omega)]
    rfl
  | dsa numbers =>
    have hlength : 72 ≤ (dsa numbers).material.length := le_length_joinParts h _ _
    rw [if_neg (by omega), if_neg (by omega)]
    rfl

/-! ## Material tells identities apart -/

theorem minimal_inj {n m : Nat} (h : Bytes.minimal n = Bytes.minimal m) : n = m := by
  rw [← Bytes.toNat_minimal n, h, Bytes.toNat_minimal]

theorem rsa_inj {n e n' e' : Nat} (h : (rsa n e).parts = (rsa n' e').parts) :
    rsa n e = rsa n' e' := by
  simp only [parts, List.cons.injEq, and_true] at h
  rw [minimal_inj h.1, minimal_inj h.2]

theorem dsa_inj {numbers numbers' : Dsa.Numbers} (h : (dsa numbers).parts = (dsa numbers').parts) :
    dsa numbers = dsa numbers' := by
  obtain ⟨p, q, g, y⟩ := numbers
  obtain ⟨p', q', g', y'⟩ := numbers'
  simp only [parts, List.cons.injEq, and_true] at h
  obtain ⟨hp, hq, hg, hy⟩ := h
  obtain rfl : p = p' := minimal_inj hp
  obtain rfl : q = q' := minimal_inj hq
  obtain rfl : g = g' := minimal_inj hg
  obtain rfl : y = y' := minimal_inj hy
  rfl

theorem material_inj {identity other : Identity} (hidentity : identity.Admitted)
    (hother : other.Admitted) (hparts : ∀ part ∈ identity.parts, part.length < 2 ^ 32)
    (hparts' : ∀ part ∈ other.parts, part.length < 2 ^ 32)
    (h : identity.material = other.material) : identity = other := by
  have hclass : identity.lengthClass = other.lengthClass := by
    rw [lengthClass_eq hidentity, lengthClass_eq hother, h]
  -- families of different classes are out, which leaves each family with itself, and RSA with DSA
  cases identity with
  | mac bytes =>
    cases other with
    | mac bytes' => exact congrArg mac h
    | symmetric | rsa | dsa => cases hclass
  | symmetric bytes macBytes =>
    cases other with
    | symmetric bytes' macBytes' =>
      rw [parts, List.forall_mem_cons] at hparts hparts'
      obtain ⟨rfl, rfl⟩ := KeyId.lengthPrefixed_append_inj hparts.1 hparts'.1 h
      rfl
    | mac | rsa | dsa => cases hclass
  | rsa n e =>
    cases other with
    | rsa n' e' => exact rsa_inj (KeyId.joinParts_inj hparts hparts' h)
    | dsa numbers => cases congrArg List.length (KeyId.joinParts_inj hparts hparts' h)
    | mac | symmetric => cases hclass
  | dsa numbers =>
    cases other with
    | dsa numbers' => exact dsa_inj (KeyId.joinParts_inj hparts hparts' h)
    | rsa n e => cases congrArg List.length (KeyId.joinParts_inj hparts hparts' h)
    | mac | symmetric => cases hclass

end Identity

/-! ## Keys -/

theorem RsaPublicKey.Checked.admitted {key : RsaPublicKey} (h : key.Checked) :
    (Identity.rsa key.n key.e).Admitted := by
  have hsize := h.size_mem
  simp only [KeyType.acceptableSizes, List.mem_cons, List.not_mem_nil, or_false] at hsize
  show 512 ≤ bitLength key.n
  rw [h.bitLength_n]
  omega

theorem DsaPublicKey.Checked.admitted {key : DsaPublicKey} (h : key.Checked) :
    (Identity.dsa key.numbers).Admitted := by
  have hsize := h.size_mem
  simp only [KeyType.acceptableSizes, List.mem_singleton] at hsize
  show 512 ≤ bitLength key.numbers.p
  rw [h.bitLength_p]
  omega

namespace KeyMaterial

/-- The identity of a key; a private key has that of its public half. -/
def identity : KeyMaterial → Identity
  | .symmetric key => .symmetric key.bytes key.macKey.bytes
  | .mac key => .mac key.bytes
  | .dsaPrivate key => .dsa key.publicKey.numbers
  | .dsaPublic key => .dsa key.numbers
  | .rsaPrivate key => .rsa key.publicKey.n key.publicKey.e
  | .rsaPublic key => .rsa key.n key.e

/-- What is hashed for the id of a key, by what its family hashes. -/
def material : KeyMaterial → Bytes
  | .symmetric key => key.material
  | .mac key => key.material
  | .dsaPrivate key => key.publicKey.material
  | .dsaPublic key => key.material
  | .rsaPrivate key => key.publicKey.material
  | .rsaPublic key => key.material

theorem keyId_eq (key : KeyMaterial) : key.keyId = .ofMaterial key.material := by
  cases key with
  | symmetric | mac | dsaPrivate | dsaPublic | rsaPrivate | rsaPublic => rfl

theorem material_eq (key : KeyMaterial) : key.material = key.identity.material := by
  cases key with
  | symmetric | mac | dsaPrivate | dsaPublic | rsaPrivate | rsaPublic => rfl

theorem Checked.admitted {key : KeyMaterial} (h : key.Checked) : key.identity.Admitted := by
  cases key with
  | symmetric key =>
    have hkey := h
    simp only [Checked, KeyType.acceptableSizes, SymmetricKey.size, MacKey.size, List.mem_cons,
      List.not_mem_nil, or_false] at hkey
    show (16 ≤ key.bytes.length ∧ key.bytes.length ≤ 32) ∧
      20 ≤ key.macKey.bytes.length ∧ key.macKey.bytes.length ≤ 32
    omega
  | mac key =>
    have hkey := h
    simp only [Checked, KeyType.acceptableSizes, MacKey.size, List.mem_cons, List.not_mem_nil,
      or_false] at hkey
    show key.bytes.length ≤ 32
    omega
  | dsaPrivate key => exact (DsaPrivateKey.Checked.publicKey h).admitted
  | dsaPublic key => exact DsaPublicKey.Checked.admitted h
  | rsaPrivate key => exact (RsaPrivateKey.Checked.publicKey h).admitted
  | rsaPublic key => exact RsaPublicKey.Checked.admitted h

theorem material_eq_iff {key other : KeyMaterial} (hkey : key.Checked) (hother : other.Checked)
    (hparts : ∀ part ∈ key.identity.parts, part.length < 2 ^ 32)
    (hparts' : ∀ part ∈ other.identity.parts, part.length < 2 ^ 32) :
    key.material = other.material ↔ key.identity = other.identity := by
  rw [material_eq, material_eq]
  exact ⟨Identity.material_inj hkey.admitted hother.admitted hparts hparts',
    congrArg Identity.material⟩

/-- **The material of a key tells what the key is.** Lists of parts are joined to the same string
only if they are equal, as long as the lengths of the parts fit four bytes. Two keys that were
obtained, of whatever families, have the same material just when they have the same identity, as
long as the lengths of their parts fit four bytes. So two keys with the same id have the same
identity, or their materials differ and yet have digests that begin with the same four bytes. -/
theorem material_eq_iff_identity :
    (∀ parts others : List Bytes, (∀ part ∈ parts, part.length < 2 ^ 32) →
      (∀ part ∈ others, part.length < 2 ^ 32) → KeyId.joinParts parts = KeyId.joinParts others →
        parts = others) ∧
    ∀ key other : KeyMaterial, key.Obtained → other.Obtained →
      (∀ part ∈ key.identity.parts, part.length < 2 ^ 32) →
      (∀ part ∈ other.identity.parts, part.length < 2 ^ 32) →
        (key.material = other.material ↔ key.identity = other.identity) ∧
        (key.keyId = other.keyId → key.identity = other.identity ∨
          key.material ≠ other.material ∧
            (Sha1.digest key.material).take 4 = (Sha1.digest other.material).take 4) := by
  refine ⟨fun _ _ => KeyId.joinParts_inj, ?_⟩
  intro key other hkey hother hparts hparts'
  have hiff := material_eq_iff hkey.checked hother.checked hparts hparts'
  refine ⟨hiff, ?_⟩
  intro hid
  by_cases hsame : key.identity = other.identity
  · exact .inl hsame
  · refine .inr ⟨fun hmaterial => hsame (hiff.1 hmaterial), ?_⟩
    rw [keyId_eq, keyId_eq] at hid
    exact congrArg KeyId.bytes hid

/-- Two parts are not joined to what they are joined to as one. A symmetric key and the MAC key
inside it hash different strings; an RSA private key and its public half hash the same one. -/
theorem material_eq_iff_identity_halves :
    KeyId.joinParts [[0x40], [0x60]] ≠ KeyId.joinParts [[0x40, 0x60]] ∧
      (symmetric ⟨List.replicate 16 0x40, ⟨List.replicate 20 0x60⟩⟩).material ≠
        (mac ⟨List.replicate 20 0x60⟩).material ∧
      (rsaPrivate .nearPowers).material =
        (rsaPublic RsaPrivateKey.nearPowers.publicKey).material := by
  have hsymmetric := Obtained.symmetric (SymmetricKey.obtained_shortest 0x40 0x60)
  have hbytes : MacKey.ofBytes (List.replicate 20 0x60) = .ok ⟨List.replicate 20 0x60⟩ := rfl
  have hmac := Obtained.mac (.ofBytes hbytes)
  have hprivate := Obtained.rsaPrivate RsaPrivateKey.obtained_nearPowers
  have hpublic := Obtained.ofRecordText (hprivate.checked.publicHalf? rfl).ofRecordText_recordText
  obtain ⟨hjoined, hkeys⟩ := material_eq_iff_identity
  refine ⟨?_, ?_, ?_⟩
  · intro hsame
    cases hjoined [[0x40], [0x60]] [[0x40, 0x60]] (by decide) (by decide) hsame
  · intro hsame
    cases (hkeys _ _ hsymmetric hmac (by decide) (by decide)).1.1 hsame
  · exact (hkeys _ _ hprivate hpublic (by decide +kernel) (by decide +kernel)).1.2 rfl

end KeyMaterial

end Keyring
