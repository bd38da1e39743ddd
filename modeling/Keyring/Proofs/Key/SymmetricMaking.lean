import Keyring.Proofs.Format.Pack
import Keyring.Proofs.Key.RecordText
import Keyring.Proofs.KeyType

/-!
# All ways of making a symmetric key agree

A symmetric key is put together from its two byte strings, taken out of a pack, or read from a
record. Each way checks the lengths with code of its own: the first two multiply the length, the
record compares it with a declared size. Main statement: all of them come to `ofParts`, which says
at once when two byte strings are a key. Packs are exact beyond that, since a pack has one layout.
-/

namespace Keyring

open Record Json

/-! ## MAC keys -/

namespace MacKey

theorem ofBytes_eq (bytes : Bytes) :
    ofBytes bytes =
      if 8 * bytes.length ∈ KeyType.hmacSha1.acceptableSizes then .ok ⟨bytes⟩
      else .error .invalidKeySize := by
  rw [ofBytes, keyType, KeyType.checkByteLength_eq, KeyType.checkSize_bind]
  rfl

/-- With its true size declared, a record is checked as its bytes are. -/
theorem ofRecord_toRecord_eq (key : MacKey) : ofRecord key.toRecord = ofBytes key.bytes := by
  rw [ofRecord, ofBytes, KeyType.checkByteLength_eq]
  refine congrArg _ (funext fun _ => ?_)
  rw [toRecord, readBytes_encode, Result.ok_bind]
  exact if_neg (Decidable.not_not.2 rfl)

end MacKey

namespace SymmetricKey

variable {bytes macBytes pack : Bytes} {key : SymmetricKey}

/-! ## When two byte strings are a key -/

/-- The key of an AES key and a MAC key, if both have a listed length. -/
def ofParts (bytes macBytes : Bytes) : Result SymmetricKey :=
  if 8 * bytes.length ∈ KeyType.aes.acceptableSizes ∧
      8 * macBytes.length ∈ KeyType.hmacSha1.acceptableSizes then
    .ok ⟨bytes, ⟨macBytes⟩⟩
  else .error .invalidKeySize

theorem ofParts_eq_ok :
    ofParts bytes macBytes = .ok key ↔
      (8 * bytes.length ∈ KeyType.aes.acceptableSizes ∧
        8 * macBytes.length ∈ KeyType.hmacSha1.acceptableSizes) ∧ key = ⟨bytes, ⟨macBytes⟩⟩ := by
  rw [ofParts]
  split
  case isTrue h =>
    rw [Except.ok.injEq, eq_comm]
    exact (and_iff_right h).symm
  case isFalse h => exact ⟨nofun, fun h' => absurd h'.1 h⟩

theorem Obtained.ofParts_eq_ok (h : key.Obtained) :
    ofParts key.bytes key.macKey.bytes = .ok key :=
  SymmetricKey.ofParts_eq_ok.2 ⟨⟨h.size_mem, h.macKey_size_mem⟩, rfl⟩

/-! ## From bytes -/

theorem ofBytes_eq (bytes : Bytes) (macKey : MacKey) :
    ofBytes bytes macKey =
      if 8 * bytes.length ∈ KeyType.aes.acceptableSizes then .ok ⟨bytes, macKey⟩
      else .error .invalidKeySize := by
  rw [ofBytes, keyType, KeyType.checkByteLength_eq, KeyType.checkSize_bind]
  rfl

theorem macKey_ofBytes_bind_ofBytes (bytes macBytes : Bytes) :
    MacKey.ofBytes macBytes >>= ofBytes bytes = ofParts bytes macBytes := by
  rw [MacKey.ofBytes_eq, ofParts]
  by_cases hmac : 8 * macBytes.length ∈ KeyType.hmacSha1.acceptableSizes
  · rw [if_pos hmac, Result.ok_bind, ofBytes_eq]
    simp only [hmac, and_true]
  · rw [if_neg hmac, if_neg fun h => hmac h.2]
    rfl

/-! ## From packs -/

theorem ofPacked_of_unpack (h : Pack.unpack pack = .ok [bytes, macBytes]) :
    ofPacked pack = ofParts bytes macBytes := by
  rw [ofPacked, h, Result.ok_bind]
  exact macKey_ofBytes_bind_ofBytes bytes macBytes

/-- Both lengths fit the pack when the bit lengths fit 32 bits. -/
theorem unpack_layout_parts (hbytes : 8 * bytes.length < 2 ^ 32)
    (hmac : 8 * macBytes.length < 2 ^ 32) :
    Pack.pack [bytes, macBytes] = .ok (Pack.layout [bytes, macBytes]) ∧
      Pack.unpack (Pack.layout [bytes, macBytes]) = .ok [bytes, macBytes] := by
  have hpackable : Pack.Packable [bytes, macBytes] := by
    refine ⟨show 2 < 2 ^ 32 by decide, ?_⟩
    rw [List.forall_mem_cons, List.forall_mem_singleton]
    omega
  exact ⟨Pack.pack_eq_ok.2 ⟨hpackable, rfl⟩, Pack.unpack_eq_ok.2 ⟨hpackable, rfl⟩⟩

theorem pack_bind_ofPacked (hbytes : 8 * bytes.length < 2 ^ 32)
    (hmac : 8 * macBytes.length < 2 ^ 32) :
    Pack.pack [bytes, macBytes] >>= ofPacked = ofParts bytes macBytes := by
  obtain ⟨hpack, hunpack⟩ := unpack_layout_parts hbytes hmac
  rw [hpack, Result.ok_bind, ofPacked_of_unpack hunpack]

/-- A pack that is accepted is the pack of its key. -/
theorem packed_of_ofPacked (h : ofPacked pack = .ok key) : key.packed = .ok pack := by
  obtain ⟨parts, hunpack, hkey⟩ := Result.bind_eq_ok.1 h
  split at hkey
  case h_1 bytes macBytes =>
    rw [ofPacked_of_unpack hunpack] at h
    obtain ⟨-, rfl⟩ := ofParts_eq_ok.1 h
    exact Pack.pack_eq_ok.2 (Pack.unpack_eq_ok.1 hunpack)
  case h_2 => cases hkey

theorem Obtained.packed_bind (h : key.Obtained) :
    key.packed >>= SymmetricKey.ofPacked = .ok key := by
  have hbytes := KeyType.lt_of_mem_acceptableSizes h.size_mem
  have hmac := KeyType.lt_of_mem_acceptableSizes h.macKey_size_mem
  rw [packed, pack_bind_ofPacked hbytes hmac, h.ofParts_eq_ok]

/-! ## From records -/

/-- With their true sizes declared, two byte strings are checked as they are without a record. -/
theorem ofRecord_toRecord_eq (key : SymmetricKey) :
    ofRecord key.toRecord = ofParts key.bytes key.macKey.bytes := by
  have hsize : key.toRecord.size = 8 * key.bytes.length := rfl
  have hmode : key.toRecord.mode = cbcMode := rfl
  have hread : readBytes key.toRecord.key = .ok key.bytes := readBytes_encode key.bytes
  have hmac : MacKey.ofRecord key.toRecord.macKey = MacKey.ofBytes key.macKey.bytes :=
    key.macKey.ofRecord_toRecord_eq
  rw [ofRecord, keyType, KeyType.checkSize_bind, if_neg (Decidable.not_not.2 hmode), hmac,
    MacKey.ofBytes_eq, hread, hsize, ofParts]
  by_cases hbytes : 8 * key.bytes.length ∈ KeyType.aes.acceptableSizes
  · by_cases hmacBytes : 8 * key.macKey.bytes.length ∈ KeyType.hmacSha1.acceptableSizes
    · rw [if_pos hbytes, if_pos hmacBytes, if_pos ⟨hbytes, hmacBytes⟩]
      exact if_neg (Decidable.not_not.2 rfl)
    · rw [if_pos hbytes, if_neg hmacBytes, if_neg fun h => hmacBytes h.2]
      rfl
  · rw [if_neg hbytes, if_neg fun h => hbytes h.1]

theorem ofRecordText_of_readAll {text : String} {record : Record.Symmetric}
    (h : readAll Record.Symmetric.ofNode text = .ok record) :
    ofRecordText text = ofRecord record := by
  rw [ofRecordText, h]
  rfl

/-- Two byte strings whose bit lengths fit 32 bits have a record text. -/
theorem readAll_recordText (key : SymmetricKey) (hbytes : key.size < 2 ^ 32)
    (hmac : key.macKey.size < 2 ^ 32) :
    readAll Record.Symmetric.ofNode key.recordText = .ok key.toRecord := by
  rw [recordText, readAll_render key.plain_record]
  exact Symmetric.ofNode_toNode hbytes hmac

/-! ## All ways -/

/-- **All ways of making a symmetric key agree.** Two byte strings whose bit lengths fit 32 bits are
put together, taken out of their pack, and read from any text of their record with one outcome: the
key of just these bytes when both lengths are listed, and otherwise the one error for sizes. Every
key is taken out of its own pack, and no other pack gives it. A byte length is accepted exactly when
eight times it, as a number without bounds, is listed, also where lengths are held in words. -/
theorem ways_of_making_agree (bytes macBytes : Bytes) (hbytes : 8 * bytes.length < 2 ^ 32)
    (hmac : 8 * macBytes.length < 2 ^ 32) :
    let outcome : Result SymmetricKey :=
      if 8 * bytes.length ∈ KeyType.aes.acceptableSizes ∧
          8 * macBytes.length ∈ KeyType.hmacSha1.acceptableSizes then
        .ok ⟨bytes, ⟨macBytes⟩⟩
      else .error .invalidKeySize
    let record : Record.Symmetric :=
      { key := Web64.encode bytes
        size := 8 * bytes.length
        macKey := { key := Web64.encode macBytes, size := 8 * macBytes.length }
        mode := "CBC" }
    MacKey.ofBytes macBytes >>= ofBytes bytes = outcome ∧
    Pack.pack [bytes, macBytes] >>= ofPacked = outcome ∧
    (∃ text, readAll Record.Symmetric.ofNode text = .ok record) ∧
    (∀ text, readAll Record.Symmetric.ofNode text = .ok record → ofRecordText text = outcome) ∧
    (∀ key : SymmetricKey, key.Obtained → key.packed >>= ofPacked = .ok key) ∧
    (∀ pack key, ofPacked pack = .ok key → key.packed = .ok pack) ∧
    (∀ (keyType : KeyType) (length : Nat),
      keyType.checkByteLength length = .ok () ↔ 8 * length ∈ keyType.acceptableSizes) ∧
    ∀ (keyType : KeyType) (length : UInt64),
      keyType.checkWordLength length = keyType.checkByteLength length.toNat := by
  intro outcome record
  have hrecord : record = (SymmetricKey.mk bytes ⟨macBytes⟩).toRecord := rfl
  refine ⟨macKey_ofBytes_bind_ofBytes bytes macBytes, pack_bind_ofPacked hbytes hmac,
    ⟨_, readAll_recordText ⟨bytes, ⟨macBytes⟩⟩ hbytes hmac⟩, fun text htext => ?_,
    fun _ h => h.packed_bind, fun _ _ => packed_of_ofPacked,
    fun _ _ => KeyType.checkByteLength_eq_ok, KeyType.checkWordLength_eq⟩
  rw [ofRecordText_of_readAll htext, hrecord]
  exact ofRecord_toRecord_eq _

/-- Lengths that are listed for the other part do not count: 24 bytes and 20 beside them are a key,
and the same strings the other way round are refused. -/
theorem ways_of_making_agree_swapped :
    let long : Bytes := List.replicate 24 0x40
    let short : Bytes := List.replicate 20 0x60
    Pack.pack [long, short] >>= ofPacked = .ok ⟨long, ⟨short⟩⟩ ∧
      MacKey.ofBytes long >>= ofBytes short = .error .invalidKeySize ∧
      Pack.pack [short, long] >>= ofPacked = .error .invalidKeySize := by
  intro long short
  obtain ⟨-, hpacked, -⟩ := ways_of_making_agree long short (by decide) (by decide)
  obtain ⟨hbytes, hswapped, -⟩ := ways_of_making_agree short long (by decide) (by decide)
  exact ⟨hpacked, hbytes, hswapped⟩

end SymmetricKey

end Keyring
