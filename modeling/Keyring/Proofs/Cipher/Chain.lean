import Keyring.Cipher.Cbc
import Keyring.Proofs.Cipher.Blocks
import Keyring.Proofs.Cipher.Inverse

/-!
# Chained encryption is a bijection

Under a key and an initial block of the right lengths, chained encryption maps the byte strings that
divide into blocks one to one onto themselves, keeps their length, and has chained decryption as its
inverse. The chain needs nothing of the cipher but that it permutes blocks.
-/

namespace Keyring.Cbc

open Aes

/-! ## Chains of blocks -/

section

variable {encrypt decrypt : Block → Block}

@[simp] theorem length_encryptBlocks (initial : Block) (plain : List Block) :
    (encryptBlocks encrypt initial plain).length = plain.length := by
  induction plain generalizing initial with
  | nil => rfl
  | cons s rest ih => simp [encryptBlocks, ih]

theorem decryptBlocks_encryptBlocks (h : ∀ s, decrypt (encrypt s) = s) (initial : Block)
    (plain : List Block) :
    decryptBlocks decrypt initial (encryptBlocks encrypt initial plain) = plain := by
  induction plain generalizing initial with
  | nil => rfl
  | cons s rest ih =>
    -- in both directions the next block is chained to the same cipher block
    rw [encryptBlocks, decryptBlocks, h, ih, Block.xor_xor_cancel]

theorem encryptBlocks_decryptBlocks (h : ∀ s, encrypt (decrypt s) = s) (initial : Block)
    (cipher : List Block) :
    encryptBlocks encrypt initial (decryptBlocks decrypt initial cipher) = cipher := by
  induction cipher generalizing initial with
  | nil => rfl
  | cons s rest ih => rw [decryptBlocks, encryptBlocks, Block.xor_xor_cancel, h, ih]

end

/-! ## Chains of bytes -/

theorem setup_eq_ok {key initial : Bytes} {keys : List Block} {block : Block} :
    setup key initial = .ok (keys, block) ↔
      roundKeys? key = some keys ∧ initial = block.bytes := by
  unfold setup
  constructor
  · intro h
    split at h
    case h_1 keys' block' hkeys hblock =>
      cases h
      exact ⟨hkeys, by simpa using blocks?_eq_some_iff.1 hblock⟩
    case h_2 => cases h
  · rintro ⟨hkeys, rfl⟩
    have hblock : blocks? block.bytes = some [block] := blocks?_eq_some_iff.2 (by simp)
    rw [hkeys, hblock]

theorem wholeBlocks_eq_ok {data : Bytes} {blocks : List Block} :
    wholeBlocks data = .ok blocks ↔ data = blocks.flatMap Block.bytes := by
  rw [← blocks?_eq_some_iff]
  unfold wholeBlocks
  cases blocks? data <;> simp

/-- Both directions need round keys, one initial block and whole blocks, and go on with them. -/
theorem setup_wholeBlocks_eq_ok {key initial data result : Bytes}
    (chain : List Block → Block → List Block → List Block) :
    (do
      let (keys, block) ← setup key initial
      let blocks ← wholeBlocks data
      return (chain keys block blocks).flatMap Block.bytes) = Except.ok result ↔
      ∃ keys block blocks, roundKeys? key = some keys ∧ initial = block.bytes ∧
        data = blocks.flatMap Block.bytes ∧
        result = (chain keys block blocks).flatMap Block.bytes := by
  simp only [Result.bind_eq_ok, Prod.exists, setup_eq_ok, wholeBlocks_eq_ok]
  constructor
  · rintro ⟨keys, block, ⟨hkeys, hblock⟩, blocks, hblocks, hresult⟩
    cases hresult
    exact ⟨keys, block, blocks, hkeys, hblock, hblocks, rfl⟩
  · rintro ⟨keys, block, blocks, hkeys, hblock, hblocks, rfl⟩
    exact ⟨keys, block, ⟨hkeys, hblock⟩, blocks, hblocks, rfl⟩

theorem encrypt_eq_ok {key initial data body : Bytes} :
    encrypt key initial data = .ok body ↔
      ∃ keys block plain, roundKeys? key = some keys ∧ initial = block.bytes ∧
        data = plain.flatMap Block.bytes ∧
        body = (encryptBlocks (encryptBlock keys) block plain).flatMap Block.bytes :=
  setup_wholeBlocks_eq_ok fun keys => encryptBlocks (encryptBlock keys)

theorem decrypt_eq_ok {key initial body data : Bytes} :
    decrypt key initial body = .ok data ↔
      ∃ keys block cipher, roundKeys? key = some keys ∧ initial = block.bytes ∧
        body = cipher.flatMap Block.bytes ∧
        data = (decryptBlocks (decryptBlock keys) block cipher).flatMap Block.bytes :=
  setup_wholeBlocks_eq_ok fun keys => decryptBlocks (decryptBlock keys)

/-- Encryption and decryption are the same relation, read in the two directions. -/
theorem encrypt_eq_ok_iff_decrypt {key initial data body : Bytes} :
    encrypt key initial data = .ok body ↔ decrypt key initial body = .ok data := by
  rw [encrypt_eq_ok, decrypt_eq_ok]
  constructor
  · rintro ⟨keys, block, plain, hkeys, hblock, rfl, rfl⟩
    refine ⟨keys, block, _, hkeys, hblock, rfl, ?_⟩
    rw [decryptBlocks_encryptBlocks (decryptBlock_encryptBlock keys)]
  · rintro ⟨keys, block, cipher, hkeys, hblock, rfl, rfl⟩
    refine ⟨keys, block, _, hkeys, hblock, rfl, ?_⟩
    rw [encryptBlocks_decryptBlocks (encryptBlock_decryptBlock keys)]

theorem length_of_encrypt {key initial data body : Bytes}
    (h : encrypt key initial data = .ok body) : body.length = data.length := by
  obtain ⟨keys, block, plain, -, -, rfl, rfl⟩ := encrypt_eq_ok.1 h
  rw [length_flatMap_bytes, length_flatMap_bytes, length_encryptBlocks]

/-- What encryption may be given: a key of a known length, one initial block, and whole blocks. -/
theorem exists_encrypt_eq_ok {key initial data : Bytes} :
    (∃ body, encrypt key initial data = .ok body) ↔
      (key.length = 16 ∨ key.length = 24 ∨ key.length = 32) ∧ initial.length = blockSize ∧
        blockSize ∣ data.length := by
  rw [← isSome_roundKeys?, ← isSome_blocks?]
  constructor
  · rintro ⟨body, h⟩
    obtain ⟨keys, block, plain, hkeys, rfl, rfl, -⟩ := encrypt_eq_ok.1 h
    have hplain : blocks? (plain.flatMap Block.bytes) = some plain := blocks?_eq_some_iff.2 rfl
    exact ⟨Option.isSome_of_eq_some hkeys, rfl, Option.isSome_of_eq_some hplain⟩
  · rintro ⟨hkeys, hinitial, hdata⟩
    obtain ⟨keys, hkeys⟩ := Option.isSome_iff_exists.1 hkeys
    obtain ⟨block, hblock⟩ := exists_block hinitial
    obtain ⟨plain, hplain⟩ := Option.isSome_iff_exists.1 hdata
    exact ⟨_, encrypt_eq_ok.2
      ⟨keys, block, plain, hkeys, hblock, blocks?_eq_some_iff.1 hplain, rfl⟩⟩

theorem eq_of_wholeBlocks_eq_error {data : Bytes} {error : KeyError}
    (h : wholeBlocks data = .error error) : error = .invalidPadding := by
  unfold wholeBlocks at h
  split at h <;> cases h
  rfl

theorem of_setup_eq_error {key initial : Bytes} {error : KeyError}
    (h : setup key initial = .error error) :
    error = .invalidKeyLength ∧
      ¬ ((key.length = 16 ∨ key.length = 24 ∨ key.length = 32) ∧ initial.length = blockSize) := by
  constructor
  · unfold setup at h
    split at h <;> cases h
    rfl
  · rintro ⟨hkey, hinitial⟩
    obtain ⟨keys, hkeys⟩ := Option.isSome_iff_exists.1 ((isSome_roundKeys? key).2 hkey)
    obtain ⟨block, hblock⟩ := exists_block hinitial
    rw [setup_eq_ok.2 ⟨hkeys, hblock⟩] at h
    cases h

/-- Decryption refuses a body that does not divide into blocks, and before that a key or an initial
block of a wrong length. -/
theorem of_decrypt_eq_error {key initial body : Bytes} {error : KeyError}
    (h : decrypt key initial body = .error error) :
    error = .invalidPadding ∨ error = .invalidKeyLength ∧
      ¬ ((key.length = 16 ∨ key.length = 24 ∨ key.length = 32) ∧ initial.length = blockSize) := by
  unfold decrypt at h
  cases hsetup : setup key initial with
  | error e =>
    rw [hsetup] at h
    cases h
    exact .inr (of_setup_eq_error hsetup)
  | ok pair =>
    rw [hsetup] at h
    cases hblocks : wholeBlocks body with
    | error e =>
      rw [hblocks] at h
      cases h
      exact .inl (eq_of_wholeBlocks_eq_error hblocks)
    | ok blocks =>
      rw [hblocks] at h
      cases h

end Keyring.Cbc
