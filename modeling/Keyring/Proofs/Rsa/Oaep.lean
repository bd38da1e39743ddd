import Keyring.Rsa.Oaep

/-!
# Blocks are read back

The seed masks the data, and the masked data masks the seed. Taking the masks off in the other order
gives both back, and putting them on again gives the block. Behind the masks, the separator is the
first byte of the data that is not zero. Main statement: a block is accepted as the block of a
message just when it is made from the message and some seed.
-/

namespace Keyring

namespace Bytes

@[simp] theorem length_xor (a b : Bytes) : (xor a b).length = min a.length b.length :=
  List.length_zipWith

/-- The same mask twice is no mask. -/
theorem xor_xor_cancel {a b : Bytes} (h : a.length = b.length) : xor (xor a b) b = a := by
  induction a generalizing b with
  | nil => rfl
  | cons x xs ih =>
    obtain _ | ⟨y, ys⟩ := b
    · cases h
    · have hbyte : (x ^^^ y) ^^^ y = x := by
        rw [UInt8.xor_assoc, UInt8.xor_self, UInt8.xor_zero]
      show ((x ^^^ y) ^^^ y) :: xor (xor xs ys) ys = x :: xs
      rw [hbyte, ih (Nat.succ.inj h)]

end Bytes

namespace Rsa.Oaep

/-! ## Masks -/

@[simp] theorem length_labelDigest : labelDigest.length = seedLength :=
  Sha1.length_digest []

theorem length_maskStream (seed : Bytes) (count : Nat) :
    ((List.range count).flatMap fun counter =>
      Sha1.digest (seed ++ Bytes.ofNat 4 counter)).length = count * 20 := by
  simp only [List.length_flatMap, Sha1.length_digest, Sha1.digestLength, List.map_const',
    List.length_range, List.sum_replicate_nat]

@[simp] theorem length_mask (seed : Bytes) (length : Nat) : (mask seed length).length = length := by
  unfold mask
  rw [List.length_take, length_maskStream]
  omega

/-- A block of a masked seed and masked data behind a zero byte. -/
def masked (seed data : Bytes) : Bytes :=
  let maskedData := Bytes.xor data (mask seed data.length)
  0 :: Bytes.xor seed (mask maskedData seedLength) ++ maskedData

theorem encode_eq_masked (length : Nat) (seed message : Bytes) :
    encode length seed message = masked seed (dataBlock length message) :=
  rfl

theorem length_masked {seed : Bytes} (hseed : seed.length = seedLength) (data : Bytes) :
    (masked seed data).length = 1 + seedLength + data.length := by
  simp only [masked, List.cons_append, List.length_cons, List.length_append, Bytes.length_xor,
    length_mask, hseed, Nat.min_self]
  omega

/-- The two parts of a block, still masked, and what taking the masks off makes of them. -/
theorem unmask_append {first : UInt8} {maskedSeed maskedData : Bytes}
    (hseed : maskedSeed.length = seedLength) :
    unmask (first :: maskedSeed ++ maskedData) =
      let seed := Bytes.xor maskedSeed (mask maskedData seedLength)
      (seed, Bytes.xor maskedData (mask seed maskedData.length)) := by
  have hfront : ((first :: maskedSeed ++ maskedData).drop 1).take seedLength = maskedSeed :=
    List.take_left' hseed
  have hback : (first :: maskedSeed ++ maskedData).drop (1 + seedLength) = maskedData := by
    apply List.drop_left'
    rw [List.length_cons, hseed, Nat.add_comm]
  unfold unmask
  rw [hfront, hback]

theorem unmask_masked {seed : Bytes} (hseed : seed.length = seedLength) (data : Bytes) :
    unmask (masked seed data) = (seed, data) := by
  have hmaskedSeed (maskedData : Bytes) :
      (Bytes.xor seed (mask maskedData seedLength)).length = seedLength := by
    rw [Bytes.length_xor, length_mask, hseed, Nat.min_self]
  have hmaskedData : (Bytes.xor data (mask seed data.length)).length = data.length := by
    rw [Bytes.length_xor, length_mask, Nat.min_self]
  unfold masked
  rw [unmask_append (hmaskedSeed _)]
  simp only
  rw [Bytes.xor_xor_cancel (by rw [length_mask, hseed]), hmaskedData,
    Bytes.xor_xor_cancel (length_mask _ _).symm]

/-- Parts that are unmasked and masked again are the parts. -/
theorem masked_unmasked {maskedSeed maskedData seed : Bytes}
    (hmaskedSeed : maskedSeed.length = seedLength)
    (hseed : seed = Bytes.xor maskedSeed (mask maskedData seedLength)) :
    masked seed (Bytes.xor maskedData (mask seed maskedData.length)) =
      0 :: maskedSeed ++ maskedData := by
  have hdata : (Bytes.xor maskedData (mask seed maskedData.length)).length = maskedData.length := by
    rw [Bytes.length_xor, length_mask, Nat.min_self]
  have hagain : Bytes.xor seed (mask maskedData seedLength) = maskedSeed := by
    rw [hseed]
    exact Bytes.xor_xor_cancel (by rw [length_mask, hmaskedSeed])
  unfold masked
  simp only
  rw [hdata, Bytes.xor_xor_cancel (length_mask _ _).symm, hagain]

/-- A block that begins with zero, and is long enough for a seed, is its own parts masked again. -/
theorem masked_unmask {block : Bytes} (hfirst : block.head? = some 0)
    (hlength : 1 + seedLength ≤ block.length) :
    (unmask block).1.length = seedLength ∧ masked (unmask block).1 (unmask block).2 = block := by
  obtain _ | ⟨first, rest⟩ := block
  · cases hfirst
  · cases hfirst
    rw [List.length_cons] at hlength
    obtain ⟨maskedSeed, maskedData, hmaskedSeed, rfl⟩ :
        ∃ maskedSeed maskedData : Bytes, maskedSeed.length = seedLength ∧
          rest = maskedSeed ++ maskedData :=
      ⟨_, _, List.length_take_of_le (by omega), (List.take_append_drop seedLength rest).symm⟩
    rw [← List.cons_append, unmask_append hmaskedSeed]
    constructor
    · show (Bytes.xor maskedSeed (mask maskedData seedLength)).length = seedLength
      rw [Bytes.length_xor, length_mask, hmaskedSeed, Nat.min_self]
    · exact masked_unmasked hmaskedSeed rfl

/-! ## The data block -/

/-- The message is what stands behind a run of zeros and a one. -/
theorem message?_eq_some_iff {data message : Bytes} :
    message? data = some message ↔ ∃ count, data = List.replicate count 0 ++ 1 :: message := by
  induction data with
  | nil =>
    refine ⟨nofun, ?_⟩
    rintro ⟨count, h⟩
    have hlength := congrArg List.length h
    simp at hlength
  | cons b rest ih =>
    rw [message?]
    split
    case isTrue hzero =>
      subst hzero
      rw [ih]
      constructor
      · rintro ⟨count, rfl⟩
        exact ⟨count + 1, rfl⟩
      · rintro ⟨count, h⟩
        obtain _ | count := count
        · cases h
        · exact ⟨count, (List.cons.inj h).2⟩
    case isFalse hnonzero =>
      split
      case isTrue hone =>
        subst hone
        constructor
        · intro h
          cases h
          exact ⟨0, rfl⟩
        · rintro ⟨count, h⟩
          obtain _ | count := count
          · exact congrArg some (List.cons.inj h).2
          · exact absurd (List.cons.inj h).1 hnonzero
      case isFalse hother =>
        refine ⟨nofun, ?_⟩
        rintro ⟨count, h⟩
        obtain _ | count := count
        · exact absurd (List.cons.inj h).1 hother
        · exact absurd (List.cons.inj h).1 hnonzero

theorem length_dataBlock {length : Nat} {message : Bytes}
    (h : message.length + overhead ≤ length) :
    1 + seedLength + (dataBlock length message).length = length := by
  simp only [dataBlock, List.length_append, List.length_replicate, List.length_cons,
    length_labelDigest]
  simp only [overhead, seedLength, Sha1.digestLength] at h ⊢
  omega

/-- Data that fill a block are accepted just when they are the data block of the message. -/
theorem data_accepted_iff {length : Nat} {data message : Bytes}
    (hlength : 1 + seedLength + data.length = length) :
    data.take seedLength = labelDigest ∧ message? (data.drop seedLength) = some message ↔
      message.length + overhead ≤ length ∧ data = dataBlock length message := by
  rw [message?_eq_some_iff]
  constructor
  · rintro ⟨hlabel, count, hrest⟩
    have hdata : data = labelDigest ++ List.replicate count 0 ++ 1 :: message := by
      rw [← hlabel, List.append_assoc, ← hrest, List.take_append_drop]
    have hcount := congrArg List.length hdata
    simp only [List.length_append, List.length_replicate, List.length_cons,
      length_labelDigest] at hcount
    have hrun : count = length - overhead - message.length := by
      simp only [overhead, seedLength, Sha1.digestLength] at hcount hlength ⊢
      omega
    constructor
    · simp only [overhead, seedLength, Sha1.digestLength] at hcount hlength ⊢
      omega
    · rw [hdata, hrun, dataBlock]
  · rintro ⟨-, rfl⟩
    unfold dataBlock
    rw [List.append_assoc]
    exact ⟨List.take_left' length_labelDigest, _, List.drop_left' length_labelDigest⟩

/-! ## Blocks -/

theorem decode?_eq_some {block message : Bytes} :
    decode? block = some message ↔ block.head? = some 0 ∧
      (unmask block).2.take seedLength = labelDigest ∧
      message? ((unmask block).2.drop seedLength) = some message := by
  show (if block.head? = some 0 ∧ (unmask block).2.take seedLength = labelDigest then
    message? ((unmask block).2.drop seedLength) else none) = some message ↔ _
  split
  case isTrue h => exact ⟨fun hmessage => ⟨h.1, h.2, hmessage⟩, fun hall => hall.2.2⟩
  case isFalse h => exact ⟨nofun, fun hall => absurd ⟨hall.1, hall.2.1⟩ h⟩

theorem length_encode {length : Nat} {seed message : Bytes} (hseed : seed.length = seedLength)
    (h : message.length + overhead ≤ length) : (encode length seed message).length = length := by
  rw [encode_eq_masked, length_masked hseed, length_dataBlock h]

/-- A block holds a message just when it is the block of the message with some seed. -/
theorem decode?_eq_some_iff {length : Nat} {block message : Bytes}
    (hlength : block.length = length) :
    decode? block = some message ↔ message.length + overhead ≤ length ∧
      ∃ seed : Bytes, seed.length = seedLength ∧ block = encode length seed message := by
  rw [decode?_eq_some]
  constructor
  · rintro ⟨hfirst, hlabel, hmessage⟩
    -- the label alone shows that the block has room for a seed
    have hroom : 1 + seedLength ≤ block.length := by
      have hdata := congrArg List.length hlabel
      rw [length_labelDigest, List.length_take] at hdata
      simp only [unmask, Bytes.length_xor, length_mask, List.length_drop] at hdata
      simp only [seedLength, Sha1.digestLength] at hdata ⊢
      omega
    obtain ⟨hseed, hmasked⟩ := masked_unmask hfirst hroom
    have hfill : 1 + seedLength + (unmask block).2.length = length := by
      rw [← length_masked hseed, hmasked, hlength]
    obtain ⟨hfits, hdata⟩ := (data_accepted_iff hfill).1 ⟨hlabel, hmessage⟩
    refine ⟨hfits, (unmask block).1, hseed, ?_⟩
    rw [encode_eq_masked, ← hdata, hmasked]
  · rintro ⟨hfits, seed, hseed, rfl⟩
    rw [encode_eq_masked, unmask_masked hseed]
    exact ⟨rfl, (data_accepted_iff (length_dataBlock hfits)).2 ⟨hfits, rfl⟩⟩

end Rsa.Oaep

end Keyring
