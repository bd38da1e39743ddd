import Mathlib.Order.Bounds.Defs
import Keyring.Format.Padding
import Keyring.Proofs.Ranged

/-!
# Padding is a bijection onto what is accepted

For block sizes that a byte can hold, the padded message is the shortest whole number of blocks that
is longer than the message, and taking padding off accepts exactly the padded messages.
-/

namespace Keyring.Padding

variable {block : Nat} {data text : Bytes}

/-! ## The amount -/

/-- How many bytes fill up a message of the given length. -/
def count (block length : Nat) : Nat := block - length % block

theorem pad_eq (block : Nat) (data : Bytes) :
    pad block data =
      data ++ List.replicate (count block data.length) (UInt8.ofNat (count block data.length)) :=
  rfl

theorem count_pos (hpos : 0 < block) (length : Nat) : 0 < count block length :=
  Nat.sub_pos_of_lt (Nat.mod_lt length hpos)

theorem count_le (block length : Nat) : count block length ≤ block :=
  Nat.sub_le ..

theorem length_add_count (hpos : 0 < block) (length : Nat) :
    length + count block length = block * (length / block + 1) := by
  have hsplit := Nat.div_add_mod length block
  have hmod := Nat.mod_lt length hpos
  rw [Nat.mul_succ, count]
  omega

/-- The amount is the only one of at most a block that gives whole blocks. -/
theorem eq_count {length n : Nat} (hn : 0 < n) (hle : n ≤ block) (hdvd : block ∣ length + n) :
    n = count block length := by
  have hpos : 0 < block := Nat.lt_of_lt_of_le hn hle
  have hcount := length_add_count hpos length
  obtain ⟨k, hk⟩ := hdvd
  have hlower : length / block < k := Nat.div_lt_of_lt_mul (by omega)
  have hupper : k < length / block + 1 + 1 := by
    apply Nat.lt_of_mul_lt_mul_left (a := block)
    have := count_pos hpos length
    rw [Nat.mul_succ]
    omega
  obtain rfl : k = length / block + 1 := by omega
  omega

/-! ## Filling up -/

theorem length_pad (hpos : 0 < block) (data : Bytes) :
    (pad block data).length = block * (data.length / block + 1) := by
  rw [pad_eq, List.length_append, List.length_replicate, length_add_count hpos]

/-- A padded message has the least number of whole blocks that is longer than the message. -/
theorem isLeast_length_pad (hpos : 0 < block) (data : Bytes) :
    IsLeast {n | block ∣ n ∧ data.length < n} (pad block data).length := by
  rw [length_pad hpos]
  constructor
  · exact ⟨Nat.dvd_mul_right .., Nat.lt_mul_div_succ data.length hpos⟩
  · rintro n ⟨⟨k, rfl⟩, hlt⟩
    apply Nat.mul_le_mul_left
    exact Nat.div_lt_of_lt_mul hlt

/-! ## Taking off -/

/-- The tests that taking off makes, as one condition. -/
theorem unpad_eq_ok_iff_tests :
    unpad block data = .ok text ↔
      ∃ last, data.getLast? = some last ∧ data.length % block = 0 ∧
        (0 < last.toNat ∧ last.toNat ≤ block) ∧
        (∀ b ∈ data.drop (data.length - last.toNat), b = last) ∧
        text = data.take (data.length - last.toNat) := by
  unfold unpad
  cases data.getLast? with
  | none => simp
  | some last =>
    simp only [Option.some.injEq, exists_eq_left']
    split
    case isTrue hmod => exact ⟨nofun, fun h => absurd h.1 hmod⟩
    case isFalse hmod =>
      split
      case isTrue hrange =>
        refine ⟨nofun, ?_⟩
        rintro ⟨-, ⟨hpos, hle⟩, -⟩
        omega
      case isFalse hrange =>
        split
        case isTrue hany =>
          refine ⟨nofun, ?_⟩
          rintro ⟨-, -, hall, -⟩
          simp only [List.any_eq_true, decide_eq_true_eq] at hany
          obtain ⟨b, hb, hne⟩ := hany
          exact absurd (hall b hb) hne
        case isFalse hany =>
          simp only [List.any_eq_true, decide_eq_true_eq, not_exists, not_and, ne_eq,
            Decidable.not_not] at hany hmod
          constructor
          · intro h
            cases h
            exact ⟨hmod, by omega, hany, rfl⟩
          · rintro ⟨-, -, -, rfl⟩
            rfl

/-- What is accepted: whole blocks that end in at least one and at most a block of bytes, each of
which is their number. -/
theorem unpad_eq_ok (hblock : block ≤ 255) :
    unpad block data = .ok text ↔
      ∃ n, 0 < n ∧ n ≤ block ∧ block ∣ data.length ∧
        data = text ++ List.replicate n (UInt8.ofNat n) := by
  rw [unpad_eq_ok_iff_tests]
  constructor
  · rintro ⟨last, hlast, hmod, ⟨hpos, hle⟩, hall, rfl⟩
    refine ⟨last.toNat, hpos, hle, Nat.dvd_of_mod_eq_zero hmod, ?_⟩
    -- the string is not empty, so it has at least a block
    have hne : data ≠ [] := by
      rintro rfl
      cases hlast
    have hlength : last.toNat ≤ data.length :=
      Nat.le_trans hle (Nat.le_of_dvd (List.length_pos_iff.2 hne) (Nat.dvd_of_mod_eq_zero hmod))
    have htail : data.drop (data.length - last.toNat) = List.replicate last.toNat last := by
      apply List.eq_replicate_iff.2
      exact ⟨by rw [List.length_drop]; omega, hall⟩
    rw [UInt8.ofNat_toNat, ← htail, List.take_append_drop]
  · rintro ⟨n, hn, hle, hdvd, rfl⟩
    have htoNat : (UInt8.ofNat n).toNat = n := by
      rw [UInt8.toNat_ofNat']
      omega
    have hlast : (text ++ List.replicate n (UInt8.ofNat n)).getLast? = some (UInt8.ofNat n) := by
      rw [List.getLast?_append, List.getLast?_replicate, if_neg (by omega), Option.some_or]
    refine ⟨UInt8.ofNat n, hlast, Nat.mod_eq_zero_of_dvd hdvd, ?_, ?_, ?_⟩
    all_goals rw [htoNat]
    · exact ⟨hn, hle⟩
    · simp
    · simp

/-- Taking off is the inverse of filling up: it accepts the padded messages and nothing else. -/
theorem unpad_eq_ok_iff_pad (hpos : 0 < block) (hblock : block ≤ 255) :
    unpad block data = .ok text ↔ data = pad block text := by
  rw [unpad_eq_ok hblock]
  constructor
  · rintro ⟨n, hn, hle, hdvd, rfl⟩
    rw [List.length_append, List.length_replicate] at hdvd
    rw [pad_eq, ← eq_count hn hle hdvd]
  · rintro rfl
    refine ⟨count block text.length, count_pos hpos _, count_le .., ?_, pad_eq block text⟩
    rw [length_pad hpos]
    exact Nat.dvd_mul_right ..

/-- There is only one way to refuse. -/
theorem eq_invalidPadding_of_unpad {error : KeyError} (h : unpad block data = .error error) :
    error = .invalidPadding := by
  unfold unpad at h
  split at h
  · cases h
    rfl
  · simp only at h
    repeat' split at h
    all_goals cases h
    all_goals rfl

/-! ## Staying within bounds -/

/-- Filling up, with the remainder and the difference checked. -/
def padRanged (block : Nat) (data : Bytes) : Ranged Bytes := do
  let beyond ← Ranged.mod? data.length block
  let count ← Ranged.sub? block beyond
  .within (.ok (data ++ List.replicate count (UInt8.ofNat count)))

theorem padRanged_eq (hpos : 0 < block) (data : Bytes) :
    padRanged block data = .within (.ok (pad block data)) := by
  have hbeyond : data.length % block ≤ block := Nat.le_of_lt (Nat.mod_lt _ hpos)
  rw [padRanged, Ranged.mod?_of_pos hpos, Ranged.within_ok_bind, Ranged.sub?_of_le hbeyond,
    Ranged.within_ok_bind]
  rfl

/-- Taking off, with every access to the bytes checked. -/
def unpadRanged (block : Nat) (data : Bytes) : Ranged Bytes :=
  if data.isEmpty ∨ data.length % block ≠ 0 then .within (.error .invalidPadding)
  else do
    let last ← Ranged.at? data (← Ranged.sub? data.length 1)
    if last.toNat = 0 ∨ block < last.toNat then .within (.error .invalidPadding)
    else do
      let (front, filling) ← Ranged.splitAt? data (← Ranged.sub? data.length last.toNat)
      if filling.any (· ≠ last) then .within (.error .invalidPadding)
      else .within (.ok front)

/-- Whatever the bytes are, no access is out of bounds. -/
theorem unpadRanged_eq (block : Nat) (data : Bytes) :
    unpadRanged block data = .within (unpad block data) := by
  unfold unpadRanged unpad
  cases hlast : data.getLast? with
  | none =>
    rw [List.getLast?_eq_none_iff.1 hlast]
    rfl
  | some last =>
    have hne : data ≠ [] := by
      rintro rfl
      cases hlast
    have hlength : 0 < data.length := List.length_pos_iff.2 hne
    have hat : Ranged.at? data (data.length - 1) = .within (.ok last) := by
      rw [Ranged.at?, ← List.getLast?_eq_getElem?, hlast]
    by_cases hmod : data.length % block = 0
    · rw [if_neg (by simp [hne, hmod]), Ranged.sub?_of_le hlength, Ranged.within_ok_bind, hat,
        Ranged.within_ok_bind]
      by_cases hrange : last.toNat = 0 ∨ block < last.toNat
      · simp [hmod, hrange]
      · have hblock : block ≤ data.length :=
          Nat.le_of_dvd hlength (Nat.dvd_of_mod_eq_zero hmod)
        rw [if_neg hrange, Ranged.sub?_of_le (by omega), Ranged.within_ok_bind,
          Ranged.splitAt?_of_le (Nat.sub_le ..), Ranged.within_ok_bind]
        simp only [hmod, hrange]
        split <;> rfl
    · rw [if_pos (.inr hmod)]
      simp only [if_pos hmod]

/-! ## Both ways -/

/-- **Padding is a bijection onto what is accepted.** For every block size that a byte can hold,
every message and every byte string: the padded message has the least number of whole blocks that is
longer than the message, and is filled with bytes that denote how many they are; it is read as the
message; a byte string is read as a message only if it is the padded message, and each of the others
is refused for its padding; and no step of either operation is out of bounds. -/
theorem accepts_exactly_padded (hpos : 0 < block) (hblock : block ≤ 255) (data padded : Bytes) :
    IsLeast {n | block ∣ n ∧ data.length < n} (pad block data).length ∧
    (∃ filling : UInt8, (0 < filling.toNat ∧ filling.toNat ≤ block) ∧
      pad block data = data ++ List.replicate filling.toNat filling) ∧
    unpad block (pad block data) = .ok data ∧
    (∀ text, unpad block padded = .ok text ↔ pad block text = padded) ∧
    (∀ error, unpad block padded = .error error ↔
      error = .invalidPadding ∧ ∀ text, pad block text ≠ padded) ∧
    padRanged block data = .within (.ok (pad block data)) ∧
    unpadRanged block padded = .within (unpad block padded) := by
  have hread (text : Bytes) : unpad block padded = .ok text ↔ pad block text = padded := by
    rw [unpad_eq_ok_iff_pad hpos hblock, eq_comm]
  refine ⟨isLeast_length_pad hpos data, ?_, (unpad_eq_ok_iff_pad hpos hblock).2 rfl, hread, ?_,
    padRanged_eq hpos data, unpadRanged_eq block padded⟩
  · have hfits : (UInt8.ofNat (count block data.length)).toNat = count block data.length :=
      UInt8.toNat_ofNat_of_lt' (Nat.lt_of_le_of_lt (count_le ..) (Nat.lt_succ_of_le hblock))
    refine ⟨UInt8.ofNat (count block data.length), ?_, ?_⟩
    all_goals rw [hfits]
    · exact ⟨count_pos hpos _, count_le ..⟩
    · exact pad_eq block data
  · intro error
    simp only [ne_eq, ← hread]
    cases h : unpad block padded with
    | ok text => simp
    | error found => simp [eq_invalidPadding_of_unpad h, eq_comm]

/-- The longest filling, of the empty message, and the shortest one, behind a byte like it. -/
theorem accepts_exactly_padded_extremes :
    unpad 255 (List.replicate 255 255) = .ok [] ∧ unpad 1 [1, 1] = .ok [1] := by
  obtain ⟨-, -, -, hlong, -⟩ :=
    @accepts_exactly_padded 255 (by decide) (by decide) [] (List.replicate 255 255)
  obtain ⟨-, -, -, hshort, -⟩ :=
    @accepts_exactly_padded 1 (by decide) (by decide) [1] [1, 1]
  exact ⟨(hlong []).2 rfl, (hshort [1]).2 rfl⟩

end Keyring.Padding
