import Keyring.Text.Web64

/-!
# Web-safe base64 reads back

Main statement: the spelling of a byte string is read as that byte string. Three bytes fill four
symbols exactly, and the bits that a shorter last group does not fill are written as zero, so the
reader finds nothing to object to.
-/

namespace Keyring.Web64

/-! ## Symbols -/

theorem value?_symbol : ∀ v < 64, value? (symbol v) = some v := by decide

/-- A symbol is a single byte of the text, and the character it stands for is no control. -/
theorem char_symbol : ∀ v < 64,
    String.utf8EncodeChar (Char.ofNat (symbol v).toNat) = [symbol v] ∧
      0x20 ≤ (Char.ofNat (symbol v).toNat).toNat := by decide

theorem ne_padding_of_isSome {b : UInt8} (h : (value? b).isSome) : b ≠ padding := by
  rintro rfl
  cases h

/-! ## Six-bit values -/

theorem lt_of_mem_split {bytes : Bytes} {v : Nat} (h : v ∈ split bytes) : v < 64 := by
  induction bytes using split.induct with
  | case1 => cases h
  | case2 a =>
    have ha := a.toNat_lt
    simp only [split, List.mem_cons, List.not_mem_nil, or_false] at h
    omega
  | case3 a b =>
    have ha := a.toNat_lt
    have hb := b.toNat_lt
    simp only [split, List.mem_cons, List.not_mem_nil, or_false] at h
    omega
  | case4 a b c rest ih =>
    have ha := a.toNat_lt
    have hb := b.toNat_lt
    have hc := c.toNat_lt
    simp only [split, List.mem_cons] at h
    obtain h | h | h | h | h := h
    · omega
    · omega
    · omega
    · omega
    · exact ih h

theorem length_split_mod (bytes : Bytes) : (split bytes).length % 4 ≠ 1 := by
  induction bytes using split.induct with
  | case1 => decide
  | case2 a => simp [split]
  | case3 a b => simp [split]
  | case4 a b c rest ih =>
    simp only [split, List.length_cons]
    omega

/-- The last group starts four values later behind a complete group, unless that is the last. -/
theorem lastGroupStart_add_four {length : Nat} (h : 0 < length) :
    lastGroupStart (length + 4) = lastGroupStart length + 4 := by
  unfold lastGroupStart
  omega

/-- The bits that the last group does not fill are zero. -/
theorem unusedBits_drop_split (bytes : Bytes) :
    unusedBits ((split bytes).drop (lastGroupStart (split bytes).length)) = 0 := by
  induction bytes using split.induct with
  | case1 => rfl
  | case2 a => simp [split, lastGroupStart, unusedBits]
  | case3 a b => simp [split, lastGroupStart, unusedBits]
  | case4 a b c rest ih =>
    rcases hrest : split rest with _ | ⟨v, values⟩
    · simp [split, hrest, lastGroupStart, unusedBits]
    · rw [hrest] at ih
      have hstart := lastGroupStart_add_four (Nat.succ_pos values.length)
      simp only [split, hrest, List.length_cons, hstart]
      exact ih

/-! Each byte is put together again from the two values that hold its bits. -/

theorem ofNat_high (a b : UInt8) :
    UInt8.ofNat (a.toNat / 4 * 4 + (a.toNat % 4 * 16 + b.toNat / 16) / 16) = a := by
  have ha := a.toNat_lt
  have hb := b.toNat_lt
  apply UInt8.toNat_inj.1
  rw [UInt8.toNat_ofNat']
  omega

theorem ofNat_middle (a b c : UInt8) :
    UInt8.ofNat ((a.toNat % 4 * 16 + b.toNat / 16) % 16 * 16 +
      (b.toNat % 16 * 4 + c.toNat / 64) / 4) = b := by
  have hb := b.toNat_lt
  have hc := c.toNat_lt
  apply UInt8.toNat_inj.1
  rw [UInt8.toNat_ofNat']
  omega

theorem ofNat_low (b c : UInt8) :
    UInt8.ofNat ((b.toNat % 16 * 4 + c.toNat / 64) % 4 * 64 + c.toNat % 64) = c := by
  have hc := c.toNat_lt
  apply UInt8.toNat_inj.1
  rw [UInt8.toNat_ofNat']
  omega

theorem join_split (bytes : Bytes) : join (split bytes) = bytes := by
  induction bytes using split.induct with
  | case1 => rfl
  | case2 a => exact congrArg ([·]) (ofNat_high a 0)
  | case3 a b => exact congr (congrArg ([·, ·]) (ofNat_high a b)) (ofNat_middle a b 0)
  | case4 a b c rest ih =>
    rw [split, join, ofNat_high, ofNat_middle, ofNat_low, ih]

/-! ## Texts of symbols -/

theorem strayLast?_eq_none {bytes : Bytes} (h : ∀ b ∈ bytes, (value? b).isSome) :
    strayLast? bytes = none := by
  unfold strayLast?
  split
  case h_1 b hlast =>
    have hb : (value? b).isSome := h b (List.mem_of_getLast? hlast)
    rw [if_neg]
    rintro ⟨-, -, hnone⟩
    rw [Option.isNone_iff_eq_none.1 hnone] at hb
    cases hb
  case h_2 => rfl

theorem firstNonSymbol?_eq_none {bytes : Bytes} (h : ∀ b ∈ bytes, (value? b).isSome)
    (offset : Nat) : firstNonSymbol? offset bytes = none := by
  induction bytes generalizing offset with
  | nil => rfl
  | cons b rest ih =>
    rw [List.forall_mem_cons] at h
    rw [firstNonSymbol?, if_pos h.1]
    exact ih h.2 (offset + 1)

theorem tailFault?_eq_none {bytes : Bytes} (h : ∀ b ∈ bytes, (value? b).isSome)
    (start index : Nat) : tailFault? start index none bytes = none := by
  induction bytes generalizing index with
  | nil => rfl
  | cons b rest ih =>
    rw [List.forall_mem_cons] at h
    rw [tailFault?, if_neg (ne_padding_of_isSome h.1), if_pos h.1]
    exact ih h.2 (index + 1)

theorem groupFault?_eq_none {tail : Bytes} (h : ∀ b ∈ tail, (value? b).isSome)
    (hlength : 2 ≤ tail.length) (hunused : unusedBits (tail.filterMap value?) = 0)
    (start : Nat) : groupFault? start tail = none := by
  have hfilter : tail.filter (· ≠ padding) = tail :=
    List.filter_eq_self.2 fun b hb => decide_eq_true (ne_padding_of_isSome (h b hb))
  simp only [groupFault?, hfilter]
  rw [if_neg (by omega), if_neg (by omega), if_neg (by omega)]

/-- A text of symbols is only refused for its length and for its unused bits. -/
theorem fault?_eq_none {bytes : Bytes} (h : ∀ b ∈ bytes, (value? b).isSome)
    (hlength : bytes.length % 4 ≠ 1)
    (hunused : unusedBits ((bytes.drop (lastGroupStart bytes.length)).filterMap value?) = 0) :
    fault? bytes = none := by
  unfold fault?
  split
  case isTrue => rfl
  case isFalse hempty =>
    have hpos : 0 < bytes.length := List.length_pos_iff.2 fun hnil => hempty (by rw [hnil]; rfl)
    have htake : ∀ b ∈ bytes.take (lastGroupStart bytes.length), (value? b).isSome :=
      fun b hb => h b (List.mem_of_mem_take hb)
    have hdrop : ∀ b ∈ bytes.drop (lastGroupStart bytes.length), (value? b).isSome :=
      fun b hb => h b (List.mem_of_mem_drop hb)
    have hlast : 2 ≤ (bytes.drop (lastGroupStart bytes.length)).length := by
      rw [List.length_drop, lastGroupStart]
      omega
    simp only [strayLast?_eq_none h, firstNonSymbol?_eq_none htake, tailFault?_eq_none hdrop,
      groupFault?_eq_none hdrop hlast hunused]
    rfl

/-! ## Spellings -/

theorem flatMap_utf8EncodeChar_symbol {values : List Nat} (h : ∀ v ∈ values, v < 64) :
    (values.map fun v => Char.ofNat (symbol v).toNat).flatMap String.utf8EncodeChar =
      values.map symbol := by
  induction values with
  | nil => rfl
  | cons v rest ih =>
    rw [List.forall_mem_cons] at h
    rw [List.map_cons, List.flatMap_cons, (char_symbol v h.1).1, ih h.2]
    rfl

theorem filterMap_value?_symbol {values : List Nat} (h : ∀ v ∈ values, v < 64) :
    (values.map symbol).filterMap value? = values := by
  induction values with
  | nil => rfl
  | cons v rest ih =>
    rw [List.forall_mem_cons] at h
    rw [List.map_cons, List.filterMap_cons_some (value?_symbol v h.1), ih h.2]

theorem ofText_encode (bytes : Bytes) : Bytes.ofText (encode bytes) = (split bytes).map symbol := by
  rw [Bytes.ofText, encode, String.toList_ofList]
  exact flatMap_utf8EncodeChar_symbol fun v => lt_of_mem_split

/-- No spelling has a control character. -/
theorem le_toNat_of_mem_encode {bytes : Bytes} {c : Char} (h : c ∈ (encode bytes).toList) :
    0x20 ≤ c.toNat := by
  rw [encode, String.toList_ofList] at h
  obtain ⟨v, hv, rfl⟩ := List.mem_map.1 h
  exact (char_symbol v (lt_of_mem_split hv)).2

/-- **A spelling reads back.** For every byte string, reading the text that spells it succeeds and
gives the byte string. -/
theorem decode_encode (bytes : Bytes) : decode (encode bytes) = .ok bytes := by
  have hvalues : ∀ v ∈ split bytes, v < 64 := fun v => lt_of_mem_split
  have hsymbols : ∀ b ∈ (split bytes).map symbol, (value? b).isSome := by
    rw [List.forall_mem_map]
    exact fun v hv => Option.isSome_of_mem (value?_symbol v (hvalues v hv))
  have hunused : unusedBits ((((split bytes).map symbol).drop
      (lastGroupStart ((split bytes).map symbol).length)).filterMap value?) = 0 := by
    rw [List.length_map, ← List.map_drop,
      filterMap_value?_symbol fun v hv => hvalues v (List.mem_of_mem_drop hv)]
    exact unusedBits_drop_split bytes
  have hlength : ((split bytes).map symbol).length % 4 ≠ 1 := by
    rw [List.length_map]
    exact length_split_mod bytes
  simp only [decode, ofText_encode, fault?_eq_none hsymbols hlength hunused,
    filterMap_value?_symbol hvalues, join_split]

end Keyring.Web64
