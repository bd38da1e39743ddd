import Keyring.Proofs.Text.Web64
import Keyring.Record.Value

/-!
# A byte string has one web-safe spelling

A text is a spelling when its characters are symbols, its last group has more than one of them, and
the bits that its last symbol leaves unused are zero. The reader looks for the first problem of a
text, in the order in which it comes upon them; a text without one has just these properties, so
that the values of its symbols can be regrouped into bytes and back. Main statement: a text is read
as a byte string exactly when it is what is written for it, and everything that is not a spelling is
refused as bad base64.
-/

namespace Keyring

/-- Texts with the same bytes are the same. -/
theorem Bytes.ofText_inj {text other : String} (h : ofText text = ofText other) : text = other := by
  have toByteArray_eq (text : String) : text.toByteArray = (ofText text).toByteArray := by
    calc text.toByteArray = (String.ofList text.toList).toByteArray := by rw [String.ofList_toList]
      _ = text.toList.utf8Encode := String.toByteArray_ofList
      _ = (ofText text).toByteArray := rfl
  rw [← String.toByteArray_inj, toByteArray_eq, toByteArray_eq, h]

namespace Web64

variable {bytes tail : Bytes} {text : String} {values : List Nat}

/-! ## Spellings -/

/-- The symbols in the order of their values. -/
def alphabet : List Char :=
  "ABCDEFGHIJKLMNOPQRSTUVWXYZabcdefghijklmnopqrstuvwxyz0123456789-_".toList

/-- Texts that spell a byte string. A last group of two symbols leaves four bits unused, and one of
three leaves two. -/
structure Spelling (text : String) : Prop where
  symbols : ∀ c ∈ text.toList, c ∈ alphabet
  length : text.length % 4 ≠ 1
  unused : ∀ last ∈ text.toList.getLast?,
    (text.length % 4 = 2 → alphabet.idxOf last % 16 = 0) ∧
      (text.length % 4 = 3 → alphabet.idxOf last % 4 = 0)

/-- The same of the values of the symbols: they can be regrouped into bytes without a loss. -/
structure Regroups (values : List Nat) : Prop where
  lt : ∀ v ∈ values, v < 64
  length : values.length % 4 ≠ 1
  unused : ∀ last ∈ values.getLast?,
    (values.length % 4 = 2 → last % 16 = 0) ∧ (values.length % 4 = 3 → last % 4 = 0)

/-- Induction by groups, from the last group on. -/
theorem groups_induction {motive : List Nat → Prop} (nil : motive []) (one : ∀ a, motive [a])
    (two : ∀ a b, motive [a, b]) (three : ∀ a b c, motive [a, b, c])
    (group : ∀ a b c d rest, motive rest → motive (a :: b :: c :: d :: rest))
    (values : List Nat) : motive values := by
  induction values using join.induct with
  | case1 a b c d rest ih => exact group a b c d rest ih
  | case2 a b c => exact three a b c
  | case3 a b => exact two a b
  | case4 values hfour hthree htwo =>
    rcases values with _ | ⟨a, _ | ⟨b, _ | ⟨c, _ | ⟨d, rest⟩⟩⟩⟩
    · exact nil
    · exact one a
    · exact absurd rfl (htwo a b)
    · exact absurd rfl (hthree a b c)
    · exact absurd rfl (hfour a b c d rest)

/-- The unused bits are those of the last value. -/
theorem unusedBits_drop_eq_zero_iff :
    unusedBits (values.drop (lastGroupStart values.length)) = 0 ↔
      ∀ last ∈ values.getLast?,
        (values.length % 4 = 2 → last % 16 = 0) ∧ (values.length % 4 = 3 → last % 4 = 0) := by
  induction values using groups_induction with
  | nil | one | two | three => simp [lastGroupStart, unusedBits]
  | group a b c d rest ih =>
    rcases rest with _ | ⟨v, rest⟩
    · simp [lastGroupStart, unusedBits]
    · have hlength : (a :: b :: c :: d :: v :: rest).length = (v :: rest).length + 4 := rfl
      have hstart := lastGroupStart_add_four (Nat.succ_pos rest.length)
      rw [hlength, List.length_cons, hstart, Nat.add_mod_right]
      exact ih

/-! ## Regrouping -/

theorem regroups_split (bytes : Bytes) : Regroups (split bytes) where
  lt _ := lt_of_mem_split
  length := length_split_mod bytes
  unused := unusedBits_drop_eq_zero_iff.1 (unusedBits_drop_split bytes)

/-- Values that can be regrouped come back from the bytes they are regrouped into. -/
theorem Regroups.split_join (h : Regroups values) : split (join values) = values := by
  have hlt := h.lt
  induction values using groups_induction with
  | nil => rfl
  | one a => exact absurd rfl h.length
  | two a b =>
    have hunused : b % 16 = 0 := (h.unused b rfl).1 rfl
    simp only [List.forall_mem_cons] at hlt
    obtain ⟨ha, hb, -⟩ := hlt
    simp only [join, split, UInt8.toNat_ofNat', List.cons.injEq, and_true]
    refine ⟨?_, ?_⟩
    all_goals omega
  | three a b c =>
    have hunused : c % 4 = 0 := (h.unused c rfl).2 rfl
    simp only [List.forall_mem_cons] at hlt
    obtain ⟨ha, hb, hc, -⟩ := hlt
    simp only [join, split, UInt8.toNat_ofNat', List.cons.injEq, and_true]
    refine ⟨?_, ?_, ?_⟩
    all_goals omega
  | group a b c d rest ih =>
    have hrest : Regroups rest := by
      refine ⟨fun v hv => hlt v (by simp [hv]), ?_, ?_⟩
      · have hlength := h.length
        simp only [List.length_cons] at hlength
        omega
      · intro last hlast
        have hlast' : last ∈ ([a, b, c, d] ++ rest).getLast? := by
          rw [List.getLast?_append, Option.mem_def.1 hlast, Option.some_or]
          rfl
        have hunused := h.unused last hlast'
        simp only [List.length_cons] at hunused
        omega
    have hback := ih hrest hrest.lt
    simp only [List.forall_mem_cons] at hlt
    obtain ⟨ha, hb, hc, hd, -⟩ := hlt
    simp only [join, split, UInt8.toNat_ofNat', hback, List.cons.injEq, and_true]
    refine ⟨?_, ?_, ?_, ?_⟩
    all_goals omega

/-! ## Texts without a problem -/

theorem symbol_of_value? {b : UInt8} {v : Nat} (h : value? b = some v) : symbol v = b ∧ v < 64 :=
  forall_byte (p := fun b => ∀ v ∈ value? b, symbol v = b ∧ v < 64) (by decide +kernel) b v h

theorem isSome_of_firstNonSymbol? {offset : Nat} (h : firstNonSymbol? offset bytes = none) :
    ∀ b ∈ bytes, (value? b).isSome := by
  induction bytes generalizing offset with
  | nil => exact List.forall_mem_nil _
  | cons b rest ih =>
    rw [firstNonSymbol?] at h
    split at h
    case isTrue hsome => exact List.forall_mem_cons.2 ⟨hsome, ih h⟩
    case isFalse => cases h

theorem isSome_of_tailFault? {start index : Nat} {padded : Option Nat}
    (h : tailFault? start index padded tail = none) :
    ∀ b ∈ tail, b ≠ padding → (value? b).isSome := by
  induction tail generalizing index padded with
  | nil => exact List.forall_mem_nil _
  | cons b rest ih =>
    unfold tailFault? at h
    rw [List.forall_mem_cons]
    split at h
    case isTrue hpadding =>
      split at h
      case isTrue => cases h
      case isFalse => exact ⟨fun hne => absurd hpadding hne, ih h⟩
    case isFalse =>
      split at h
      case h_1 => cases h
      case h_2 =>
        split at h
        case isTrue hsome => exact ⟨fun _ => hsome, ih h⟩
        case isFalse => cases h

/-- A last group without a problem has no padding. -/
theorem of_groupFault? {start : Nat} (h : groupFault? start tail = none) :
    (∀ b ∈ tail, b ≠ padding) ∧ 2 ≤ tail.length ∧ unusedBits (tail.filterMap value?) = 0 := by
  simp only [groupFault?] at h
  split at h
  case isTrue => cases h
  case isFalse htwo =>
    split at h
    case isTrue => cases h
    case isFalse hall =>
      split at h
      case isTrue => cases h
      case isFalse hunused =>
        have hlength : (tail.filter (· ≠ padding)).length = tail.length :=
          Nat.le_antisymm (List.length_filter_le _ _) (Nat.le_of_not_lt hall)
        have hsymbols := List.length_filter_eq_length_iff.1 hlength
        rw [List.filter_eq_self.2 hsymbols] at htwo hunused
        exact ⟨fun b hb => of_decide_eq_true (hsymbols b hb), Nat.le_of_not_lt htwo,
          Decidable.not_not.1 hunused⟩

/-- A text without a problem consists of symbols, is long enough, and has no unused bits set. -/
theorem of_fault?_eq_none (h : fault? bytes = none) :
    (∀ b ∈ bytes, (value? b).isSome) ∧ bytes.length % 4 ≠ 1 ∧
      unusedBits ((bytes.drop (lastGroupStart bytes.length)).filterMap value?) = 0 := by
  unfold fault? at h
  split at h
  case isTrue hempty =>
    obtain rfl := List.isEmpty_iff.1 hempty
    exact ⟨List.forall_mem_nil _, by decide, rfl⟩
  case isFalse hempty =>
    simp only [Option.orElse_eq_orElse, Option.orElse_eq_or, Option.or_eq_none_iff] at h
    obtain ⟨-, hfront, htail, hgroup⟩ := h
    obtain ⟨hpadding, htwo, hunused⟩ := of_groupFault? hgroup
    have hsymbols := isSome_of_firstNonSymbol? hfront
    have hlast := isSome_of_tailFault? htail
    refine ⟨?_, ?_, hunused⟩
    · rw [← List.take_append_drop (lastGroupStart bytes.length) bytes, List.forall_mem_append]
      exact ⟨hsymbols, fun b hb => hlast b hb (hpadding b hb)⟩
    · rw [List.length_drop, lastGroupStart] at htwo
      omega

/-- The values of symbols give the symbols back. -/
theorem map_symbol_filterMap_value? (h : ∀ b ∈ bytes, (value? b).isSome) :
    (bytes.filterMap value?).map symbol = bytes := by
  induction bytes with
  | nil => rfl
  | cons b rest ih =>
    rw [List.forall_mem_cons] at h
    obtain ⟨v, hv⟩ := Option.isSome_iff_exists.1 h.1
    rw [List.filterMap_cons_some hv, List.map_cons, (symbol_of_value? hv).1, ih h.2]

theorem exists_regroups_of_fault?_eq_none (h : fault? bytes = none) :
    ∃ values, Regroups values ∧ bytes = values.map symbol := by
  obtain ⟨hsymbols, hlength, hunused⟩ := of_fault?_eq_none h
  have hmap := map_symbol_filterMap_value? hsymbols
  have hlt : ∀ v ∈ bytes.filterMap value?, v < 64 := by
    intro v hv
    obtain ⟨b, -, hb⟩ := List.mem_filterMap.1 hv
    exact (symbol_of_value? hb).2
  refine ⟨bytes.filterMap value?, ⟨hlt, ?_, unusedBits_drop_eq_zero_iff.1 ?_⟩, hmap.symm⟩
  · rwa [← hmap, List.length_map] at hlength
  · rwa [← hmap, List.length_map, ← List.map_drop,
      filterMap_value?_symbol fun v hv => hlt v (List.mem_of_mem_drop hv)] at hunused

/-- **What is read as a byte string.** The text that is written for it, and nothing else. -/
theorem decode_eq_ok_iff : decode text = .ok bytes ↔ text = encode bytes := by
  constructor
  · intro h
    simp only [decode] at h
    split at h
    case h_1 => cases h
    case h_2 hfault =>
      cases h
      obtain ⟨values, hregroups, hvalues⟩ := exists_regroups_of_fault?_eq_none hfault
      apply Bytes.ofText_inj
      rw [ofText_encode, hvalues, filterMap_value?_symbol hregroups.lt, hregroups.split_join]
  · rintro rfl
    exact decode_encode bytes

/-! ## Spellings and what is written -/

/-- The character of a symbol. -/
def character (v : Nat) : Char := Char.ofNat (symbol v).toNat

theorem alphabet_eq : alphabet = (List.range 64).map character := by decide +kernel

theorem idxOf_character : ∀ v < 64, alphabet.idxOf (character v) = v := by decide +kernel

theorem mem_alphabet_iff {c : Char} : c ∈ alphabet ↔ ∃ v < 64, character v = c := by
  rw [alphabet_eq, List.mem_map]
  simp only [List.mem_range]

/-- The place of a symbol is its value. -/
theorem character_idxOf {c : Char} (h : c ∈ alphabet) :
    character (alphabet.idxOf c) = c ∧ alphabet.idxOf c < 64 := by
  obtain ⟨v, hv, rfl⟩ := mem_alphabet_iff.1 h
  rw [idxOf_character v hv]
  exact ⟨rfl, hv⟩

theorem toList_encode (bytes : Bytes) : (encode bytes).toList = (split bytes).map character := by
  rw [encode, String.toList_ofList]
  rfl

theorem length_encode (bytes : Bytes) : (encode bytes).length = (split bytes).length := by
  rw [← String.length_toList, toList_encode, List.length_map]

/-- The spellings are the texts that are written. -/
theorem spelling_iff : Spelling text ↔ ∃ bytes, text = encode bytes := by
  constructor
  · intro h
    have hchars : (text.toList.map alphabet.idxOf).map character = text.toList := by
      calc (text.toList.map alphabet.idxOf).map character = text.toList.map id := by
            rw [List.map_map]
            exact List.map_congr_left fun c hc => (character_idxOf (h.symbols c hc)).1
        _ = text.toList := List.map_id _
    have hregroups : Regroups (text.toList.map alphabet.idxOf) := by
      refine ⟨?_, ?_, ?_⟩
      · rw [List.forall_mem_map]
        exact fun c hc => (character_idxOf (h.symbols c hc)).2
      · rw [List.length_map, String.length_toList]
        exact h.length
      · rw [List.length_map, String.length_toList, List.getLast?_map]
        intro v hv
        obtain ⟨last, hlast, rfl⟩ := Option.map_eq_some_iff.1 hv
        exact h.unused last hlast
    refine ⟨join (text.toList.map alphabet.idxOf), ?_⟩
    rw [← String.toList_inj, toList_encode, hregroups.split_join, hchars]
  · rintro ⟨bytes, rfl⟩
    obtain ⟨hlt, hlength, hunused⟩ := regroups_split bytes
    refine ⟨?_, ?_, ?_⟩
    · rw [toList_encode, List.forall_mem_map]
      exact fun v hv => mem_alphabet_iff.2 ⟨v, hlt v hv, rfl⟩
    · rw [length_encode]
      exact hlength
    · rw [toList_encode, length_encode, List.getLast?_map]
      intro last hlast
      obtain ⟨v, hv, rfl⟩ := Option.map_eq_some_iff.1 hlast
      rw [idxOf_character v (hlt v (List.mem_of_getLast? hv))]
      exact hunused v hv

end Web64

namespace Record

/-! ## Fields -/

/-- **A byte string has one spelling.** For every byte string and every text: what is written for
the byte string is read as it; a text is read as the byte string only if it is what is written for
it; what is read are just the spellings, texts of symbols whose last group has more than one of them
and whose last symbol has no unused bit set; and every other text is refused as bad base64. -/
theorem readBytes_canonical (bytes : Bytes) (text : String) :
    readBytes (Web64.encode bytes) = .ok bytes ∧
    (readBytes text = .ok bytes ↔ Web64.encode bytes = text) ∧
    ((∃ read, readBytes text = .ok read) ↔ Web64.Spelling text) ∧
    ((∃ fault, readBytes text = .error (.base64 fault)) ↔ ¬ Web64.Spelling text) := by
  have hread (bytes : Bytes) (text : String) :
      readBytes text = .ok bytes ↔ Web64.encode bytes = text := by
    rw [readBytes, Result.ofFault_eq_ok, Web64.decode_eq_ok_iff, eq_comm]
  have hspelling : (∃ read, readBytes text = .ok read) ↔ Web64.Spelling text := by
    simp only [hread, Web64.spelling_iff, eq_comm]
  refine ⟨(hread bytes _).2 rfl, hread bytes text, hspelling, ?_⟩
  rw [← hspelling, readBytes]
  cases Web64.decode text with
  | ok read => simp [Result.ofFault]
  | error fault => simp [Result.ofFault]

end Record

end Keyring
