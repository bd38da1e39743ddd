import Keyring.Format.Der
import Keyring.Proofs.Format.BigEndian
import Keyring.Proofs.Ranged

/-!
# Pairs have one spelling in DER

The grammar is stated on its own, and the reader and the writer are each compared with it. A reader
takes a text of the grammar off the front and hands on the rest, and it takes nothing else. The
writer gives a text of the grammar, and there is no other one, because lengths and numbers have
their shortest spelling: one that begins with a byte other than zero as soon as it has two. Lengths
are read up to four bytes, which bounds the pairs that have a text. There is no lower bound: one of
`2 ^ 28 - 1` bytes for an element would leave out only texts that are longer than that.
-/

namespace Keyring

/-! ## Shortest spellings -/

namespace Bytes

variable {width n : Nat} {first : UInt8} {rest : Bytes}

theorem length_minimal_pos (n : Nat) : 0 < (minimal n).length := by
  rw [minimal, length_ofNat]
  omega

theorem exists_minimal_eq_cons (n : Nat) : ∃ first rest, minimal n = first :: rest :=
  List.exists_cons_of_length_pos (length_minimal_pos n)

/-- The shortest spelling has no more bytes than it needs. -/
theorem length_minimal_le_iff (hwidth : 0 < width) :
    (minimal n).length ≤ width ↔ n < 256 ^ width := by
  rw [minimal, length_ofNat, ← two_pow_eight_mul]
  constructor
  · intro h
    apply lt_two_pow_of_bitLength_le
    omega
  · intro hlt
    have hbits : bitLength n ≤ 8 * width := by
      apply Nat.le_of_not_lt
      intro hlong
      exact Nat.not_lt_of_le (two_pow_le_of_lt_bitLength hlong) hlt
    omega

/-- A string spells a number of its own length unless a zero byte stands in front. -/
theorem pow_le_toNat_cons_iff : 256 ^ rest.length ≤ toNat (first :: rest) ↔ first ≠ 0 := by
  rw [toNat_cons]
  constructor
  · rintro h rfl
    have hlt := toNat_lt rest
    rw [UInt8.toNat_zero, Nat.mul_zero, Nat.zero_add] at h
    exact Nat.not_lt_of_le h hlt
  · intro hfirst
    have hpos : 0 < first.toNat := by
      apply Nat.pos_of_ne_zero
      exact fun h => hfirst (UInt8.toNat_inj.1 h)
    exact Nat.le_trans (Nat.le_mul_of_pos_right _ hpos) (Nat.le_add_right _ _)

/-- A string is the shortest spelling of its number unless it has a zero byte that it can spare. -/
theorem minimal_eq_cons_iff :
    minimal n = first :: rest ↔ toNat (first :: rest) = n ∧ (first = 0 → rest = []) := by
  constructor
  · intro h
    refine ⟨by rw [← h, toNat_minimal], ?_⟩
    rintro rfl
    apply Decidable.byContradiction
    intro hne
    have hrest : toNat rest = n := by
      rw [← toNat_minimal n, h, toNat_cons, UInt8.toNat_zero, Nat.mul_zero, Nat.zero_add]
    have hshort : (minimal n).length ≤ rest.length :=
      (length_minimal_le_iff (List.length_pos_iff.2 hne)).2 (hrest ▸ toNat_lt rest)
    rw [h, List.length_cons] at hshort
    omega
  · rintro ⟨rfl, hspare⟩
    apply eq_of_toNat_eq
    · apply Nat.le_antisymm
      · exact (length_minimal_le_iff (Nat.succ_pos _)).2 (toNat_lt _)
      · by_cases hzero : first = 0
        · rw [hspare hzero]
          exact length_minimal_pos _
        · apply Nat.succ_le_of_lt
          apply Nat.lt_of_not_le
          intro hshort
          have hpos := length_minimal_pos (toNat (first :: rest))
          have hlt := (length_minimal_le_iff (by omega)).1 hshort
          exact Nat.not_lt_of_le (pow_le_toNat_cons_iff.2 hzero) hlt
    · exact toNat_minimal _

end Bytes

namespace Der

variable {r s n : Nat} {tag : UInt8} {content text input rest : Bytes}

/-! ## The grammar -/

/-- The texts of a length. Below 128 it is a byte; from there on it is spelled in at most four
bytes, the first of which is not zero, behind their count. -/
inductive LengthText (n : Nat) : Bytes → Prop
  | short (hshort : n < 128) : LengthText n [UInt8.ofNat n]
  | long {first : UInt8} {rest : Bytes} (hlong : 128 ≤ n) (hvalue : Bytes.toNat (first :: rest) = n)
    (hfirst : first ≠ 0) (hcount : (first :: rest).length ≤ 4) :
    LengthText n (UInt8.ofNat (128 + (first :: rest).length) :: first :: rest)

/-- The texts of an element: its tag, the length of its content, and its content. -/
inductive ElementText (tag : UInt8) (content : Bytes) : Bytes → Prop
  | mk {length : Bytes} (hlength : LengthText content.length length) :
    ElementText tag content (tag :: length ++ content)

/-- The contents that spell a number as an integer that is not negative: the first bit is not set,
and a zero byte only stands in front of a byte whose first bit is. -/
inductive IntegerContent (n : Nat) : Bytes → Prop
  | mk {first : UInt8} {rest : Bytes} (hvalue : Bytes.toNat (first :: rest) = n)
    (hsign : first < 0x80) (hneeded : first = 0 → ∀ second ∈ rest.head?, 0x80 ≤ second) :
    IntegerContent n (first :: rest)

/-- The texts of two numbers: a sequence of two integers and nothing else. -/
inductive PairText (r s : Nat) : Bytes → Prop
  | mk {left right leftText rightText text : Bytes} (hr : IntegerContent r left)
    (hs : IntegerContent s right) (hleft : ElementText integerTag left leftText)
    (hright : ElementText integerTag right rightText)
    (htext : ElementText sequenceTag (leftText ++ rightText) text) : PairText r s text

/-! ## The writer -/

/-- A length has a text if four bytes can spell it, and only one. -/
theorem lengthText_iff : LengthText n text ↔ n < 256 ^ 4 ∧ text = writeLength n := by
  constructor
  · intro h
    cases h with
    | short hshort => exact ⟨Nat.lt_trans hshort (by decide), by rw [writeLength, if_pos hshort]⟩
    | @long first rest hlong hvalue hfirst hcount =>
      have hminimal : Bytes.minimal n = first :: rest :=
        Bytes.minimal_eq_cons_iff.2 ⟨hvalue, fun hzero => absurd hzero hfirst⟩
      refine ⟨(Bytes.length_minimal_le_iff (by decide)).1 (hminimal ▸ hcount), ?_⟩
      simp only [writeLength, if_neg (Nat.not_lt_of_le hlong), hminimal]
  · rintro ⟨hlt, rfl⟩
    by_cases hshort : n < 128
    · rw [writeLength, if_pos hshort]
      exact .short hshort
    · obtain ⟨first, rest, hminimal⟩ := Bytes.exists_minimal_eq_cons n
      obtain ⟨hvalue, hspare⟩ := Bytes.minimal_eq_cons_iff.1 hminimal
      simp only [writeLength, if_neg hshort, hminimal]
      refine .long (Nat.le_of_not_lt hshort) hvalue ?_ ?_
      · rintro rfl
        rw [hspare rfl] at hvalue
        exact hshort (hvalue ▸ by decide)
      · rw [← hminimal]
        exact (Bytes.length_minimal_le_iff (by decide)).2 hlt

theorem elementText_iff :
    ElementText tag content text ↔
      content.length < 256 ^ 4 ∧ text = writeElement tag content := by
  constructor
  · rintro ⟨hlength⟩
    obtain ⟨hlt, rfl⟩ := lengthText_iff.1 hlength
    exact ⟨hlt, rfl⟩
  · rintro ⟨hlt, rfl⟩
    exact .mk (lengthText_iff.2 ⟨hlt, rfl⟩)

/-- A number has one content. -/
theorem integerContent_iff : IntegerContent n content ↔ content = integerContent n := by
  constructor
  · rintro @⟨first, rest, hvalue, hsign, hneeded⟩
    by_cases hspare : first = 0 → rest = []
    · have hminimal := Bytes.minimal_eq_cons_iff.2 ⟨hvalue, hspare⟩
      simp only [integerContent, hminimal, if_neg (UInt8.not_le.2 hsign)]
    · -- the zero byte keeps the sign bit of the next one from being read as one
      rw [Classical.not_imp] at hspare
      obtain ⟨rfl, hrest⟩ := hspare
      obtain ⟨second, rest, rfl⟩ := List.exists_cons_of_ne_nil hrest
      have hsecond : 0x80 ≤ second := hneeded rfl second rfl
      have hminimal : Bytes.minimal n = second :: rest := by
        refine Bytes.minimal_eq_cons_iff.2 ⟨?_, ?_⟩
        · rw [← hvalue, Bytes.toNat_cons 0, UInt8.toNat_zero, Nat.mul_zero, Nat.zero_add]
        · rintro rfl
          exact absurd hsecond (by decide)
      simp only [integerContent, hminimal, if_pos hsecond]
  · rintro rfl
    obtain ⟨first, rest, hminimal⟩ := Bytes.exists_minimal_eq_cons n
    obtain ⟨hvalue, hspare⟩ := Bytes.minimal_eq_cons_iff.1 hminimal
    simp only [integerContent, hminimal]
    split
    case isTrue hsign =>
      refine .mk ?_ (by decide) ?_
      · rw [Bytes.toNat_cons, UInt8.toNat_zero, Nat.mul_zero, Nat.zero_add, hvalue]
      · rintro - second hsecond
        cases hsecond
        exact hsign
    case isFalse hsign =>
      refine .mk hvalue (UInt8.not_le.1 hsign) ?_
      intro hzero second hsecond
      rw [hspare hzero] at hsecond
      cases hsecond

/-- A pair has no text but the written one. -/
theorem PairText.eq_writePair (h : PairText r s text) : text = writePair r s := by
  obtain ⟨hr, hs, hleft, hright, htext⟩ := h
  rw [(elementText_iff.1 htext).2, (elementText_iff.1 hleft).2, (elementText_iff.1 hright).2,
    integerContent_iff.1 hr, integerContent_iff.1 hs]
  rfl

theorem PairText.unique {other : Bytes} (h : PairText r s text) (hother : PairText r s other) :
    other = text := by
  rw [h.eq_writePair, hother.eq_writePair]

theorem length_writeLength_le (h : n < 256 ^ 4) : (writeLength n).length ≤ 5 := by
  unfold writeLength
  split
  case isTrue => exact (by decide : 1 ≤ 5)
  case isFalse => exact Nat.succ_le_succ ((Bytes.length_minimal_le_iff (by decide)).2 h)

theorem length_writeElement_le (tag : UInt8) {content : Bytes} (h : content.length < 256 ^ 4) :
    (writeElement tag content).length ≤ content.length + 6 := by
  have hlength := length_writeLength_le h
  simp only [writeElement, List.length_append, List.length_cons]
  omega

theorem length_integerContent_le {width : Nat} (hwidth : 0 < width) (h : n < 256 ^ width) :
    (integerContent n).length ≤ width + 1 := by
  have hdigits : (Bytes.minimal n).length ≤ width := (Bytes.length_minimal_le_iff hwidth).2 h
  unfold integerContent
  simp only
  split
  case h_1 =>
    split
    case isTrue => exact Nat.succ_le_succ hdigits
    case isFalse => exact Nat.le_succ_of_le hdigits
  case h_2 => exact Nat.zero_le _

/-- What is written for a pair is a text of it, if its length can be spelled. -/
theorem pairText_writePair {width : Nat} (hpos : 0 < width) (hwidth : 2 * (width + 7) < 256 ^ 4)
    (hr : r < 256 ^ width) (hs : s < 256 ^ width) : PairText r s (writePair r s) := by
  have hleft : (integerContent r).length ≤ width + 1 := length_integerContent_le hpos hr
  have hright : (integerContent s).length ≤ width + 1 := length_integerContent_le hpos hs
  have hleftText := @length_writeElement_le integerTag (integerContent r) (by omega)
  have hrightText := @length_writeElement_le integerTag (integerContent s) (by omega)
  refine .mk (integerContent_iff.2 rfl) (integerContent_iff.2 rfl)
    (elementText_iff.2 ⟨by omega, rfl⟩) (elementText_iff.2 ⟨by omega, rfl⟩)
    (elementText_iff.2 ⟨?_, rfl⟩)
  rw [List.length_append]
  omega

/-! ## The reader -/

theorem readLength?_of_lengthText (h : LengthText n text) (rest : Bytes) :
    readLength? (text ++ rest) = some (n, rest) := by
  cases h with
  | short hshort =>
    have hbyte : (UInt8.ofNat n).toNat = n :=
      UInt8.toNat_ofNat_of_lt' (Nat.lt_trans hshort (by decide))
    have hlt : UInt8.ofNat n < 128 := by
      rw [UInt8.lt_iff_toNat_lt, hbyte]
      exact hshort
    rw [List.singleton_append, readLength?, if_pos hlt, hbyte]
  | @long first digits hlong hvalue hfirst hcount =>
    have hbyte : (UInt8.ofNat (128 + (first :: digits).length)).toNat =
        128 + (first :: digits).length :=
      UInt8.toNat_ofNat_of_lt' (Nat.lt_of_le_of_lt (Nat.add_le_add_left hcount 128) (by decide))
    have hge : ¬ UInt8.ofNat (128 + (first :: digits).length) < 128 := by
      rw [UInt8.lt_iff_toNat_lt, hbyte]
      exact Nat.not_lt_of_le (Nat.le_add_right _ _)
    have hshortest : 256 ^ digits.length ≤ Bytes.toNat (first :: digits) :=
      Bytes.pow_le_toNat_cons_iff.2 hfirst
    simp only [List.cons_append, readLength?, if_neg hge, hbyte, Nat.add_sub_cancel_left]
    rw [← List.cons_append, List.take_left, List.drop_left, if_neg, if_neg, hvalue]
    · rw [List.length_cons, Nat.add_sub_cancel]
      omega
    · rw [List.length_append, List.length_cons]
      rw [List.length_cons] at hcount
      omega

theorem exists_lengthText_of_readLength? (h : readLength? input = some (n, rest)) :
    ∃ text, LengthText n text ∧ input = text ++ rest := by
  cases input with
  | nil => cases h
  | cons first tail =>
    rw [readLength?] at h
    split at h
    case isTrue hshort =>
      cases h
      refine ⟨[first], ?_, rfl⟩
      have htext : LengthText first.toNat [UInt8.ofNat first.toNat] := .short hshort
      rwa [UInt8.ofNat_toNat] at htext
    case isFalse hlong =>
      have hlarge : 128 ≤ first.toNat := Nat.le_of_not_lt hlong
      simp only at h
      split at h
      case isTrue => cases h
      case isFalse hcount =>
        split at h
        case isTrue => cases h
        case isFalse hvalue =>
          rw [Option.some.injEq, Prod.mk.injEq] at h
          obtain ⟨rfl, rfl⟩ := h
          have hlength : (tail.take (first.toNat - 128)).length = first.toNat - 128 := by
            rw [List.length_take]
            omega
          obtain ⟨leading, digits, hdigits⟩ :=
            List.exists_cons_of_length_pos (l := tail.take (first.toNat - 128)) (by omega)
          rw [hdigits] at hlength hvalue ⊢
          have hfirst : UInt8.ofNat (128 + (leading :: digits).length) = first := by
            rw [hlength, Nat.add_sub_cancel' hlarge, UInt8.ofNat_toNat]
          rw [← hlength, List.length_cons, Nat.add_sub_cancel, not_or, Nat.not_lt,
            Nat.not_lt] at hvalue
          refine ⟨first :: leading :: digits, ?_, ?_⟩
          · rw [← hfirst]
            exact .long hvalue.1 rfl (Bytes.pow_le_toNat_cons_iff.1 hvalue.2) (by omega)
          · rw [← hdigits, List.cons_append, List.take_append_drop]

theorem readLength?_eq_some_iff :
    readLength? input = some (n, rest) ↔ ∃ text, LengthText n text ∧ input = text ++ rest := by
  constructor
  · exact exists_lengthText_of_readLength?
  · rintro ⟨text, htext, rfl⟩
    exact readLength?_of_lengthText htext rest

theorem readElement?_eq_some_iff :
    readElement? tag input = some (content, rest) ↔
      ∃ text, ElementText tag content text ∧ input = text ++ rest := by
  constructor
  · intro h
    cases input with
    | nil => cases h
    | cons first tail =>
      rw [readElement?] at h
      split at h
      case isTrue => cases h
      case isFalse htag =>
        obtain rfl := Decidable.not_not.1 htag
        split at h
        case h_1 => cases h
        case h_2 length behind hlength =>
          split at h
          case isTrue => cases h
          case isFalse hroom =>
            cases h
            obtain ⟨lengthText, htext, rfl⟩ := readLength?_eq_some_iff.1 hlength
            have hcontent : (behind.take length).length = length := by
              rw [List.length_take]
              omega
            rw [← hcontent] at htext
            refine ⟨_, .mk htext, ?_⟩
            rw [List.append_assoc, List.take_append_drop, List.cons_append]
  · rintro ⟨_, ⟨hlength⟩, rfl⟩
    have hread := readLength?_eq_some_iff.2 ⟨_, hlength, List.append_assoc _ content rest⟩
    have hroom : ¬ (content ++ rest).length < content.length := by
      rw [List.length_append]
      omega
    rw [List.cons_append, List.cons_append, readElement?, if_neg (not_not_intro rfl), hread]
    simp only
    rw [if_neg hroom, List.take_left, List.drop_left]

theorem integerValue?_eq_some_iff :
    integerValue? content = some n ↔ IntegerContent n content := by
  constructor
  · intro h
    match content, h with
    | [only], h =>
      rw [integerValue?] at h
      split at h
      case isTrue => cases h
      case isFalse hsign =>
        cases h
        refine .mk ?_ (UInt8.not_le.1 hsign) fun _ second hsecond => by cases hsecond
        simp [Bytes.toNat_cons]
    | first :: second :: tail, h =>
      rw [integerValue?] at h
      split at h
      case isTrue => cases h
      case isFalse hsign =>
        split at h
        case isTrue => cases h
        case isFalse hneeded =>
          cases h
          refine .mk rfl (UInt8.not_le.1 hsign) ?_
          rintro hzero _ ⟨⟩
          exact UInt8.not_lt.1 fun hlt => hneeded ⟨hzero, hlt⟩
  · rintro @⟨first, tail, hvalue, hsign, hneeded⟩
    match tail with
    | [] =>
      rw [integerValue?, if_neg (UInt8.not_le.2 hsign), ← hvalue]
      simp [Bytes.toNat_cons]
    | second :: tail =>
      have hspare : ¬ (first = 0 ∧ second < 0x80) :=
        fun h => UInt8.not_lt.2 (hneeded h.1 second rfl) h.2
      rw [integerValue?, if_neg (UInt8.not_le.2 hsign), if_neg hspare, hvalue]

theorem readInteger?_eq_some_iff :
    readInteger? input = some (n, rest) ↔
      ∃ content text, IntegerContent n content ∧ ElementText integerTag content text ∧
        input = text ++ rest := by
  constructor
  · intro h
    rw [readInteger?] at h
    split at h
    case h_1 => cases h
    case h_2 content behind helement =>
      split at h
      case h_1 => cases h
      case h_2 value hvalue =>
        cases h
        obtain ⟨text, htext, hinput⟩ := readElement?_eq_some_iff.1 helement
        exact ⟨content, text, integerValue?_eq_some_iff.1 hvalue, htext, hinput⟩
  · rintro ⟨content, text, hvalue, htext, hinput⟩
    rw [readInteger?, readElement?_eq_some_iff.2 ⟨text, htext, hinput⟩]
    simp only [integerValue?_eq_some_iff.2 hvalue]

/-- **What is read as a pair.** The texts of two positive numbers, and nothing else. -/
theorem readPair?_eq_some_iff :
    readPair? text = some (r, s) ↔ (0 < r ∧ 0 < s) ∧ PairText r s text := by
  constructor
  · intro h
    rw [readPair?] at h
    split at h
    case h_1 content hsequence =>
      split at h
      case h_1 => cases h
      case h_2 first behind hfirst =>
        split at h
        case h_1 second hsecond =>
          split at h
          case isTrue => cases h
          case isFalse hnonzero =>
            cases h
            obtain ⟨text, htext, rfl⟩ := readElement?_eq_some_iff.1 hsequence
            obtain ⟨left, leftText, hr, hleft, rfl⟩ := readInteger?_eq_some_iff.1 hfirst
            obtain ⟨right, rightText, hs, hright, rfl⟩ := readInteger?_eq_some_iff.1 hsecond
            rw [List.append_nil] at htext ⊢
            exact ⟨by omega, .mk hr hs hleft hright htext⟩
        case h_2 => cases h
    case h_2 => cases h
  · rintro ⟨hpos, hr, hs, hleft, hright, htext⟩
    have hnonzero : ¬ (r = 0 ∨ s = 0) := by omega
    rw [readPair?, readElement?_eq_some_iff.2 ⟨_, htext, (List.append_nil _).symm⟩]
    simp only [readInteger?_eq_some_iff.2 ⟨_, _, hr, hleft, rfl⟩,
      readInteger?_eq_some_iff.2 ⟨_, _, hs, hright, (List.append_nil _).symm⟩, if_neg hnonzero]

/-- A pair of positive numbers reads back, if its length can be read. -/
theorem readPair?_writePair {width : Nat} (hwidth : 2 * (width + 7) < 256 ^ 4)
    (hr : 0 < r ∧ r < 256 ^ width) (hs : 0 < s ∧ s < 256 ^ width) :
    readPair? (writePair r s) = some (r, s) := by
  have hpos : 0 < width := by
    apply Nat.pos_of_ne_zero
    rintro rfl
    exact Nat.not_le_of_lt hr.2 hr.1
  exact readPair?_eq_some_iff.2 ⟨⟨hr.1, hs.1⟩, pairText_writePair hpos hwidth hr.2 hs.2⟩

/-! ## Staying within bounds -/

/-- What was read, or the refusal of a signature. -/
def orMalformed {α : Type} : Option α → Result α
  | some a => .ok a
  | none => .error .malformedSignature

/-- A length, with every access to the bytes checked. -/
def readLengthRanged (input : Bytes) : Ranged (Nat × Bytes) :=
  match input with
  | [] => .within (.error .malformedSignature)
  | first :: rest =>
    if first < 128 then .within (.ok (first.toNat, rest))
    else do
      let count ← Ranged.sub? first.toNat 128
      if count = 0 ∨ 4 < count ∨ rest.length < count then .within (.error .malformedSignature)
      else do
        let (digits, tail) ← Ranged.splitAt? rest count
        let spared ← Ranged.sub? count 1
        if Bytes.toNat digits < 128 ∨ Bytes.toNat digits < 256 ^ spared then
          .within (.error .malformedSignature)
        else .within (.ok (Bytes.toNat digits, tail))

/-- An element, with every access to the bytes checked. -/
def readElementRanged (tag : UInt8) (input : Bytes) : Ranged (Bytes × Bytes) :=
  match input with
  | [] => .within (.error .malformedSignature)
  | first :: rest =>
    if first ≠ tag then .within (.error .malformedSignature)
    else do
      let (length, tail) ← readLengthRanged rest
      if tail.length < length then .within (.error .malformedSignature)
      else Ranged.splitAt? tail length

/-- An integer, with every access to the bytes checked. -/
def readIntegerRanged (input : Bytes) : Ranged (Nat × Bytes) := do
  let (content, rest) ← readElementRanged integerTag input
  let n ← Ranged.within (orMalformed (integerValue? content))
  .within (.ok (n, rest))

/-- A pair, with every access to the bytes checked. -/
def readPairRanged (input : Bytes) : Ranged (Nat × Nat) := do
  let (content, rest) ← readElementRanged sequenceTag input
  if rest ≠ [] then .within (.error .malformedSignature)
  else do
    let (r, rest) ← readIntegerRanged content
    let (s, rest) ← readIntegerRanged rest
    if rest ≠ [] ∨ r = 0 ∨ s = 0 then .within (.error .malformedSignature)
    else .within (.ok (r, s))

theorem readLengthRanged_eq (input : Bytes) :
    readLengthRanged input = .within (orMalformed (readLength? input)) := by
  cases input with
  | nil => rfl
  | cons first rest =>
    rw [readLengthRanged, readLength?]
    split
    case isTrue => rfl
    case isFalse hlong =>
      have hlarge : 128 ≤ first.toNat := Nat.le_of_not_lt hlong
      rw [Ranged.sub?_of_le hlarge, Ranged.within_ok_bind]
      simp only
      split
      case isTrue => rfl
      case isFalse hcount =>
        rw [Ranged.splitAt?_of_le (by omega), Ranged.within_ok_bind, Ranged.sub?_of_le (by omega),
          Ranged.within_ok_bind]
        by_cases hshort : Bytes.toNat (rest.take (first.toNat - 128)) < 128 ∨
            Bytes.toNat (rest.take (first.toNat - 128)) < 256 ^ (first.toNat - 128 - 1)
        · rw [if_pos hshort, if_pos hshort]
          rfl
        · rw [if_neg hshort, if_neg hshort]
          simp only [orMalformed]

theorem readElementRanged_eq (tag : UInt8) (input : Bytes) :
    readElementRanged tag input = .within (orMalformed (readElement? tag input)) := by
  cases input with
  | nil => rfl
  | cons first rest =>
    rw [readElementRanged, readElement?]
    split
    case isTrue => rfl
    case isFalse =>
      rw [readLengthRanged_eq]
      cases readLength? rest with
      | none => rfl
      | some parts =>
        obtain ⟨length, tail⟩ := parts
        simp only [orMalformed, Ranged.within_ok_bind]
        split
        case isTrue => rfl
        case isFalse hroom => exact Ranged.splitAt?_of_le (Nat.le_of_not_lt hroom)

theorem readIntegerRanged_eq (input : Bytes) :
    readIntegerRanged input = .within (orMalformed (readInteger? input)) := by
  rw [readIntegerRanged, readInteger?, readElementRanged_eq]
  cases readElement? integerTag input with
  | none => rfl
  | some parts =>
    obtain ⟨content, rest⟩ := parts
    simp only [orMalformed, Ranged.within_ok_bind]
    cases integerValue? content with
    | none => rfl
    | some n => rfl

/-- Whatever the bytes are, no access is out of bounds. -/
theorem readPairRanged_eq (input : Bytes) :
    readPairRanged input = .within (orMalformed (readPair? input)) := by
  rw [readPairRanged, readPair?, readElementRanged_eq]
  cases readElement? sequenceTag input with
  | none => rfl
  | some parts =>
    obtain ⟨content, _ | ⟨_, _⟩⟩ := parts
    case cons => rfl
    case nil =>
      simp only [orMalformed, Ranged.within_ok_bind]
      rw [if_neg (not_not_intro rfl), readIntegerRanged_eq]
      cases readInteger? content with
      | none => rfl
      | some parts =>
        obtain ⟨r, rest⟩ := parts
        simp only [orMalformed, Ranged.within_ok_bind]
        rw [readIntegerRanged_eq]
        cases readInteger? rest with
        | none => rfl
        | some parts =>
          obtain ⟨s, _ | ⟨_, _⟩⟩ := parts
          case cons => rfl
          case nil =>
            simp only [orMalformed, Ranged.within_ok_bind]
            by_cases hzero : r = 0 ∨ s = 0
            · rw [if_pos (.inr hzero), if_pos hzero]
            · rw [if_neg (by simp [hzero]), if_neg hzero]

end Der

end Keyring
