import Keyring.Format.Pack
import Keyring.Proofs.Format.BigEndian
import Keyring.Proofs.Ranged

/-!
# Packing is a bijection onto what is accepted

Numbers of four bytes are the only spelling of a count or of a length, so a pack has one layout and
unpacking accepts nothing else. Each reader is described by what it takes off the front, in both
directions at once; the loop over the strings then follows by induction on their number, whatever is
behind them. A pack says where it ends, so nothing can be added to it or cut from it.
-/

namespace Keyring.Pack

variable {packed input rest : Bytes} {buffers : List Bytes} {n count : Nat}

/-! ## The layout -/

/-- A string behind its length. -/
def frame (buffer : Bytes) : Bytes :=
  Bytes.ofNat lengthSize buffer.length ++ buffer

/-- The pack of strings whose lengths and number fit four bytes. -/
def layout (buffers : List Bytes) : Bytes :=
  Bytes.ofNat lengthSize buffers.length ++ buffers.flatMap frame

/-- Strings that can be packed. -/
structure Packable (buffers : List Bytes) : Prop where
  count : buffers.length < 2 ^ 32
  lengths : ∀ buffer ∈ buffers, buffer.length < 2 ^ 32

theorem length_frame (buffer : Bytes) : (frame buffer).length = lengthSize + buffer.length := by
  rw [frame, List.length_append, Bytes.length_ofNat]

/-- Each string takes at least the bytes of its length. -/
theorem le_length_flatMap_frame (buffers : List Bytes) :
    buffers.length * lengthSize ≤ (buffers.flatMap frame).length := by
  induction buffers with
  | nil => exact Nat.le_of_eq (Nat.zero_mul lengthSize)
  | cons buffer buffers ih =>
    rw [List.flatMap_cons, List.length_append, length_frame, List.length_cons, Nat.succ_mul]
    omega

/-! ## Writing -/

theorem writeLength_eq_ok :
    writeLength n = .ok packed ↔ n < 2 ^ 32 ∧ packed = .ofNat lengthSize n := by
  rw [writeLength]
  split
  case isTrue h => simp [h, eq_comm]
  case isFalse h => exact ⟨nofun, fun h' => absurd h'.1 h⟩

theorem writeBuffers_eq_ok :
    writeBuffers buffers = .ok packed ↔
      (∀ buffer ∈ buffers, buffer.length < 2 ^ 32) ∧ packed = buffers.flatMap frame := by
  induction buffers generalizing packed with
  | nil =>
    rw [writeBuffers, List.flatMap_nil, Except.ok.injEq, eq_comm]
    exact (and_iff_right (List.forall_mem_nil _)).symm
  | cons buffer buffers ih =>
    simp only [writeBuffers, Result.bind_eq_ok, writeLength_eq_ok, ih, List.forall_mem_cons,
      List.flatMap_cons]
    constructor
    · rintro ⟨_, ⟨hlength, rfl⟩, _, ⟨hlengths, rfl⟩, h⟩
      cases h
      exact ⟨⟨hlength, hlengths⟩, rfl⟩
    · rintro ⟨⟨hlength, hlengths⟩, rfl⟩
      exact ⟨_, ⟨hlength, rfl⟩, _, ⟨hlengths, rfl⟩, rfl⟩

/-- What is written: the layout, of strings that can be packed. -/
theorem pack_eq_ok : pack buffers = .ok packed ↔ Packable buffers ∧ packed = layout buffers := by
  simp only [pack, Result.bind_eq_ok, writeLength_eq_ok, writeBuffers_eq_ok]
  constructor
  · rintro ⟨_, ⟨hcount, rfl⟩, _, ⟨hlengths, rfl⟩, h⟩
    cases h
    exact ⟨⟨hcount, hlengths⟩, rfl⟩
  · rintro ⟨⟨hcount, hlengths⟩, rfl⟩
    exact ⟨_, ⟨hcount, rfl⟩, _, ⟨hlengths, rfl⟩, rfl⟩

/-! ## Reading -/

theorem readLength_eq_ok :
    readLength input = .ok (n, rest) ↔ n < 2 ^ 32 ∧ input = Bytes.ofNat lengthSize n ++ rest := by
  constructor
  · intro h
    match input, h with
    | a :: b :: c :: d :: rest, h =>
      cases h
      have hlt : Bytes.toNat [a, b, c, d] < 256 ^ lengthSize := Bytes.toNat_lt [a, b, c, d]
      have hwrite : Bytes.ofNat lengthSize (Bytes.toNat [a, b, c, d]) = [a, b, c, d] :=
        Bytes.ofNat_toNat rfl
      rw [hwrite]
      exact ⟨hlt, rfl⟩
  · rintro ⟨hlt, rfl⟩
    have hread : Bytes.toNat (Bytes.ofNat lengthSize n) = n := Bytes.toNat_ofNat_of_lt hlt
    obtain ⟨a, b, c, d, hdigits⟩ : ∃ a b c d, Bytes.ofNat lengthSize n = [a, b, c, d] :=
      ⟨_, _, _, _, rfl⟩
    rw [hdigits] at hread ⊢
    rw [← hread]
    rfl

/-- One turn of the loop takes one string off the front. -/
theorem readBuffers_succ_eq_ok :
    readBuffers (count + 1) input = .ok (buffers, rest) ↔
      ∃ buffer tail others, buffer.length < 2 ^ 32 ∧ input = frame buffer ++ tail ∧
        readBuffers count tail = .ok (others, rest) ∧ buffers = buffer :: others := by
  rw [readBuffers, Result.bind_eq_ok]
  constructor
  · rintro ⟨⟨length, tail⟩, hlength, h⟩
    obtain ⟨hlt, rfl⟩ := readLength_eq_ok.1 hlength
    simp only [List.length_take] at h
    split at h
    case isTrue => cases h
    case isFalse hfits =>
      obtain ⟨⟨others, rest⟩, hothers, h⟩ := Result.bind_eq_ok.1 h
      cases h
      have htake : (tail.take length).length = length := by
        rw [List.length_take]
        omega
      refine ⟨tail.take length, tail.drop length, others, ?_, ?_, hothers, rfl⟩
      · rwa [htake]
      · rw [frame, htake, List.append_assoc, List.take_append_drop]
  · rintro ⟨buffer, tail, others, hlt, rfl, hothers, rfl⟩
    refine ⟨(buffer.length, buffer ++ tail), readLength_eq_ok.2 ⟨hlt, ?_⟩, ?_⟩
    · rw [frame, List.append_assoc]
    · simp only [List.take_left, List.drop_left, Nat.lt_irrefl, if_false, hothers]
      rfl

/-- **What the loop reads.** A number of strings behind their lengths, whatever is behind them. -/
theorem readBuffers_eq_ok :
    readBuffers count input = .ok (buffers, rest) ↔
      buffers.length = count ∧ (∀ buffer ∈ buffers, buffer.length < 2 ^ 32) ∧
        input = buffers.flatMap frame ++ rest := by
  induction count generalizing input buffers with
  | zero =>
    rw [readBuffers, Except.ok.injEq, Prod.mk.injEq, List.length_eq_zero_iff]
    constructor
    · rintro ⟨rfl, rfl⟩
      exact ⟨rfl, List.forall_mem_nil _, rfl⟩
    · rintro ⟨rfl, -, rfl⟩
      exact ⟨rfl, rfl⟩
  | succ count ih =>
    rw [readBuffers_succ_eq_ok]
    simp only [ih]
    constructor
    · rintro ⟨buffer, tail, others, hlt, rfl, ⟨hcount, hlengths, rfl⟩, rfl⟩
      refine ⟨congrArg Nat.succ hcount, List.forall_mem_cons.2 ⟨hlt, hlengths⟩, ?_⟩
      rw [List.flatMap_cons, List.append_assoc]
    · rintro ⟨hcount, hlengths, rfl⟩
      obtain ⟨buffer, others, rfl⟩ := List.exists_cons_of_length_eq_add_one hcount
      rw [List.forall_mem_cons] at hlengths
      refine ⟨buffer, others.flatMap frame ++ rest, others, hlengths.1, ?_,
        ⟨Nat.succ.inj hcount, hlengths.2, rfl⟩, rfl⟩
      rw [List.flatMap_cons, List.append_assoc]

theorem readBody_eq_ok :
    readBody count input = .ok buffers ↔ readBuffers count input = .ok (buffers, []) := by
  rw [readBody, Result.bind_eq_ok]
  constructor
  · rintro ⟨⟨read, rest⟩, hread, h⟩
    cases rest with
    | nil =>
      cases h
      exact hread
    | cons => cases h
  · intro h
    exact ⟨_, h, rfl⟩

/-- What is accepted: the layout, of strings that can be packed. The strings of a pack take at least
four bytes each, so its count is never refused as too large. -/
theorem unpack_eq_ok :
    unpack packed = .ok buffers ↔ Packable buffers ∧ packed = layout buffers := by
  rw [unpack, Result.bind_eq_ok]
  constructor
  · rintro ⟨⟨count, rest⟩, hcount, h⟩
    obtain ⟨hlt, rfl⟩ := readLength_eq_ok.1 hcount
    dsimp only at h
    split at h
    case isTrue => cases h
    case isFalse =>
      obtain ⟨rfl, hlengths, rfl⟩ := readBuffers_eq_ok.1 (readBody_eq_ok.1 h)
      rw [List.append_nil]
      exact ⟨⟨hlt, hlengths⟩, rfl⟩
  · rintro ⟨⟨hcount, hlengths⟩, rfl⟩
    refine ⟨(buffers.length, buffers.flatMap frame), readLength_eq_ok.2 ⟨hcount, rfl⟩, ?_⟩
    have hroom : buffers.length ≤ (buffers.flatMap frame).length / lengthSize :=
      (Nat.le_div_iff_mul_le (by decide)).2 (le_length_flatMap_frame buffers)
    have hbody := readBuffers_eq_ok.2 ⟨rfl, hlengths, (List.append_nil _).symm⟩
    dsimp only
    rw [if_neg (Nat.not_lt.2 hroom)]
    exact readBody_eq_ok.2 hbody

/-! ## Refusing -/

theorem eq_malformedPack_of_readLength {error : KeyError} (h : readLength input = .error error) :
    error = .malformedPack := by
  match input, h with
  | [], h | [_], h | [_, _], h | [_, _, _], h =>
    cases h
    rfl

theorem eq_malformedPack_of_readBuffers {error : KeyError}
    (h : readBuffers count input = .error error) : error = .malformedPack := by
  induction count generalizing input with
  | zero => cases h
  | succ count ih =>
    rcases Result.bind_eq_error.1 h with hlength | ⟨⟨length, tail⟩, -, h⟩
    · exact eq_malformedPack_of_readLength hlength
    · dsimp only at h
      split at h
      case isTrue =>
        cases h
        rfl
      case isFalse =>
        rcases Result.bind_eq_error.1 h with hothers | ⟨others, -, h⟩
        · exact ih hothers
        · cases h

/-- There is only one way to refuse. -/
theorem eq_malformedPack_of_unpack {error : KeyError} (h : unpack packed = .error error) :
    error = .malformedPack := by
  rcases Result.bind_eq_error.1 h with hcount | ⟨⟨count, rest⟩, -, h⟩
  · exact eq_malformedPack_of_readLength hcount
  · dsimp only at h
    split at h
    case isTrue =>
      cases h
      rfl
    case isFalse =>
      rcases Result.bind_eq_error.1 h with hbody | ⟨⟨read, rest⟩, -, h⟩
      · exact eq_malformedPack_of_readBuffers hbody
      · dsimp only at h
        split at h
        case isTrue => cases h
        case isFalse =>
          cases h
          rfl

theorem unpack_eq_malformedPack (h : ∀ buffers, unpack packed ≠ .ok buffers) :
    unpack packed = .error .malformedPack := by
  cases hunpack : unpack packed with
  | ok buffers => exact absurd hunpack (h buffers)
  | error error => rw [eq_malformedPack_of_unpack hunpack]

/-- A pack says where it ends: what stands behind it is no part of it. -/
theorem eq_nil_of_unpack_append {extra : Bytes} {others : List Bytes}
    (h : unpack packed = .ok buffers) (hextra : unpack (packed ++ extra) = .ok others) :
    extra = [] := by
  obtain ⟨⟨hcount, hlengths⟩, rfl⟩ := unpack_eq_ok.1 h
  obtain ⟨⟨hcount', hlengths'⟩, hlayout⟩ := unpack_eq_ok.1 hextra
  rw [layout, layout, List.append_assoc] at hlayout
  -- both counts are read off the front of one string, and then the strings behind them
  have hnumber : readLength (.ofNat lengthSize buffers.length ++ (buffers.flatMap frame ++ extra)) =
      .ok (others.length, others.flatMap frame) := readLength_eq_ok.2 ⟨hcount', hlayout⟩
  rw [readLength_eq_ok.2 ⟨hcount, rfl⟩, Except.ok.injEq, Prod.mk.injEq] at hnumber
  obtain ⟨hlength, hbody⟩ := hnumber
  have hread := readBuffers_eq_ok.2 ⟨hlength, hlengths, hbody.symm⟩
  have hread' := readBuffers_eq_ok.2 ⟨rfl, hlengths', (List.append_nil _).symm⟩
  exact congrArg Prod.snd (Except.ok.inj (hread.symm.trans hread'))

/-! ## Staying within bounds -/

/-- A count or length, and what follows it, with the split checked. -/
def readLengthRanged (input : Bytes) : Ranged (Nat × Bytes) :=
  if input.length < lengthSize then .within (.error .malformedPack)
  else do
    let (digits, rest) ← Ranged.splitAt? input lengthSize
    .within (.ok (Bytes.toNat digits, rest))

/-- A given number of strings, and what follows them, with every split checked. -/
def readBuffersRanged : (count : Nat) → Bytes → Ranged (List Bytes × Bytes)
  | 0, input => .within (.ok ([], input))
  | count + 1, input => do
    let (length, tail) ← readLengthRanged input
    if tail.length < length then .within (.error .malformedPack)
    else do
      let (buffer, tail) ← Ranged.splitAt? tail length
      let (buffers, rest) ← readBuffersRanged count tail
      .within (.ok (buffer :: buffers, rest))

/-- Unpacking, with every split checked. -/
def unpackRanged (packed : Bytes) : Ranged (List Bytes) := do
  let (count, rest) ← readLengthRanged packed
  if rest.length / lengthSize < count then .within (.error .malformedPack)
  else do
    let (buffers, rest) ← readBuffersRanged count rest
    if rest.isEmpty then .within (.ok buffers) else .within (.error .malformedPack)

theorem readLengthRanged_eq (input : Bytes) :
    readLengthRanged input = .within (readLength input) := by
  match input with
  | [] | [_] | [_, _] | [_, _, _] => rfl
  | a :: b :: c :: d :: rest =>
    have hlong : lengthSize ≤ (a :: b :: c :: d :: rest).length := Nat.le_add_left ..
    rw [readLengthRanged, if_neg (Nat.not_lt.2 hlong), Ranged.splitAt?_of_le hlong]
    rfl

theorem readBuffersRanged_eq (count : Nat) (input : Bytes) :
    readBuffersRanged count input = .within (readBuffers count input) := by
  induction count generalizing input with
  | zero => rfl
  | succ count ih =>
    rw [readBuffersRanged, readBuffers, readLengthRanged_eq]
    cases readLength input with
    | error error => rfl
    | ok parts =>
      obtain ⟨length, tail⟩ := parts
      rw [Ranged.within_ok_bind, Result.ok_bind]
      dsimp only
      rw [List.length_take]
      by_cases hfits : length ≤ tail.length
      · rw [if_neg (Nat.not_lt.2 hfits), if_neg (by omega), Ranged.splitAt?_of_le hfits,
          Ranged.within_ok_bind, ih]
        cases readBuffers count (tail.drop length) with
        | error error => rfl
        | ok others => rfl
      · rw [if_pos (Nat.lt_of_not_le hfits), if_pos (by omega)]

/-- Whatever the count and the lengths are, no split is out of bounds. -/
theorem unpackRanged_eq (packed : Bytes) : unpackRanged packed = .within (unpack packed) := by
  rw [unpackRanged, unpack, readLengthRanged_eq]
  cases readLength packed with
  | error error => rfl
  | ok parts =>
    obtain ⟨count, rest⟩ := parts
    rw [Ranged.within_ok_bind, Result.ok_bind]
    dsimp only
    split
    case isTrue => rfl
    case isFalse =>
      rw [readBuffersRanged_eq, readBody]
      cases readBuffers count rest with
      | error error => rfl
      | ok parts =>
        rw [Ranged.within_ok_bind, Result.ok_bind]
        dsimp only
        split <;> rfl

/-! ## Both ways -/

/-- **Packing is a bijection onto what is accepted.** Strings are read back from their pack exactly
when their number and each of their lengths fit 32 bits, and a byte string is accepted as some
strings exactly when it is their pack, which has the layout above. Nothing that is cut from an
accepted string or added to it is accepted, whatever is refused is refused as malformed, and no
count or length, however large, leads to a split that is out of bounds. -/
theorem accepts_exactly_packs (packed : Bytes) (buffers : List Bytes) :
    (pack buffers >>= unpack = .ok buffers ↔
      buffers.length < 2 ^ 32 ∧ ∀ buffer ∈ buffers, buffer.length < 2 ^ 32) ∧
    (unpack packed = .ok buffers ↔ pack buffers = .ok packed) ∧
    (pack buffers = .ok packed → packed = layout buffers) ∧
    (unpack packed = .ok buffers →
      ∀ other, other <+: packed ∨ packed <+: other → other ≠ packed →
        unpack other = .error .malformedPack) ∧
    ((∃ read, unpack packed = .ok read) ∨ unpack packed = .error .malformedPack) ∧
    unpackRanged packed = .within (unpack packed) := by
  refine ⟨?_, ?_, fun h => (pack_eq_ok.1 h).2, ?_, ?_, unpackRanged_eq packed⟩
  · simp only [Result.bind_eq_ok, pack_eq_ok, unpack_eq_ok]
    constructor
    · rintro ⟨_, ⟨hpackable, -⟩, -⟩
      exact ⟨hpackable.count, hpackable.lengths⟩
    · rintro ⟨hcount, hlengths⟩
      exact ⟨layout buffers, ⟨⟨hcount, hlengths⟩, rfl⟩, ⟨hcount, hlengths⟩, rfl⟩
  · rw [unpack_eq_ok, pack_eq_ok]
  · intro h other hprefix hne
    apply unpack_eq_malformedPack
    intro others hothers
    rcases hprefix with ⟨extra, rfl⟩ | ⟨extra, rfl⟩
    · rw [eq_nil_of_unpack_append hothers h, List.append_nil] at hne
      exact hne rfl
    · rw [eq_nil_of_unpack_append h hothers, List.append_nil] at hne
      exact hne rfl
  · cases h : unpack packed with
    | ok read => exact .inl ⟨read, rfl⟩
    | error error => exact .inr (by rw [eq_malformedPack_of_unpack h])

/-- Three strings, one of them empty, are read back from their pack, which may not be longer. -/
theorem accepts_exactly_packs_three :
    pack [[1, 2, 3], [], [255]] >>= unpack = .ok [[1, 2, 3], [], [255]] ∧
      unpack (layout [[1, 2, 3], [], [255]] ++ [0]) = .error .malformedPack := by
  obtain ⟨hback, haccepts, -, hends, -⟩ :=
    accepts_exactly_packs (layout [[1, 2, 3], [], [255]]) [[1, 2, 3], [], [255]]
  have hpack : pack [[1, 2, 3], [], [255]] = .ok (layout [[1, 2, 3], [], [255]]) := rfl
  exact ⟨hback.2 (by decide),
    hends (haccepts.2 hpack) _ (.inr (List.prefix_append _ _)) (by simp)⟩

end Keyring.Pack
