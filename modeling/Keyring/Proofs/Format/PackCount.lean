import Keyring.Proofs.Format.Pack

/-!
# The count of a pack is not trusted

Room for the strings of a pack is reserved before the first of them is read, for as many as the
count says, so a count beyond what the input can hold is refused early. That test guards nothing but
the reservation: each turn of the loop takes at least the four bytes of a length, and a loop that is
sent after too many strings runs out of input by itself. Here unpacking is observed, with the test
and without it. Main statement: both give the same result on every input, and the test keeps the
room that is reserved to a quarter of the input.
-/

namespace Keyring.Pack

variable {packed input rest : Bytes} {buffers : List Bytes} {count room : Nat} {guarded : Bool}

/-! ## Too many strings -/

/-- Every string that was read took the bytes of its length off the input. -/
theorem le_length_of_readBuffers (h : readBuffers count input = .ok (buffers, rest)) :
    count * lengthSize + rest.length ≤ input.length := by
  obtain ⟨rfl, -, rfl⟩ := readBuffers_eq_ok.1 h
  rw [List.length_append]
  exact Nat.add_le_add_right (le_length_flatMap_frame buffers) rest.length

/-- A loop for more strings than there can be lengths runs out of input. -/
theorem readBuffers_eq_malformedPack (h : input.length / lengthSize < count) :
    readBuffers count input = .error .malformedPack := by
  cases hread : readBuffers count input with
  | error error => rw [eq_malformedPack_of_readBuffers hread]
  | ok parts =>
    obtain ⟨buffers, rest⟩ := parts
    have htaken : count * lengthSize + rest.length ≤ input.length := le_length_of_readBuffers hread
    have hshort : input.length < count * lengthSize := (Nat.div_lt_iff_lt_mul (by decide)).1 h
    omega

/-! ## Observed unpacking -/

/-- What unpacking does: the number of strings that it reserves room for, if it comes to that, and
its result. -/
structure Run where
  reserved : Option Nat
  result : Result (List Bytes)

/-- Unpacking, with the test of the count or without it. Room is reserved right before the loop. -/
def run (guarded : Bool) (packed : Bytes) : Run :=
  match readLength packed with
  | .error error => ⟨none, .error error⟩
  | .ok (count, rest) =>
    if guarded ∧ rest.length / lengthSize < count then ⟨none, .error .malformedPack⟩
    else ⟨some count, readBody count rest⟩

/-- A count that is too large is refused at once or, without the test, when the loop runs out of
input. -/
theorem run_of_lt (hlength : readLength packed = .ok (count, rest))
    (hmany : rest.length / lengthSize < count) :
    run guarded packed = ⟨if guarded then none else some count, .error .malformedPack⟩ := by
  rw [run, hlength]
  cases guarded with
  | true => exact if_pos ⟨rfl, hmany⟩
  | false =>
    have hbody : readBody count rest = .error .malformedPack := by
      rw [readBody, readBuffers_eq_malformedPack hmany]
      rfl
    rw [← hbody]
    exact if_neg fun h => Bool.false_ne_true h.1

/-- What is observed is unpacking, and the test makes no difference to its result. -/
theorem result_run (guarded : Bool) (packed : Bytes) :
    (run guarded packed).result = unpack packed := by
  cases hlength : readLength packed with
  | error error =>
    rw [run, unpack, hlength]
    rfl
  | ok parts =>
    obtain ⟨count, rest⟩ := parts
    by_cases hmany : rest.length / lengthSize < count
    · rw [run_of_lt hlength hmany, unpack, hlength, Result.ok_bind]
      exact (if_pos hmany).symm
    · rw [run, unpack, hlength, Result.ok_bind]
      dsimp only
      rw [if_neg hmany, if_neg fun h => hmany h.2]

/-- Room is reserved for the count that is read, and only if the test finds that it fits. -/
theorem reserved_run_eq_some :
    (run guarded packed).reserved = some room ↔
      ∃ rest, readLength packed = .ok (room, rest) ∧
        (guarded → room * lengthSize ≤ rest.length) := by
  rw [run]
  cases readLength packed with
  | error error => exact ⟨nofun, nofun⟩
  | ok parts =>
    obtain ⟨count, rest⟩ := parts
    have hadmits : ¬(guarded ∧ rest.length / lengthSize < count) ↔
        (guarded → count * lengthSize ≤ rest.length) := by
      rw [not_and, Nat.not_lt, Nat.le_div_iff_mul_le (by decide)]
    dsimp only
    split
    case isTrue hrefused =>
      constructor
      · exact nofun
      · rintro ⟨_, h, hfits⟩
        cases h
        exact absurd hrefused (hadmits.2 hfits)
    case isFalse hadmitted =>
      constructor
      · intro h
        cases h
        exact ⟨rest, rfl, hadmits.1 hadmitted⟩
      · rintro ⟨_, h, -⟩
        cases h
        rfl

/-- The strings of a pack fill the room that is reserved for them. -/
theorem reserved_run_of_unpack (h : unpack packed = .ok buffers) :
    (run guarded packed).reserved = some buffers.length := by
  obtain ⟨⟨hcount, -⟩, rfl⟩ := unpack_eq_ok.1 h
  have hlength : readLength (layout buffers) = .ok (buffers.length, buffers.flatMap frame) :=
    readLength_eq_ok.2 ⟨hcount, rfl⟩
  exact reserved_run_eq_some.2 ⟨_, hlength, fun _ => le_length_flatMap_frame buffers⟩

/-! ## The test of the count -/

/-- **The test of the count never decides the result.** Unpacking gives the same with it and without
it, whatever the input. Where it refuses a count, the loop for that many strings ends in the same
error, but only after room for all of them was reserved. Where it lets a count pass, room is
reserved for that many strings, which have the four bytes of a length each in the rest of the input;
if they can all be read, they fill that room. -/
theorem count_guard_never_decides (packed : Bytes) :
    (run true packed).result = unpack packed ∧
    (run false packed).result = unpack packed ∧
    (∀ count rest, readLength packed = .ok (count, rest) → rest.length / lengthSize < count →
      readBuffers count rest = .error .malformedPack ∧
        run true packed = ⟨none, .error .malformedPack⟩ ∧
        run false packed = ⟨some count, .error .malformedPack⟩) ∧
    (∀ room, (run true packed).reserved = some room ↔
      ∃ rest, readLength packed = .ok (room, rest) ∧ room * lengthSize ≤ rest.length) ∧
    (∀ buffers, unpack packed = .ok buffers →
      (run true packed).reserved = some buffers.length) := by
  refine ⟨result_run true packed, result_run false packed, ?_, ?_, ?_⟩
  · intro count rest hlength hmany
    exact ⟨readBuffers_eq_malformedPack hmany, run_of_lt hlength hmany, run_of_lt hlength hmany⟩
  · intro room
    rw [reserved_run_eq_some]
    simp only [forall_const]
  · intro buffers h
    exact reserved_run_of_unpack h

/-- Eight bytes that promise four billion strings are refused without a reservation. Two empty
strings are as many as eight bytes behind the count can hold, and are read. -/
theorem count_guard_never_decides_extremes :
    (readLength [255, 255, 255, 255, 0, 0, 0, 0] = .ok (2 ^ 32 - 1, [0, 0, 0, 0]) ∧
      List.length [0, 0, 0, 0] / lengthSize < 2 ^ 32 - 1 ∧
      readBuffers (2 ^ 32 - 1) [0, 0, 0, 0] = .error .malformedPack ∧
      run true [255, 255, 255, 255, 0, 0, 0, 0] = ⟨none, .error .malformedPack⟩ ∧
      run false [255, 255, 255, 255, 0, 0, 0, 0] = ⟨some (2 ^ 32 - 1), .error .malformedPack⟩) ∧
    unpack (layout [[], []]) = .ok [[], []] ∧
      (run true (layout [[], []])).reserved = some 2 := by
  have hhostile : readLength [255, 255, 255, 255, 0, 0, 0, 0] = .ok (2 ^ 32 - 1, [0, 0, 0, 0]) :=
    rfl
  have hmany : List.length [0, 0, 0, 0] / lengthSize < 2 ^ 32 - 1 := by decide
  have hfull : unpack (layout [[], []]) = .ok [[], []] := rfl
  obtain ⟨-, -, hrefuses, -⟩ := count_guard_never_decides [255, 255, 255, 255, 0, 0, 0, 0]
  obtain ⟨-, -, -, -, hreserves⟩ := count_guard_never_decides (layout [[], []])
  exact ⟨⟨hhostile, hmany, hrefuses _ _ hhostile hmany⟩, hfull, hreserves _ hfull⟩

end Keyring.Pack
