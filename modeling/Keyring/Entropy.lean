import Keyring.Bytes

/-!
# Random bytes as a supply

Randomness is an argument: a finite supply of bytes that is used from the front. A draw that asks
for more than is left fails, and a computation that draws several times passes on what remains.
-/

namespace Keyring

/-- A finite supply of random bytes, used from the front. -/
abbrev Entropy := Bytes

/-- Takes exactly `count` bytes and leaves the rest; fails when too few are left. -/
def Entropy.draw? (count : Nat) (supply : Entropy) : Option (Bytes × Entropy) :=
  if supply.length < count then none else some (supply.take count, supply.drop count)

/-- A supply that starts with the bytes asked for hands out just those. -/
theorem Entropy.draw?_append (bytes rest : Bytes) :
    Entropy.draw? bytes.length (bytes ++ rest) = some (bytes, rest) := by
  simp [draw?]

/-- A draw takes from the front: what it hands out and what it leaves make up the supply. -/
theorem Entropy.eq_append_of_draw? {count : Nat} {supply rest : Entropy} {bytes : Bytes}
    (h : supply.draw? count = some (bytes, rest)) :
    supply = bytes ++ rest ∧ bytes.length = count := by
  unfold draw? at h
  split at h
  · simp at h
  · simp only [Option.some.injEq, Prod.mk.injEq] at h
    obtain ⟨rfl, rfl⟩ := h
    exact ⟨(List.take_append_drop count supply).symm, by rw [List.length_take]; omega⟩

/-- What a use of a key may consume: bytes that show in its answer, and a blinding candidate that
does not. -/
structure Randomness where
  bytes : Entropy
  blinding : Nat

end Keyring
