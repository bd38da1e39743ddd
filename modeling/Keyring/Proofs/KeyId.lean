import Keyring.KeyId
import Keyring.Proofs.Format.BigEndian

/-!
# Parts behind their lengths are read in one way

Parts that are joined carry no count and no end mark. Still they can be told apart, as long as their
lengths fit the four bytes before each of them: a part can be taken off the front of a byte string
in one way only, and a string with nothing left has no part in front.
-/

namespace Keyring.KeyId

variable {part other rest tail : Bytes}

theorem lengthPrefixed_eq (h : part.length < 2 ^ 32) :
    lengthPrefixed part = Bytes.ofNat 4 part.length ++ part := by
  have hfits : min part.length maxPartLength = part.length := by
    rw [maxPartLength]
    omega
  rw [lengthPrefixed, hfits]

@[simp] theorem length_lengthPrefixed (part : Bytes) :
    (lengthPrefixed part).length = 4 + part.length := by
  rw [lengthPrefixed, List.length_append, Bytes.length_ofNat]

/-- A part behind its length can be cancelled from the front without losing where it ends. -/
theorem lengthPrefixed_append_inj (hpart : part.length < 2 ^ 32) (hother : other.length < 2 ^ 32)
    (h : lengthPrefixed part ++ rest = lengthPrefixed other ++ tail) :
    part = other ∧ rest = tail := by
  rw [lengthPrefixed_eq hpart, lengthPrefixed_eq hother, List.append_assoc, List.append_assoc] at h
  -- the four bytes in front agree, so the lengths do, so the parts do
  have hwidth : (Bytes.ofNat 4 part.length).length = (Bytes.ofNat 4 other.length).length := by
    rw [Bytes.length_ofNat, Bytes.length_ofNat]
  obtain ⟨hfront, hback⟩ := List.append_inj h hwidth
  have hlength : part.length = other.length := by
    have hvalue := congrArg Bytes.toNat hfront
    rwa [Bytes.toNat_ofNat_of_lt hpart, Bytes.toNat_ofNat_of_lt hother] at hvalue
  exact List.append_inj hback hlength

/-- **Joined parts are read in one way.** Two lists of parts whose lengths fit their four bytes are
joined to the same string only if they are the same list. -/
theorem joinParts_inj {parts others : List Bytes} (hparts : ∀ part ∈ parts, part.length < 2 ^ 32)
    (hothers : ∀ part ∈ others, part.length < 2 ^ 32) (h : joinParts parts = joinParts others) :
    parts = others := by
  have joinParts_cons_ne (part : Bytes) (parts : List Bytes) : joinParts (part :: parts) ≠ [] := by
    intro hnil
    have hlength := congrArg List.length hnil
    rw [joinParts, List.flatMap_cons, List.length_append, length_lengthPrefixed,
      List.length_nil] at hlength
    omega
  induction parts generalizing others with
  | nil =>
    cases others with
    | nil => rfl
    | cons other others => exact absurd h.symm (joinParts_cons_ne other others)
  | cons part parts ih =>
    cases others with
    | nil => exact absurd h (joinParts_cons_ne part parts)
    | cons other others =>
      rw [List.forall_mem_cons] at hparts hothers
      obtain ⟨rfl, hrest⟩ := lengthPrefixed_append_inj hparts.1 hothers.1 h
      rw [ih hparts.2 hothers.2 hrest]

end Keyring.KeyId
