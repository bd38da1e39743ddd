import Keyring.Error
import Keyring.Modular

/-!
# Steps that may have no result

Taking one length off another, reading at an offset and splitting at an offset make sense only
within bounds, and a remainder, also that of a power, only of a division by something. Here each of
them is a step that gives nothing at all when it makes no sense, which is neither a value nor an
error. An operation that is written with these steps, and agrees with one that always gives a
result, therefore never leaves its byte strings, takes a greater number off a smaller one, or
divides by zero.
-/

namespace Keyring

/-- The result of an operation, or nothing if a step had none. -/
abbrev Ranged := ExceptT KeyError Option

namespace Ranged

variable {α β : Type}

/-- A result that was reached by steps that have one. -/
def within (result : Result α) : Ranged α := some result

/-- A length without a part of it, or a number less another one. -/
def sub? (length part : Nat) : Ranged Nat :=
  if part ≤ length then within (.ok (length - part)) else none

/-- The remainder of a division. -/
def mod? (a m : Nat) : Ranged Nat :=
  if 0 < m then within (.ok (a % m)) else none

/-- The remainder of a power. -/
def powMod? (base exponent m : Nat) : Ranged Nat :=
  if 0 < m then within (.ok (powMod base exponent m)) else none

/-- The byte at an offset. -/
def at? (bytes : Bytes) (offset : Nat) : Ranged UInt8 :=
  match bytes[offset]? with
  | some b => within (.ok b)
  | none => none

/-- The bytes before an offset and those from it on. -/
def splitAt? (bytes : Bytes) (offset : Nat) : Ranged (Bytes × Bytes) :=
  if offset ≤ bytes.length then within (.ok (bytes.take offset, bytes.drop offset)) else none

@[simp] theorem within_ok_bind (a : α) (f : α → Ranged β) : within (.ok a) >>= f = f a := rfl

theorem sub?_of_le {length part : Nat} (h : part ≤ length) :
    sub? length part = within (.ok (length - part)) :=
  if_pos h

theorem mod?_of_pos {m : Nat} (h : 0 < m) (a : Nat) : mod? a m = within (.ok (a % m)) :=
  if_pos h

theorem powMod?_of_pos {m : Nat} (h : 0 < m) (base exponent : Nat) :
    powMod? base exponent m = within (.ok (powMod base exponent m)) :=
  if_pos h

theorem splitAt?_of_le {bytes : Bytes} {offset : Nat} (h : offset ≤ bytes.length) :
    splitAt? bytes offset = within (.ok (bytes.take offset, bytes.drop offset)) :=
  if_pos h

end Ranged

end Keyring
