import Keyring.Key.Material
import Keyring.KeySet.VersionMap

/-!
# Loading key sets

A set is loaded from a list of versions: each record is read and then turned into a key before the
next one is read. Loading is all or nothing; the first failure ends it. A list that names a version
twice is refused before anything is read.

The reader of records and the decoder may have effects of any kind, so both run in an arbitrary
monad.
-/

namespace Keyring

/-- The first version that repeats an earlier one of the list. -/
def firstRepeated? : (earlier : List Nat) → List Nat → Option Nat
  | _, [] => none
  | earlier, v :: rest =>
    if earlier.contains v then some v else firstRepeated? (v :: earlier) rest

section

variable {m : Type → Type} [Monad m] {κ : Type}
  (read : Nat → m (Except String String)) (decode : String → m (Result κ))

/-- Reads and decodes the listed versions one by one into a map. -/
def loadInto (map : VersionMap κ) : List Nat → m (Result (VersionMap κ))
  | [] => pure (.ok map)
  | version :: rest => do
    match ← read version with
    | .error cause => pure (.error (.source version cause))
    | .ok record =>
      match ← decode record with
      | .error error => pure (.error error)
      | .ok key => loadInto (map.insert version key) rest

def loadVersions (versions : List Nat) : m (Result (VersionMap κ)) :=
  match firstRepeated? [] versions with
  | some version => pure (.error (.duplicateVersion version))
  | none => loadInto read decode .empty versions

/-- Loads the listed versions as keys of a family known in advance. -/
def loadKeys [Stored κ] (versions : List Nat) : m (Result (VersionMap κ)) :=
  loadVersions read (fun record => pure (Stored.ofRecordText record)) versions

/-- Loads the listed versions as keys of a family named by the caller. -/
def loadKeyMaterial (keyType : KeyType) (versions : List Nat) :
    m (Result (VersionMap KeyMaterial)) :=
  loadVersions read (fun record => pure (KeyMaterial.ofRecordText keyType record)) versions

end

end Keyring
