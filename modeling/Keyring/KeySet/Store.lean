import Keyring.Error

/-!
# Stores of records

A store keeps one record text for each version. Reading a version that has none fails with a cause
that names it.
-/

namespace Keyring

/-- Record texts by version, the latest entry first. -/
structure RecordStore where
  entries : List (Nat × String)
  deriving DecidableEq, Repr

namespace RecordStore

def empty : RecordStore := ⟨[]⟩

/-- Stores a record; it replaces an earlier one of the same version. -/
def insert (store : RecordStore) (version : Nat) (record : String) : RecordStore :=
  ⟨(version, record) :: store.entries.filter (·.1 ≠ version)⟩

/-- The store of the given records; of several for one version the last one counts. -/
def ofList (records : List (Nat × String)) : RecordStore :=
  records.foldl (fun store (version, record) => store.insert version record) empty

/-- The cause of failure for a version without a record. -/
def missingVersion (version : Nat) : String :=
  "No record stored for version " ++ toString version

/-- The record of a version, or the cause why there is none. -/
def read (store : RecordStore) (version : Nat) : Except String String :=
  match store.entries.lookup version with
  | some record => .ok record
  | none => .error (missingVersion version)

theorem lookup_filter_ne {entries : List (Nat × String)} {version v : Nat} (h : v ≠ version) :
    (entries.filter (·.1 ≠ version)).lookup v = entries.lookup v := by
  induction entries with
  | nil => rfl
  | cons entry rest ih =>
    by_cases hw : entry.1 = version
    · have hv : (v == entry.1) = false := beq_eq_false_iff_ne.2 (hw ▸ h)
      rw [List.filter_cons_of_neg (by simpa using hw), ih, List.lookup_cons, hv]
    · rw [List.filter_cons_of_pos (by simpa using hw), List.lookup_cons, List.lookup_cons, ih]

/-- A record that was stored last is what its version reads as; other versions are as before. -/
theorem read_insert (store : RecordStore) (version v : Nat) (record : String) :
    (store.insert version record).read v =
      if v = version then .ok record else store.read v := by
  by_cases h : v = version
  · simp [read, insert, h]
  · simp only [read, insert, List.lookup_cons, beq_eq_false_iff_ne.2 h, if_neg h,
      lookup_filter_ne h]

end RecordStore

end Keyring
