import Keyring.Envelope
import Keyring.Key.Stored
import Keyring.Text.Description

/-!
# Keys by version

The keys of a set in ascending order of their versions. An envelope is routed to the lowest version
whose key has the id in its header.
-/

namespace Keyring

/-- Keys by version, in ascending order without repetition. -/
structure VersionMap (κ : Type) where
  entries : List (Nat × κ)
  ascending : entries.Pairwise fun a b => a.1 < b.1
  deriving Repr

namespace VersionMap

variable {κ : Type}

def empty : VersionMap κ := ⟨[], .nil⟩

/-! ## Insertion -/

/-- Puts an entry where it belongs in an ascending list; it replaces one of the same version. -/
def insertEntry (version : Nat) (key : κ) : List (Nat × κ) → List (Nat × κ)
  | [] => [(version, key)]
  | (v, k) :: rest =>
    if version < v then (version, key) :: (v, k) :: rest
    else if version = v then (version, key) :: rest
    else (v, k) :: insertEntry version key rest

theorem fst_mem_insertEntry {version : Nat} {key : κ} {entries : List (Nat × κ)}
    {entry : Nat × κ} (h : entry ∈ insertEntry version key entries) :
    entry.1 = version ∨ entry ∈ entries := by
  induction entries with
  | nil => simp_all [insertEntry]
  | cons first rest ih =>
    obtain ⟨v, k⟩ := first
    simp only [insertEntry] at h
    split at h
    · rcases List.mem_cons.1 h with rfl | h
      · exact .inl rfl
      · exact .inr h
    · split at h
      · rcases List.mem_cons.1 h with rfl | h
        · exact .inl rfl
        · exact .inr (List.mem_cons_of_mem _ h)
      · rcases List.mem_cons.1 h with rfl | h
        · exact .inr List.mem_cons_self
        · exact (ih h).imp_right (List.mem_cons_of_mem _)

theorem pairwise_insertEntry (version : Nat) (key : κ) {entries : List (Nat × κ)}
    (h : entries.Pairwise fun a b => a.1 < b.1) :
    (insertEntry version key entries).Pairwise fun a b => a.1 < b.1 := by
  induction entries with
  | nil => simp [insertEntry]
  | cons first rest ih =>
    obtain ⟨v, k⟩ := first
    obtain ⟨hfirst, hrest⟩ := List.pairwise_cons.1 h
    simp only [insertEntry]
    split
    case isTrue hlt =>
      refine List.pairwise_cons.2 ⟨fun entry hentry => ?_, h⟩
      rcases List.mem_cons.1 hentry with rfl | hentry
      · exact hlt
      · exact Nat.lt_trans hlt (hfirst entry hentry)
    case isFalse hle =>
      split
      case isTrue heq =>
        subst heq
        exact List.pairwise_cons.2 ⟨hfirst, hrest⟩
      case isFalse hne =>
        refine List.pairwise_cons.2 ⟨fun entry hentry => ?_, ih hrest⟩
        rcases fst_mem_insertEntry hentry with heq | hmem
        · show v < entry.1
          omega
        · exact hfirst entry hmem

/-- Puts a key under a version; it replaces an earlier one. -/
def insert (map : VersionMap κ) (version : Nat) (key : κ) : VersionMap κ :=
  ⟨insertEntry version key map.entries, pairwise_insertEntry version key map.ascending⟩

/-! ## Looking up -/

def get? (map : VersionMap κ) (version : Nat) : Option κ :=
  map.entries.lookup version

theorem lookup_insertEntry (version v : Nat) (key : κ) (entries : List (Nat × κ)) :
    (insertEntry version key entries).lookup v =
      if v = version then some key else entries.lookup v := by
  have lookup_cons (w : Nat) (k : κ) (rest : List (Nat × κ)) :
      ((w, k) :: rest).lookup v = if v = w then some k else rest.lookup v := by
    by_cases h : v = w <;> simp [List.lookup_cons, h, beq_eq_false_iff_ne.2]
  induction entries with
  | nil => rw [insertEntry, lookup_cons]
  | cons first rest ih =>
    obtain ⟨w, k⟩ := first
    simp only [insertEntry]
    split
    · rw [lookup_cons]
    · split
      case isTrue heq =>
        subst heq
        rw [lookup_cons, lookup_cons]
        split <;> rfl
      case isFalse hne =>
        rw [lookup_cons, ih, lookup_cons]
        by_cases h : v = w
        · rw [if_pos h, if_neg (h ▸ Ne.symm hne), if_pos h]
        · rw [if_neg h, if_neg h]

@[simp] theorem get?_empty (v : Nat) : (empty : VersionMap κ).get? v = none := rfl

/-- A key that was put in last is what its version has; other versions are as before. -/
theorem get?_insert (map : VersionMap κ) (version v : Nat) (key : κ) :
    (map.insert version key).get? v = if v = version then some key else map.get? v :=
  lookup_insertEntry version v key map.entries

/-- The versions and their keys, in ascending order. -/
def toList (map : VersionMap κ) : List (Nat × κ) := map.entries

/-- The versions, in ascending order. -/
def versions (map : VersionMap κ) : List Nat := map.entries.map (·.1)

def size (map : VersionMap κ) : Nat := map.entries.length

def isEmpty (map : VersionMap κ) : Bool := map.entries.isEmpty

/-- The lowest version whose key has the given id, with its key. -/
def findById? [Identified κ] (map : VersionMap κ) (id : KeyId) : Option (Nat × κ) :=
  map.entries.find? fun entry => Identified.keyId entry.2 == id

/-- The lowest version whose key has the id in the header of an envelope, with its key. -/
def keyForEnvelope [Identified κ] (map : VersionMap κ) (envelope : Bytes) :
    Result (Option (Nat × κ)) := do
  let (id, _) ← Envelope.parse envelope
  return map.findById? id

/-- A description, given one of each key. -/
def inspect (map : VersionMap κ) (inspectKey : κ → String) : String :=
  Text.describe "VersionMap"
    [("keys", Text.describeNumbered (map.entries.map fun (v, k) => (v, inspectKey k)))]

end VersionMap

end Keyring
