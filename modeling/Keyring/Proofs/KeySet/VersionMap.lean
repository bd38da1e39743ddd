import Keyring.KeySet.VersionMap

/-!
# What a version map holds

A version map is determined by the pairs it holds: it lists them in ascending order of versions,
whatever the order in which they were put in.
-/

namespace Keyring.VersionMap

variable {κ : Type} {map other : VersionMap κ} {version : Nat} {key : κ}

/-! ## Order and content -/

theorem pairwise_versions (map : VersionMap κ) : map.versions.Pairwise (· < ·) :=
  List.pairwise_map.2 map.ascending

/-- Two maps that hold the same pairs are equal. -/
theorem eq_of_perm (h : map.toList.Perm other.toList) : map = other := by
  obtain ⟨entries, ascending⟩ := map
  obtain ⟨entries', ascending'⟩ := other
  have hentries : entries = entries' := by
    refine List.Perm.eq_of_pairwise ?_ ascending ascending' h
    intro a b _ _ hab hba
    exact absurd hba (Nat.lt_asymm hab)
  subst hentries
  rfl

theorem lookup_eq_some_iff {entries : List (Nat × κ)}
    (h : entries.Pairwise fun a b => a.1 < b.1) :
    entries.lookup version = some key ↔ (version, key) ∈ entries := by
  induction entries with
  | nil => simp
  | cons first rest ih =>
    obtain ⟨v, k⟩ := first
    obtain ⟨hfirst, hrest⟩ := List.pairwise_cons.1 h
    rw [List.lookup_cons, List.mem_cons, Prod.mk.injEq]
    by_cases hv : version = v
    · subst hv
      have hnot : (version, key) ∉ rest := by
        intro hmem
        exact Nat.lt_irrefl version (hfirst (version, key) hmem)
      simp [hnot, eq_comm]
    · simp [beq_eq_false_iff_ne.2 hv, hv, ih hrest]

/-- A version has a key just when the pair is listed. -/
theorem get?_eq_some_iff : map.get? version = some key ↔ (version, key) ∈ map.toList :=
  lookup_eq_some_iff map.ascending

/-! ## Putting in many -/

theorem perm_insertEntry {entries : List (Nat × κ)} (h : version ∉ entries.map (·.1)) :
    (insertEntry version key entries).Perm ((version, key) :: entries) := by
  induction entries with
  | nil => exact .refl _
  | cons first rest ih =>
    obtain ⟨v, k⟩ := first
    rw [List.map_cons, List.mem_cons, not_or] at h
    unfold insertEntry
    split
    · exact .refl _
    · rw [if_neg h.1]
      exact ((ih h.2).cons _).trans (.swap ..)

/-- A version that is new adds its pair to those that are held. -/
theorem perm_toList_insert (h : version ∉ map.versions) :
    (map.insert version key).toList.Perm ((version, key) :: map.toList) :=
  perm_insertEntry h

/-- Puts pairs in one after the other. -/
def insertAll (map : VersionMap κ) : List (Nat × κ) → VersionMap κ
  | [] => map
  | (version, key) :: rest => (map.insert version key).insertAll rest

theorem perm_toList_insertAll {entries : List (Nat × κ)}
    (h : (map.versions ++ entries.map (·.1)).Nodup) :
    (map.insertAll entries).toList.Perm (map.toList ++ entries) := by
  induction entries generalizing map with
  | nil =>
    rw [List.append_nil]
    exact .refl _
  | cons first rest ih =>
    obtain ⟨version, key⟩ := first
    have hnew : version ∉ map.versions := by
      intro hmem
      exact (List.nodup_append.1 h).2.2 _ hmem _ List.mem_cons_self rfl
    have hinsert : (map.insert version key).toList.Perm ((version, key) :: map.toList) :=
      perm_toList_insert hnew
    -- the versions that stand in the grown map or are still to come are the same as before
    have hversions : ((map.insert version key).versions ++ rest.map (·.1)).Perm
        (map.versions ++ ((version, key) :: rest).map (·.1)) :=
      ((hinsert.map (·.1)).append_right _).trans List.perm_middle.symm
    have hrest := ih (hversions.nodup_iff.2 h)
    exact hrest.trans ((hinsert.append_right rest).trans List.perm_middle.symm)

/-- From nothing, pairs of distinct versions are held as they are. -/
theorem perm_toList_insertAll_empty {entries : List (Nat × κ)} (h : (entries.map (·.1)).Nodup) :
    (empty.insertAll entries).toList.Perm entries :=
  perm_toList_insertAll h

end Keyring.VersionMap
