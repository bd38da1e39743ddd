import Keyring.KeySet.Load
import Keyring.Proofs.KeySet.VersionMap

/-!
# Loading a key set is all or nothing

The reader and the decoder of a load may both keep a state. Here a load is observed: each call that
it makes is noted, in order. Main statement: a list that repeats a version is refused before any
call; otherwise the versions are read and decoded one after the other, up to the first that fails,
and a load that succeeds holds just the keys that were decoded. The order of the list matters only
to readers and decoders that keep a state.
-/

namespace Keyring.Loading

variable {σ κ : Type}

/-! ## Observed loads -/

/-- A call that a load makes. -/
inductive Call
  | read (version : Nat)
  | decode (record : String)
  deriving DecidableEq, Repr

/-- An action whose call is noted beside the state it works on. -/
def note {α : Type} (call : Call) (action : StateM σ α) : StateM (σ × List Call) α :=
  fun (s, calls) =>
    let (result, next) := action.run s
    (result, next, calls ++ [call])

theorem run_note {α : Type} {call : Call} {action : StateM σ α} {s next : σ} {result : α}
    (h : action.run s = (result, next)) (calls : List Call) :
    (note call action).run (s, calls) = pure (result, next, calls ++ [call]) := by
  show (((action.run s).1, (action.run s).2, calls ++ [call]) : α × σ × List Call) = _
  rw [h]
  rfl

/-- The outcome of a load, the state that it leaves, and the calls that it made in order. -/
def observe (read : Nat → StateM σ (Except String String))
    (decode : String → StateM σ (Result κ)) (versions : List Nat) (s : σ) :
    Result (VersionMap κ) × σ × List Call :=
  (loadVersions (fun v => note (.read v) (read v)) (fun r => note (.decode r) (decode r))
    versions).run (s, [])

/-- The loop of an observed load, from a map on that holds the keys so far. -/
def observeInto (read : Nat → StateM σ (Except String String))
    (decode : String → StateM σ (Result κ)) (map : VersionMap κ) (versions : List Nat) :
    StateM (σ × List Call) (Result (VersionMap κ)) :=
  loadInto (fun v => note (.read v) (read v)) (fun r => note (.decode r) (decode r)) map versions

/-! ## Repeated versions -/

theorem firstRepeated?_cons (earlier : List Nat) (v : Nat) (rest : List Nat) :
    firstRepeated? earlier (v :: rest) =
      if v ∈ earlier then some v else firstRepeated? (v :: earlier) rest := by
  rw [firstRepeated?]
  simp only [List.contains_iff_mem]

theorem firstRepeated?_eq_none {earlier versions : List Nat} :
    firstRepeated? earlier versions = none ↔
      versions.Nodup ∧ ∀ v ∈ versions, v ∉ earlier := by
  induction versions generalizing earlier with
  | nil => simp [firstRepeated?]
  | cons v rest ih =>
    rw [firstRepeated?_cons]
    by_cases hv : v ∈ earlier
    · simp [hv]
    · rw [if_neg hv, ih, List.nodup_cons]
      constructor
      · rintro ⟨hrest, hfresh⟩
        refine ⟨⟨fun hmem => hfresh v hmem List.mem_cons_self, hrest⟩, ?_⟩
        intro w hw
        rcases List.mem_cons.1 hw with rfl | hw
        · exact hv
        · exact fun hmem => hfresh w hw (List.mem_cons_of_mem _ hmem)
      · rintro ⟨⟨hnot, hrest⟩, hfresh⟩
        refine ⟨hrest, fun w hw hmem => ?_⟩
        rcases List.mem_cons.1 hmem with rfl | hmem
        · exact hnot hw
        · exact hfresh w (List.mem_cons_of_mem _ hw) hmem

/-- The version that is named is the first of the list that stands there already. -/
theorem firstRepeated?_eq_some {earlier versions : List Nat} {v : Nat}
    (h : firstRepeated? earlier versions = some v) :
    ∃ done rest, versions = done ++ v :: rest ∧ done.Nodup ∧ (∀ w ∈ done, w ∉ earlier) ∧
      (v ∈ earlier ∨ v ∈ done) := by
  induction versions generalizing earlier with
  | nil => cases h
  | cons w rest ih =>
    rw [firstRepeated?_cons] at h
    by_cases hw : w ∈ earlier
    · rw [if_pos hw] at h
      cases h
      exact ⟨[], rest, rfl, .nil, nofun, .inl hw⟩
    · rw [if_neg hw] at h
      -- behind a version that is new, it counts as an earlier one
      obtain ⟨done, later, rfl, hdone, hfresh, hv⟩ := ih h
      refine ⟨w :: done, later, rfl, ?_, ?_, ?_⟩
      · exact List.nodup_cons.2 ⟨fun hmem => hfresh w hmem List.mem_cons_self, hdone⟩
      · intro u hu
        rcases List.mem_cons.1 hu with rfl | hu
        · exact hw
        · exact fun hmem => hfresh u hu (List.mem_cons_of_mem _ hmem)
      · rcases hv with hv | hv
        · rcases List.mem_cons.1 hv with rfl | hv
          · exact .inr List.mem_cons_self
          · exact .inl hv
        · exact .inr (List.mem_cons_of_mem _ hv)

/-! ## What a run does -/

section

variable (read : Nat → StateM σ (Except String String)) (decode : String → StateM σ (Result κ))

/-- The versions are all read and decoded, one after the other: the keys that come of it, the calls
in order, and the state at the end. -/
inductive Loads : σ → List Nat → List (Nat × κ) → List Call → σ → Prop
  | done (s : σ) : Loads s [] [] [] s
  | step {s mid next final : σ} {version : Nat} {record : String} {key : κ} {rest : List Nat}
    {entries : List (Nat × κ)} {calls : List Call}
    (hread : (read version).run s = (.ok record, mid))
    (hdecode : (decode record).run mid = (.ok key, next))
    (hrest : Loads next rest entries calls final) :
    Loads s (version :: rest) ((version, key) :: entries)
      (.read version :: .decode record :: calls) final

/-- The version cannot be read, or its record cannot be decoded. -/
inductive Fails : σ → Nat → KeyError → List Call → σ → Prop
  | read {s final : σ} {version : Nat} {cause : String}
    (hread : (read version).run s = (.error cause, final)) :
    Fails s version (.source version cause) [.read version] final
  | decode {s mid final : σ} {version : Nat} {record : String} {error : KeyError}
    (hread : (read version).run s = (.ok record, mid))
    (hdecode : (decode record).run mid = (.error error, final)) :
    Fails s version error [.read version, .decode record] final

/-- The versions load up to one that fails; nothing after it is called. -/
def FailsIn (s : σ) (versions : List Nat) (error : KeyError) (calls : List Call) (final : σ) :
    Prop :=
  ∃ done version rest entries before mid last, versions = done ++ version :: rest ∧
    Loads read decode s done entries before mid ∧ Fails read decode mid version error last final ∧
    calls = before ++ last

variable {read decode} {s mid final : σ} {versions : List Nat} {entries : List (Nat × κ)}
  {calls : List Call}

theorem Loads.map_fst (h : Loads read decode s versions entries calls final) :
    entries.map (·.1) = versions := by
  induction h with
  | done => rfl
  | step hread hdecode hrest ih => rw [List.map_cons, ih]

theorem loads_or_fails (read : Nat → StateM σ (Except String String))
    (decode : String → StateM σ (Result κ)) (versions : List Nat) (s : σ) :
    (∃ entries calls final, Loads read decode s versions entries calls final) ∨
      ∃ error calls final, FailsIn read decode s versions error calls final := by
  induction versions generalizing s with
  | nil => exact .inl ⟨[], [], s, .done s⟩
  | cons version rest ih =>
    -- the rest starts from the state that reading and decoding leave
    rcases hread : (read version).run s with ⟨cause | record, mid⟩
    · exact .inr ⟨_, _, mid, [], version, rest, [], [], s, _, rfl, .done s, .read hread, rfl⟩
    · rcases hdecode : (decode record).run mid with ⟨error | key, next⟩
      · exact .inr
          ⟨error, _, next, [], version, rest, [], [], s, _, rfl, .done s, .decode hread hdecode,
            rfl⟩
      · rcases ih next with ⟨entries, calls, final, h⟩ |
          ⟨error, _, final, done, failing, later, entries, before, last, calls, rfl, h, hfails, rfl⟩
        · exact .inl ⟨_, _, final, .step hread hdecode h⟩
        · exact .inr ⟨error, _, final, version :: done, failing, later, _, _, last, calls, rfl,
            .step hread hdecode h, hfails, rfl⟩

theorem not_fails_of_ok {version : Nat} {record : String} {key : κ} {next : σ}
    (hread : (read version).run s = (.ok record, mid))
    (hdecode : (decode record).run mid = (.ok key, next)) {error : KeyError} :
    ¬ Fails read decode s version error calls final := by
  intro hfails
  cases hfails with
  | read hread' =>
    rw [hread] at hread'
    cases hread'
  | decode hread' hdecode' =>
    rw [hread] at hread'
    cases hread'
    rw [hdecode] at hdecode'
    cases hdecode'

/-- A list that loads has no version that fails. -/
theorem Loads.not_failsIn (h : Loads read decode s versions entries calls final) :
    ¬ ∃ error calls final, FailsIn read decode s versions error calls final := by
  induction h with
  | done =>
    rintro ⟨error, calls, final, done, version, rest, -, -, -, -, hnil, -⟩
    simp at hnil
  | step hread hdecode hrest ih =>
    rintro ⟨error, calls, final, done, version, rest, entries, before, mid, last, hsplit, hloads,
      hfails, rfl⟩
    -- the failing version is the first of the list or one of the rest
    cases hloads with
    | done =>
      cases hsplit
      exact not_fails_of_ok hread hdecode hfails
    | step hread' hdecode' hrest' =>
      cases hsplit
      rw [hread] at hread'
      cases hread'
      rw [hdecode] at hdecode'
      cases hdecode'
      exact ih ⟨error, _, final, _, version, rest, _, _, mid, last, rfl, hrest', hfails, rfl⟩

theorem run_observeInto_cons {version : Nat} {record : String} {key : κ} {next : σ}
    (hread : (read version).run s = (.ok record, mid))
    (hdecode : (decode record).run mid = (.ok key, next))
    (map : VersionMap κ) (rest : List Nat) (before : List Call) :
    (observeInto read decode map (version :: rest)).run (s, before) =
      (observeInto read decode (map.insert version key) rest).run
        (next, before ++ [.read version, .decode record]) := by
  have hcalls : before ++ [.read version, .decode record] =
      before ++ [.read version] ++ [.decode record] := by simp
  rw [hcalls]
  unfold observeInto
  rw [loadInto, StateT.run_bind, run_note hread, pure_bind]
  simp only
  rw [StateT.run_bind, run_note hdecode, pure_bind]

theorem run_observeInto_fails {version : Nat} {error : KeyError}
    (h : Fails read decode s version error calls final) (map : VersionMap κ) (rest : List Nat)
    (before : List Call) :
    (observeInto read decode map (version :: rest)).run (s, before) =
      (.error error, final, before ++ calls) := by
  unfold observeInto
  cases h with
  | read hread =>
    rw [loadInto, StateT.run_bind, run_note hread, pure_bind]
    rfl
  | decode hread hdecode =>
    rw [loadInto, StateT.run_bind, run_note hread, pure_bind]
    simp only
    rw [StateT.run_bind, run_note hdecode, pure_bind, List.append_assoc]
    rfl

/-- The loop over a list whose beginning loads goes on behind it, with the keys put in and the calls
noted so far. -/
theorem run_observeInto_append (h : Loads read decode s versions entries calls final)
    (map : VersionMap κ) (rest : List Nat) (before : List Call) :
    (observeInto read decode map (versions ++ rest)).run (s, before) =
      (observeInto read decode (map.insertAll entries) rest).run (final, before ++ calls) := by
  induction h generalizing map before with
  | done =>
    rw [List.append_nil]
    rfl
  | step hread hdecode hrest ih =>
    rw [List.cons_append, run_observeInto_cons hread hdecode, ih, List.append_assoc]
    rfl

/-! ## Outcomes -/

theorem observe_of_nodup (h : versions.Nodup) :
    observe read decode versions s = (observeInto read decode .empty versions).run (s, []) := by
  have hnone : firstRepeated? [] versions = none := firstRepeated?_eq_none.2 ⟨h, nofun⟩
  rw [observe, loadVersions, hnone]
  rfl

/-- A list that repeats a version is refused, and nothing is called. -/
theorem observe_of_not_nodup (h : ¬ versions.Nodup) :
    ∃ earlier version later, versions = earlier ++ version :: later ∧ earlier.Nodup ∧
      version ∈ earlier ∧
      observe read decode versions s = (.error (.duplicateVersion version), s, []) := by
  cases hrepeated : firstRepeated? [] versions with
  | none => exact absurd (firstRepeated?_eq_none.1 hrepeated).1 h
  | some version =>
    obtain ⟨earlier, later, hsplit, hearlier, -, hmem⟩ := firstRepeated?_eq_some hrepeated
    refine ⟨earlier, version, later, hsplit, hearlier, ?_, ?_⟩
    · rcases hmem with hmem | hmem
      · cases hmem
      · exact hmem
    · rw [observe, loadVersions, hrepeated]
      rfl

theorem observe_of_loads (hnodup : versions.Nodup)
    (h : Loads read decode s versions entries calls final) :
    observe read decode versions s =
      (.ok (VersionMap.empty.insertAll entries), final, calls) := by
  have hrun := run_observeInto_append h .empty [] []
  rw [List.append_nil] at hrun
  rw [observe_of_nodup hnodup, hrun]
  rfl

theorem observe_of_failsIn (hnodup : versions.Nodup) {error : KeyError}
    (h : FailsIn read decode s versions error calls final) :
    observe read decode versions s = (.error error, final, calls) := by
  rw [observe_of_nodup hnodup]
  obtain ⟨done, version, rest, entries, before, mid, last, rfl, hloads, hfails, rfl⟩ := h
  rw [run_observeInto_append hloads, run_observeInto_fails hfails]
  rfl

/-- Only a list that loads gives a map. -/
theorem loads_of_observe_ok {map : VersionMap κ}
    (h : (observe read decode versions s).1 = .ok map) :
    versions.Nodup ∧ ∃ entries calls final, Loads read decode s versions entries calls final ∧
      map = VersionMap.empty.insertAll entries := by
  by_cases hnodup : versions.Nodup
  · refine ⟨hnodup, ?_⟩
    rcases loads_or_fails read decode versions s with ⟨entries, calls, final, hloads⟩ |
      ⟨error, calls, final, hfails⟩
    · rw [observe_of_loads hnodup hloads] at h
      cases h
      exact ⟨entries, calls, final, hloads, rfl⟩
    · rw [observe_of_failsIn hnodup hfails] at h
      cases h
  · obtain ⟨-, version, -, -, -, -, hrefused⟩ :=
      @observe_of_not_nodup σ κ read decode s versions hnodup
    rw [hrefused] at h
    cases h

theorem Loads.perm_toList (h : Loads read decode s versions entries calls final)
    (hnodup : versions.Nodup) : (VersionMap.empty.insertAll entries).toList.Perm entries := by
  apply VersionMap.perm_toList_insertAll_empty
  rw [h.map_fst]
  exact hnodup

theorem Loads.perm_versions (h : Loads read decode s versions entries calls final)
    (hnodup : versions.Nodup) : (VersionMap.empty.insertAll entries).versions.Perm versions := by
  have hperm := (h.perm_toList hnodup).map (·.1)
  rw [h.map_fst] at hperm
  exact hperm

end

/-! ## Readers and decoders without a state -/

section

variable {fetch : Nat → Except String String} {make : String → Result κ} {s : σ}

theorem loads_cons_of_stateless {version : Nat} {rest : List Nat} {entries : List (Nat × κ)} :
    (∃ calls final, Loads (fun v => pure (fetch v)) (fun r => pure (make r)) s (version :: rest)
        entries calls final) ↔
      ∃ record key tail, fetch version = .ok record ∧ make record = .ok key ∧
        entries = (version, key) :: tail ∧
        ∃ calls final, Loads (fun v => pure (fetch v)) (fun r => pure (make r)) s rest tail
          calls final := by
  constructor
  · rintro ⟨calls, final, h⟩
    cases h with
    | step hread hdecode hrest =>
      obtain ⟨hfetch, rfl⟩ := Prod.mk.inj hread
      obtain ⟨hmake, rfl⟩ := Prod.mk.inj hdecode
      exact ⟨_, _, _, hfetch, hmake, rfl, _, _, hrest⟩
  · rintro ⟨record, key, tail, hfetch, hmake, rfl, calls, final, hrest⟩
    exact ⟨_, final, .step (congrArg (·, s) hfetch) (congrArg (·, s) hmake) hrest⟩

/-- In another order the same versions give the same keys. -/
theorem loads_of_perm_of_stateless {versions other : List Nat} (h : versions.Perm other)
    {entries : List (Nat × κ)}
    (hloads : ∃ calls final, Loads (fun v => pure (fetch v)) (fun r => pure (make r)) s versions
      entries calls final) :
    ∃ entries', entries.Perm entries' ∧
      ∃ calls final, Loads (fun v => pure (fetch v)) (fun r => pure (make r)) s other entries'
        calls final := by
  induction h generalizing entries with
  | nil => exact ⟨entries, .refl _, hloads⟩
  | cons version _ ih =>
    obtain ⟨record, key, tail, hfetch, hmake, rfl, hrest⟩ := loads_cons_of_stateless.1 hloads
    obtain ⟨tail', hperm, hrest'⟩ := ih hrest
    refine ⟨(version, key) :: tail', hperm.cons _, ?_⟩
    exact loads_cons_of_stateless.2 ⟨record, key, tail', hfetch, hmake, rfl, hrest'⟩
  | swap first second rest =>
    -- without a state neither version sees which of the two came before
    obtain ⟨record, key, tail, hfetch, hmake, rfl, hmore⟩ := loads_cons_of_stateless.1 hloads
    obtain ⟨record', key', tail', hfetch', hmake', rfl, hrest⟩ := loads_cons_of_stateless.1 hmore
    refine ⟨_, .swap .., ?_⟩
    apply loads_cons_of_stateless.2
    refine ⟨record', key', _, hfetch', hmake', rfl, ?_⟩
    exact loads_cons_of_stateless.2 ⟨record, key, tail', hfetch, hmake, rfl, hrest⟩
  | trans _ _ ih ih' =>
    obtain ⟨middle, hperm, hmiddle⟩ := ih hloads
    obtain ⟨entries', hperm', hentries'⟩ := ih' hmiddle
    exact ⟨entries', hperm.trans hperm', hentries'⟩

theorem observe_ok_of_perm_of_stateless {versions other : List Nat} (h : versions.Perm other)
    {map : VersionMap κ}
    (hok : (observe (fun v => pure (fetch v)) (fun r => pure (make r)) versions s).1 = .ok map) :
    (observe (fun v => pure (fetch v)) (fun r => pure (make r)) other s).1 = .ok map := by
  obtain ⟨hnodup, entries, calls, final, hloads, rfl⟩ := loads_of_observe_ok hok
  obtain ⟨entries', hperm, calls', final', hloads'⟩ :=
    loads_of_perm_of_stateless h ⟨calls, final, hloads⟩
  have hnodup' : other.Nodup := h.nodup_iff.1 hnodup
  have hmap : VersionMap.empty.insertAll entries' = VersionMap.empty.insertAll entries := by
    apply VersionMap.eq_of_perm
    exact (hloads'.perm_toList hnodup').trans (hperm.symm.trans (hloads.perm_toList hnodup).symm)
  rw [observe_of_loads hnodup' hloads', hmap]

end

/-! ## All or nothing -/

section

variable (read : Nat → StateM σ (Except String String)) (decode : String → StateM σ (Result κ))

/-- **A load is all or nothing.** A list that repeats a version is refused with the first version
that stands in it already, and nothing is called. Otherwise the versions are read and decoded
alternately in their order, up to the first that fails, and its error is the outcome; or none fails,
and the map holds just the listed versions with the keys that were decoded for them, in ascending
order. A load succeeds just when no version is repeated and none fails. For a reader and a decoder
without a state, the order of the list changes neither whether it succeeds nor the map. -/
theorem loadVersions_all_or_nothing (versions : List Nat) (s : σ) :
    (¬ versions.Nodup → ∃ earlier version later, versions = earlier ++ version :: later ∧
      earlier.Nodup ∧ version ∈ earlier ∧
      observe read decode versions s = (.error (.duplicateVersion version), s, [])) ∧
    (versions.Nodup →
      (∃ error calls final, FailsIn read decode s versions error calls final ∧
        observe read decode versions s = (.error error, final, calls)) ∨
      ∃ entries calls final map, Loads read decode s versions entries calls final ∧
        observe read decode versions s = (.ok map, final, calls) ∧
        (∀ version key, map.get? version = some key ↔ (version, key) ∈ entries) ∧
        map.toList.Perm entries ∧ map.toList.Pairwise (fun a b => a.1 < b.1) ∧
        map.versions.Perm versions ∧ map.versions.Pairwise (· < ·) ∧
        map.size = versions.length) ∧
    ((∃ map, (observe read decode versions s).1 = .ok map) ↔
      versions.Nodup ∧
        ¬ ∃ error calls final, FailsIn read decode s versions error calls final) ∧
    (∀ (fetch : Nat → Except String String) (make : String → Result κ) (other : List Nat),
      versions.Perm other → ∀ map : VersionMap κ,
        (observe (fun v => pure (fetch v)) (fun r => pure (make r)) versions s).1 = .ok map ↔
          (observe (fun v => pure (fetch v)) (fun r => pure (make r)) other s).1 = .ok map) := by
  refine ⟨observe_of_not_nodup, ?_, ?_, ?_⟩
  · intro hnodup
    rcases loads_or_fails read decode versions s with ⟨entries, calls, final, hloads⟩ |
      ⟨error, calls, final, hfails⟩
    · have hperm := hloads.perm_toList hnodup
      have hversions := hloads.perm_versions hnodup
      refine .inr ⟨entries, calls, final, _, hloads, observe_of_loads hnodup hloads, ?_, hperm,
        VersionMap.ascending _, hversions, VersionMap.pairwise_versions _, ?_⟩
      · intro version key
        rw [VersionMap.get?_eq_some_iff]
        exact hperm.mem_iff
      · rw [← hversions.length_eq, VersionMap.versions, List.length_map]
        rfl
    · exact .inl ⟨error, calls, final, hfails, observe_of_failsIn hnodup hfails⟩
  · constructor
    · rintro ⟨map, hok⟩
      obtain ⟨hnodup, entries, calls, final, hloads, -⟩ := loads_of_observe_ok hok
      exact ⟨hnodup, hloads.not_failsIn⟩
    · rintro ⟨hnodup, hnone⟩
      rcases loads_or_fails read decode versions s with ⟨entries, calls, final, hloads⟩ | hfails
      · exact ⟨_, congrArg (·.1) (observe_of_loads hnodup hloads)⟩
      · exact absurd hfails hnone
  · intro fetch make other hperm map
    exact ⟨observe_ok_of_perm_of_stateless hperm, observe_ok_of_perm_of_stateless hperm.symm⟩

end

/-- Two versions are loaded in either order to the same map, and with one of them repeated nothing
is called. -/
theorem loadVersions_all_or_nothing_either_order :
    let read : Nat → StateM Nat (Except String String) := fun version => pure (.ok version.repr)
    let decode : String → StateM Nat (Result String) := fun record => pure (.ok record)
    (∃ map, (observe read decode [2, 1] 0).1 = .ok map ∧ map.size = 2 ∧
      map.versions.Perm [2, 1] ∧ (observe read decode [1, 2] 0).1 = .ok map) ∧
    ∃ version, (observe read decode [1, 2, 1] 0) = (.error (.duplicateVersion version), 0, []) := by
  intro read decode
  obtain ⟨-, hload, -, hperm⟩ := loadVersions_all_or_nothing read decode [2, 1] 0
  obtain ⟨hrepeated, -⟩ := loadVersions_all_or_nothing read decode [1, 2, 1] 0
  constructor
  · rcases hload (by decide) with ⟨error, calls, final, -, hfailed⟩ |
      ⟨entries, calls, final, map, -, hloaded, -, -, -, hversions, -, hsize⟩
    · cases hfailed
    · have hmap : (observe read decode [2, 1] 0).1 = .ok map := by rw [hloaded]
      have hswap : [2, 1].Perm [1, 2] := .swap 1 2 []
      exact ⟨map, hmap, hsize, hversions, (hperm _ _ _ hswap map).1 hmap⟩
  · obtain ⟨_, version, _, -, -, -, hrefused⟩ := hrepeated (by decide)
    exact ⟨version, hrefused⟩

end Keyring.Loading
