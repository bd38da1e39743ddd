import Keyring.Proofs.Record.Members

/-!
# What lists of values are read as

A list of values is read item by item in the order of the layout, and every field is read from its
own item. Main statements: another value in the place of an item is read in the field of the item,
and in no other one; and only a closed container is read at all.
-/

namespace Keyring.Record

open Json

/-! ## Drafts -/

namespace Draft

variable {Field : Type} [DecidableEq Field] {layout : Layout Field}

theorem set_set (draft : Draft layout) (field : Field) (value value' : layout.Value field) :
    (draft.set field value).set field value' = draft.set field value' := by
  funext other
  by_cases hother : other = field
  · subst hother
    rw [set_self, set_self]
  · rw [set_of_ne _ _ hother, set_of_ne _ _ hother, set_of_ne _ _ hother]

theorem set_comm (draft : Draft layout) {field field' : Field} (hne : field' ≠ field)
    (value : layout.Value field) (value' : layout.Value field') :
    (draft.set field value).set field' value' = (draft.set field' value').set field value := by
  funext other
  by_cases hother : other = field
  · subst hother
    rw [set_of_ne _ _ (Ne.symm hne), set_self, set_self]
  · rw [set_of_ne _ value hother]
    by_cases hother' : other = field'
    · subst hother'
      rw [set_self, set_self]
    · rw [set_of_ne _ _ hother', set_of_ne _ _ hother', set_of_ne _ _ hother]

end Draft

namespace Layout

variable {Field : Type} {layout : Layout Field} [DecidableEq Field] {field : Field}

/-! ## Items -/

theorem takeItems_cons_eq_ok {ending : Ending} {count : Nat} {draft final : Draft layout}
    {fields : List Field} {item : Node} {items : List Node} :
    layout.takeItems ending count draft (field :: fields) (item :: items) = .ok final ↔
      ∃ value, layout.read field item = .ok value ∧
        layout.takeItems ending (count + 1) (draft.set field value) fields items = .ok final :=
  Result.bind_eq_ok

/-- A field that is not read from the items keeps its value, whatever it is. -/
theorem takeItems_set {ending : Ending} {count : Nat} {draft final : Draft layout}
    {fields : List Field} {items : List Node} (hfield : field ∉ fields)
    (h : layout.takeItems ending count draft fields items = .ok final)
    (value : layout.Value field) :
    final field = draft field ∧
      layout.takeItems ending count (draft.set field value) fields items =
        .ok (final.set field value) := by
  -- the fields that are left are set behind it, and in either order the draft is the same
  induction fields generalizing count items draft with
  | nil =>
    cases items with
    | nil =>
      cases ending with
      | closed =>
        cases h
        exact ⟨rfl, rfl⟩
      | broken stop => cases h
    | cons item items => cases h
  | cons first fields ih =>
    obtain ⟨hne, hfields⟩ := not_or.1 fun h => hfield (List.mem_cons.2 h)
    cases items with
    | nil =>
      cases ending with
      | closed =>
        rw [takeItems] at h ⊢
        split at h
        case isTrue hoptional =>
          rw [if_pos hoptional]
          exact ih hfields h
        case isFalse => cases h
      | broken stop => cases h
    | cons item items =>
      obtain ⟨value', hread, h⟩ := takeItems_cons_eq_ok.1 h
      obtain ⟨hkept, hset⟩ := ih hfields h
      refine ⟨hkept.trans (Draft.set_of_ne draft value' hne), ?_⟩
      refine takeItems_cons_eq_ok.2 ⟨value', hread, ?_⟩
      rw [Draft.set_comm draft (Ne.symm hne) value value']
      exact hset

theorem takeItems_change {ending : Ending} {count : Nat} {draft final : Draft layout}
    {fields : List Field} (hnodup : fields.Nodup) {before after : List Node}
    (hfield : fields[before.length]? = some field) {node node' : Node}
    (h : layout.takeItems ending count draft fields (before ++ node :: after) = .ok final) :
    ∃ value, layout.read field node = .ok value ∧ final field = some value ∧
      ∀ {value'}, layout.read field node' = .ok value' →
        layout.takeItems ending count draft fields (before ++ node' :: after) =
          .ok (final.set field value') := by
  -- on the items in front: a field is listed once, so none behind the changed item sets it again
  induction before generalizing count fields draft with
  | nil =>
    cases fields with
    | nil => cases hfield
    | cons first fields =>
      cases hfield
      obtain ⟨value, hread, h⟩ := takeItems_cons_eq_ok.1 h
      have hrest (value' : layout.Value field) :=
        takeItems_set (List.nodup_cons.1 hnodup).1 h value'
      refine ⟨value, hread, (hrest value).1.trans (Draft.set_self draft field value), ?_⟩
      intro value' hread'
      have hset := (hrest value').2
      rw [Draft.set_set] at hset
      exact takeItems_cons_eq_ok.2 ⟨value', hread', hset⟩
  | cons item before ih =>
    cases fields with
    | nil => cases hfield
    | cons first fields =>
      obtain ⟨first', hfirst, h⟩ := takeItems_cons_eq_ok.1 h
      obtain ⟨value, hread, hvalue, hset⟩ := ih (List.nodup_cons.1 hnodup).2 hfield h
      refine ⟨value, hread, hvalue, fun hread' => ?_⟩
      exact takeItems_cons_eq_ok.2 ⟨first', hfirst, hset hread'⟩

/-! ## What is read at all -/

/-- Only closed containers are read as records. -/
theorem skipStop?_of_draft {node : Node} {draft : Draft layout}
    (h : layout.draft node = .ok draft) : node.skipStop? = none := by
  have hitems {stop : Stop} {count : Nat} {fields : List Field} {items : List Node}
      {draft draft' : Draft layout} :
      layout.takeItems (.broken stop) count draft fields items ≠ .ok draft' := by
    induction fields generalizing count items draft with
    | nil =>
      cases items with
      | nil | cons => nofun
    | cons field fields ih =>
      cases items with
      | nil => nofun
      | cons item items =>
        intro h
        obtain ⟨value, -, h⟩ := takeItems_cons_eq_ok.1 h
        exact ih h
  cases node with
  | object members ending =>
    obtain ⟨_, -, h⟩ := Result.bind_eq_ok.1 h
    cases ending with
    | closed => rfl
    | broken stop => cases h
  | array items ending =>
    cases ending with
    | closed => rfl
    | broken stop => exact absurd h hitems
  | null | bool | number | text | broken => cases h

/-- What is read of a draft is read of a closed container. -/
theorem skipStop?_of_bind {α : Type} {node : Node} {make : Draft layout → Except Fault α}
    {record : α} (h : layout.draft node >>= make = .ok record) : node.skipStop? = none := by
  obtain ⟨draft, hdraft, -⟩ := Result.bind_eq_ok.1 h
  exact skipStop?_of_draft hdraft

end Layout

end Keyring.Record
