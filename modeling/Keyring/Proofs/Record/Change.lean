import Mathlib.Logic.Function.Basic
import Keyring.Proofs.Record.Rewriting
import Keyring.Proofs.Record.Schema

/-!
# One value of a record changed

Main statement: where one value of a record is replaced by another one that is read, the record is
read with the new value in that field and the old values in all others. This holds for a member of
an object and for an item of a list of values.
-/

namespace Keyring.Record

open Json

/-- A draft that has all values, with one of them set. -/
theorem Draft.set_eq_update {Field : Type} [DecidableEq Field] {layout : Layout Field}
    {draft : Draft layout} (values : (field : Field) → layout.Value field)
    (h : ∀ field, draft field = some (values field)) (field : Field) (value : layout.Value field) :
    draft.set field value = fun other => some (Function.update values field value other) := by
  funext other
  by_cases hother : other = field
  · subst hother
    rw [set_self, Function.update_self]
  · rw [set_of_ne _ _ hother, Function.update_of_ne hother, h]

namespace Layout

variable {Field : Type} (layout : Layout Field)

/-! ## Changes -/

/-- Another value of one field in its place. -/
inductive Change (field : Field) (Other : Node → Node → Prop) : Node → Node → Prop
  | member {before after : List (Spelling × Node)} {key : Spelling}
    (hkey : layout.Names key field) {node node' : Node} (h : Other node node') :
    Change field Other (.object (before ++ (key, node) :: after) .closed)
      (.object (before ++ (key, node') :: after) .closed)
  | item {before after : List Node} (hfield : layout.fields[before.length]? = some field)
    {node node' : Node} (h : Other node node') :
    Change field Other (.array (before ++ node :: after) .closed)
      (.array (before ++ node' :: after) .closed)

variable {layout} {field : Field}

/-! ## Written records -/

/-- A record is changed by writing one of its fields as another value. -/
theorem change_write (hwritable : layout.Writable) {Other : Node → Node → Prop}
    (node node' : Field → Node) (hsame : ∀ other, other ≠ field → node' other = node other)
    (h : Other (node field) (node' field)) :
    layout.Change field Other (layout.write node) (layout.write node') := by
  obtain ⟨before, after, hfields⟩ := List.append_of_mem (hwritable.mem_fields field)
  have hnodup := hwritable.nodup
  rw [hfields, List.nodup_middle, List.nodup_cons, List.mem_append, not_or] at hnodup
  let member (node : Field → Node) (field : Field) : Spelling × Node :=
    (.ofString (layout.name field), node field)
  have hmap {others : List Field} (hothers : field ∉ others) :
      others.map (member node') = others.map (member node) :=
    List.map_congr_left fun other hother =>
      Prod.ext rfl (hsame other (ne_of_mem_of_not_mem hother hothers))
  have hwrite (node : Field → Node) : layout.write node =
      .object (before.map (member node) ++ member node field :: after.map (member node))
        .closed := by
    rw [write, objectNode, hfields, List.map_map, List.map_append, List.map_cons]
    rfl
  rw [hwrite, hwrite, hmap hnodup.1.1, hmap hnodup.1.2]
  exact .member ⟨layout.name field, List.mem_cons_self, decode_ofString _⟩ h

variable [DecidableEq Field]

/-! ## Objects -/

theorem Admits.change {before after : List (Spelling × Node)} {key : Spelling}
    (hkey : layout.fieldOf? key = some field) {node node' : Node} {draft : Draft layout}
    (h : layout.Admits (before ++ (key, node) :: after) draft) :
    ∃ value, layout.read field node = .ok value ∧ draft field = some value ∧
      ∀ {value'}, layout.read field node' = .ok value' →
        layout.Admits (before ++ (key, node') :: after) (draft.set field value') := by
  have hfront := (admits_cons_of_fieldOf?_eq_some hkey).1 (h.perm List.perm_middle)
  obtain ⟨⟨value, hread, hvalue⟩, hothers⟩ := hfront
  refine ⟨value, hread, hvalue, fun hread' => ?_⟩
  exact (hothers.set hkey hread').perm List.perm_middle.symm

/-! ## Records -/

section

variable {Other : Node → Node → Prop} (Differs : layout.Value field → layout.Value field → Prop)
  (hwritable : layout.Writable) (hlegible : layout.Legible)
  (hother : ∀ {node node'}, Other node node' → ∀ {value}, layout.read field node = .ok value →
    ∃ value', layout.read field node' = .ok value' ∧ Differs value value')
include hwritable hlegible hother

/-- **A changed value is read in its field, and nowhere else.** -/
theorem draft_of_change {node node' : Node} (h : layout.Change field Other node node')
    {draft : Draft layout} (hdraft : layout.draft node = .ok draft) :
    ∃ value value', draft field = some value ∧ Differs value value' ∧
      layout.draft node' = .ok (draft.set field value') := by
  cases h with
  | member hkey h =>
    obtain ⟨value, hread, hvalue, hset⟩ :=
      (draft_object_eq_ok.1 hdraft).change ((names_iff hlegible).1 hkey)
    obtain ⟨value', hread', hdiffers⟩ := hother h hread
    exact ⟨value, value', hvalue, hdiffers, draft_object_eq_ok.2 (hset hread')⟩
  | item hfield h =>
    obtain ⟨value, hread, hvalue, hset⟩ := takeItems_change hwritable.nodup hfield hdraft
    obtain ⟨value', hread', hdiffers⟩ := hother h hread
    exact ⟨value, value', hvalue, hdiffers, hset hread'⟩

theorem values_of_change {node node' : Node} (h : layout.Change field Other node node')
    {values : (field : Field) → layout.Value field}
    (hdraft : layout.draft node = .ok fun field => some (values field)) :
    ∃ value', Differs (values field) value' ∧
      layout.draft node' = .ok fun other => some (Function.update values field value' other) := by
  obtain ⟨value, value', hvalue, hdiffers, hdraft'⟩ :=
    draft_of_change Differs hwritable hlegible hother h hdraft
  obtain rfl := Option.some.inj hvalue
  rw [Draft.set_eq_update values (fun _ => rfl)] at hdraft'
  exact ⟨value', hdiffers, hdraft'⟩

end

end Layout

end Keyring.Record
