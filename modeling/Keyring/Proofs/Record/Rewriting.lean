import Keyring.Proofs.Json.Grammar
import Keyring.Proofs.Record.Items

/-!
# Records that say the same

The members of a record object may come in any order and under any name of their field, other
members are passed over, and some values have more than one form. A latitude says which values of a
field count as the same and which value may be left out. Main statement: a rewrite of a record that
stays within the latitude is read as a draft that agrees with the draft of the record.
-/

namespace Keyring.Record

open Json

namespace Layout

variable {Field : Type} (layout : Layout Field)

/-! ## Rewrites -/

/-- The names of a field, the current one and the older ones. -/
def names (field : Field) : List String :=
  layout.name field :: layout.olderNames field

/-- The key of a member that gives a field. -/
def Names (key : Spelling) (field : Field) : Prop :=
  ∃ name ∈ layout.names field, key.decode = .ok name

/-- The key of a member that gives no field. -/
def Foreign (key : Spelling) : Prop :=
  ∃ name, key.decode = .ok name ∧ ∀ field, name ∉ layout.names field

/-- What may be written differently in a record. -/
structure Latitude (Field : Type) where
  /-- Two values of a field that say the same. -/
  Same : Field → Node → Node → Prop
  /-- A value of a field that says the same as none. -/
  Default : Field → Node → Prop

/-- A single rewrite of the members of an object. All but the first kind are made in front, since
the order of the members is free. -/
inductive MembersRewrite (latitude : Latitude Field) :
    List (Spelling × Node) → List (Spelling × Node) → Prop
  | permute {members members' : List (Spelling × Node)} (h : members.Perm members') :
    MembersRewrite latitude members members'
  | rename {key key' : Spelling} {field : Field} (hkey : layout.Names key field)
    (hkey' : layout.Names key' field) (node : Node) (rest : List (Spelling × Node)) :
    MembersRewrite latitude ((key, node) :: rest) ((key', node) :: rest)
  | insert {key : Spelling} (hkey : layout.Foreign key) {node : Node} (hnode : node.Complete)
    (rest : List (Spelling × Node)) : MembersRewrite latitude rest ((key, node) :: rest)
  | remove {key : Spelling} (hkey : layout.Foreign key) (node : Node)
    (rest : List (Spelling × Node)) : MembersRewrite latitude ((key, node) :: rest) rest
  | respell {key : Spelling} {field : Field} (hkey : layout.Names key field) {node node' : Node}
    (hnode : latitude.Same field node node') (rest : List (Spelling × Node)) :
    MembersRewrite latitude ((key, node) :: rest) ((key, node') :: rest)
  | addDefault {key : Spelling} {field : Field} (hkey : layout.Names key field) {node : Node}
    (hnode : latitude.Default field node) {rest : List (Spelling × Node)}
    (habsent : ∀ member ∈ rest, ¬ layout.Names member.1 field) :
    MembersRewrite latitude rest ((key, node) :: rest)
  | dropDefault {key : Spelling} {field : Field} (hkey : layout.Names key field) {node : Node}
    (hnode : latitude.Default field node) (rest : List (Spelling × Node)) :
    MembersRewrite latitude ((key, node) :: rest) rest

/-- A single rewrite of a record. In a list of values only the values themselves have latitude. -/
inductive Rewrite (latitude : Latitude Field) : Node → Node → Prop
  | members {members members' : List (Spelling × Node)}
    (h : layout.MembersRewrite latitude members members') :
    Rewrite latitude (.object members .closed) (.object members' .closed)
  | item {before after : List Node} {node node' : Node} {field : Field}
    (hfield : layout.fields[before.length]? = some field) (h : latitude.Same field node node') :
    Rewrite latitude (.array (before ++ node :: after) .closed)
      (.array (before ++ node' :: after) .closed)

/-! ## Names -/

/-- A layout in which every name belongs to one field. -/
def Legible : Prop :=
  ∀ field, ∀ name ∈ layout.names field, layout.field? name = some field

variable {layout}

theorem field?_eq_none {name : String}
    (h : ∀ field, name ∉ layout.names field) : layout.field? name = none := by
  rw [field?, List.find?_eq_none]
  intro field _ hname
  apply h field
  rw [Bool.or_eq_true, beq_iff_eq, List.contains_iff_mem] at hname
  rcases hname with rfl | hname
  · exact List.mem_cons_self
  · exact List.mem_cons_of_mem _ hname

theorem mem_names_of_field? {name : String} {field : Field}
    (h : layout.field? name = some field) : name ∈ layout.names field := by
  have hname := List.find?_some h
  rw [Bool.or_eq_true, beq_iff_eq, List.contains_iff_mem] at hname
  rcases hname with rfl | hname
  · exact List.mem_cons_self
  · exact List.mem_cons_of_mem _ hname

theorem Foreign.fieldOf? {key : Spelling} (h : layout.Foreign key) :
    layout.fieldOf? key = none := by
  obtain ⟨name, hname, hforeign⟩ := h
  rw [fieldOf?_of_decode hname, field?_eq_none hforeign]

theorem names_iff (hlegible : layout.Legible) {key : Spelling} {field : Field} :
    layout.Names key field ↔ layout.fieldOf? key = some field := by
  constructor
  · rintro ⟨name, hname, hkey⟩
    rw [fieldOf?_of_decode hkey, hlegible field name hname]
  · intro h
    cases hkey : key.decode with
    | error stop =>
      rw [fieldOf?, hkey] at h
      cases h
    | ok name =>
      rw [fieldOf?_of_decode hkey] at h
      exact ⟨name, mem_names_of_field? h, hkey⟩

variable [DecidableEq Field]

/-! ## What rewritten members are read as -/

/-- When values that count as the same are read as values that agree. -/
structure Latitude.Sound (latitude : Latitude Field) (layout : Layout Field)
    (Agree : (field : Field) → Option (layout.Value field) → Option (layout.Value field) → Prop) :
    Prop where
  refl : ∀ field value, Agree field value value
  same : ∀ {field node node' value}, latitude.Same field node node' →
    layout.read field node = .ok value →
      ∃ value', layout.read field node' = .ok value' ∧ Agree field (some value) (some value')
  default : ∀ {field node}, latitude.Default field node →
    ∃ value, layout.read field node = .ok value ∧ Agree field (some value) none ∧
      Agree field none (some value)

omit [DecidableEq Field] in
/-- Without values that may be left out, drafts agree field by field. -/
theorem Latitude.Sound.of_rel {latitude : Latitude Field}
    {Alike : (field : Field) → layout.Value field → layout.Value field → Prop}
    (hrefl : ∀ field value, Alike field value value)
    (hsame : ∀ {field node node' value}, latitude.Same field node node' →
      layout.read field node = .ok value →
        ∃ value', layout.read field node' = .ok value' ∧ Alike field value value')
    (hdefault : ∀ field node, ¬ latitude.Default field node) :
    latitude.Sound layout fun field => Option.Rel (Alike field) where
  refl field value := by
    cases value with
    | none => exact .none
    | some value => exact .some (hrefl field value)
  same hnode hread := by
    obtain ⟨value', hread', halike⟩ := hsame hnode hread
    exact ⟨value', hread', .some halike⟩
  default hnode := absurd hnode (hdefault _ _)

omit [DecidableEq Field] in
/-- Drafts that differ in a single field agree if they agree there. -/
theorem agree_of_eq_elsewhere
    {Agree : (field : Field) → Option (layout.Value field) → Option (layout.Value field) → Prop}
    (hrefl : ∀ field value, Agree field value value) {draft draft' : Draft layout} {field : Field}
    (hfield : Agree field (draft field) (draft' field))
    (hsame : ∀ other, other ≠ field → draft' other = draft other) (other : Field) :
    Agree other (draft other) (draft' other) := by
  by_cases hother : other = field
  · subst hother
    exact hfield
  · rw [hsame other hother]
    exact hrefl other _

/-- A draft agrees with the draft in which one of its values is set to one that agrees. -/
theorem agree_set
    {Agree : (field : Field) → Option (layout.Value field) → Option (layout.Value field) → Prop}
    (hrefl : ∀ field value, Agree field value value) {draft : Draft layout} {field : Field}
    {value : Option (layout.Value field)} {value' : layout.Value field}
    (hvalue : draft field = value) (hagree : Agree field value (some value')) (other : Field) :
    Agree other (draft other) (draft.set field value' other) := by
  refine agree_of_eq_elsewhere hrefl ?_ (fun _ => Draft.set_of_ne draft value') other
  rw [hvalue, Draft.set_self]
  exact hagree

theorem Admits.of_rewrite {latitude : Latitude Field}
    {Agree : (field : Field) → Option (layout.Value field) → Option (layout.Value field) → Prop}
    (hlegible : layout.Legible) (hsound : latitude.Sound layout Agree)
    {members members' : List (Spelling × Node)}
    (h : layout.MembersRewrite latitude members members') {draft : Draft layout}
    (hadmits : layout.Admits members draft) :
    ∃ draft', layout.Admits members' draft' ∧
      ∀ field, Agree field (draft field) (draft' field) := by
  have hrefl (field : Field) : Agree field (draft field) (draft field) := hsound.refl field _
  cases h with
  | permute hperm => exact ⟨draft, hadmits.perm hperm, hrefl⟩
  | rename hkey hkey' node rest =>
    rw [names_iff hlegible] at hkey hkey'
    rw [admits_cons_of_fieldOf?_eq_some hkey] at hadmits
    exact ⟨draft, (admits_cons_of_fieldOf?_eq_some hkey').2 hadmits, hrefl⟩
  | @insert key hkey node hnode rest =>
    obtain ⟨name, hname, -⟩ := id hkey
    have hreadable : layout.Readable (key, node) := ⟨⟨name, hname⟩, fun _ => hnode.skipStop?⟩
    exact ⟨draft,
      (admits_cons_of_fieldOf?_eq_none hkey.fieldOf?).2 ⟨hreadable, hadmits⟩, hrefl⟩
  | remove hkey node rest =>
    rw [admits_cons_of_fieldOf?_eq_none hkey.fieldOf?] at hadmits
    exact ⟨draft, hadmits.2, hrefl⟩
  | @respell key field hkey node node' hnode rest =>
    rw [names_iff hlegible] at hkey
    rw [admits_cons_of_fieldOf?_eq_some hkey] at hadmits
    obtain ⟨⟨value, hread, hvalue⟩, hrest⟩ := hadmits
    obtain ⟨value', hread', hagree⟩ := hsound.same hnode hread
    exact ⟨draft.set field value', hrest.set hkey hread', agree_set hsound.refl hvalue hagree⟩
  | @addDefault key field hkey node hnode rest habsent =>
    obtain ⟨value, hread, -, hagree⟩ := hsound.default hnode
    have hnone : draft field = none := by
      have hgives := hadmits.gives field
      rw [nodesOf_eq_nil.2 fun member hmember hfield =>
        habsent member hmember ((names_iff hlegible).2 hfield)] at hgives
      generalize draft field = given at hgives
      cases hgives
      rfl
    rw [names_iff hlegible] at hkey
    have hrest := (admitsOthers_iff hnone).2 hadmits
    exact ⟨draft.set field value, hrest.set hkey hread, agree_set hsound.refl hnone hagree⟩
  | @dropDefault key field hkey node hnode rest =>
    obtain ⟨value, hread, hagree, -⟩ := hsound.default hnode
    rw [names_iff hlegible] at hkey
    rw [admits_cons_of_fieldOf?_eq_some hkey] at hadmits
    obtain ⟨⟨value', hread', hvalue⟩, hrest⟩ := hadmits
    obtain rfl : value' = value := Except.ok.inj (hread'.symm.trans hread)
    let cleared : Draft layout := fun other => if other = field then none else draft other
    have hcleared : cleared field = none := if_pos rfl
    have hother (other : Field) (hne : other ≠ field) : cleared other = draft other := if_neg hne
    refine ⟨cleared, (admitsOthers_iff hcleared).1 (hrest.congr hother), ?_⟩
    apply agree_of_eq_elsewhere hsound.refl _ hother
    rw [hvalue, hcleared]
    exact hagree

/-! ## What rewritten records are read as -/

/-- **Rewritten records are read as drafts that agree.** -/
theorem draft_of_rewrite {latitude : Latitude Field}
    {Agree : (field : Field) → Option (layout.Value field) → Option (layout.Value field) → Prop}
    (hnodup : layout.fields.Nodup) (hlegible : layout.Legible)
    (hsound : latitude.Sound layout Agree) {node node' : Node}
    (h : layout.Rewrite latitude node node') {draft : Draft layout}
    (hdraft : layout.draft node = .ok draft) :
    ∃ draft', layout.draft node' = .ok draft' ∧
      ∀ field, Agree field (draft field) (draft' field) := by
  cases h with
  | members h =>
    obtain ⟨draft', hadmits, hagree⟩ :=
      (draft_object_eq_ok.1 hdraft).of_rewrite hlegible hsound h
    exact ⟨draft', draft_object_eq_ok.2 hadmits, hagree⟩
  | @item before after node node' field hfield h =>
    obtain ⟨value, hread, hvalue, hset⟩ := takeItems_change hnodup hfield hdraft
    obtain ⟨value', hread', hagree⟩ := hsound.same h hread
    exact ⟨draft.set field value', hset hread', agree_set hsound.refl hvalue hagree⟩

/-- Without values that may be left out, a record that has them all is rewritten to one that has
them all. -/
theorem values_of_rewrite {latitude : Latitude Field} (hnodup : layout.fields.Nodup)
    (hlegible : layout.Legible)
    {Alike : (field : Field) → layout.Value field → layout.Value field → Prop}
    (hsound : latitude.Sound layout fun field => Option.Rel (Alike field)) {node node' : Node}
    (h : layout.Rewrite latitude node node') {value : (field : Field) → layout.Value field}
    (hdraft : layout.draft node = .ok fun field => some (value field)) :
    ∃ value' : (field : Field) → layout.Value field,
      layout.draft node' = .ok (fun field => some (value' field)) ∧
        ∀ field, Alike field (value field) (value' field) := by
  obtain ⟨draft', hdraft', hagree⟩ := draft_of_rewrite hnodup hlegible hsound h hdraft
  have hvalue (field : Field) : ∃ value', some value' = draft' field ∧
      Alike field (value field) value' := by
    have hfield := hagree field
    generalize draft' field = given' at hfield
    cases hfield with
    | some halike => exact ⟨_, rfl, halike⟩
  obtain ⟨value', hvalue'⟩ := Classical.axiomOfChoice hvalue
  refine ⟨value', ?_, fun field => (hvalue' field).2⟩
  rw [hdraft', funext fun field => (hvalue' field).1]

end Layout

end Keyring.Record
