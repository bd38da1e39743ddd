import Keyring.Error
import Keyring.Record.Layout

/-!
# What members are read as

The reader takes the members of an object one by one. Main statement: what it reads does not depend
on their order. It gets to the end exactly when it gets past every member and no field is given
twice, and every field then has the value of the only member that names it.
-/

namespace Keyring.Record

open Json

namespace Layout

variable {Field : Type} {layout : Layout Field}

/-! ## Single members -/

variable (layout) in
/-- The field that a key names. -/
def fieldOf? (key : Spelling) : Option Field :=
  match key.decode with
  | .ok name => layout.field? name
  | .error _ => none

theorem fieldOf?_of_decode {key : Spelling} {name : String} (h : key.decode = .ok name) :
    layout.fieldOf? key = layout.field? name := by
  rw [fieldOf?, h]

/-- A member that a reader gets past: its key is readable, and its value complete if it is passed
over. -/
def Readable (layout : Layout Field) (member : Spelling × Node) : Prop :=
  (∃ name, member.1.decode = .ok name) ∧
    (layout.fieldOf? member.1 = none → member.2.skipStop? = none)

theorem readable_of_fieldOf? {key : Spelling} {field : Field}
    (h : layout.fieldOf? key = some field) (node : Node) : layout.Readable (key, node) := by
  refine ⟨?_, fun hnone => ?_⟩
  · cases hkey : key.decode with
    | ok name => exact ⟨name, rfl⟩
    | error stop =>
      rw [fieldOf?, hkey] at h
      cases h
  · rw [h] at hnone
    cases hnone

/-- What the values that members give a field are read as: at most one of them. -/
inductive Gives (layout : Layout Field) (field : Field) :
    List Node → Option (layout.Value field) → Prop
  | nothing : Gives layout field [] none
  | value {node : Node} {value : layout.Value field} (h : layout.read field node = .ok value) :
    Gives layout field [node] (some value)

theorem Gives.perm {field : Field} {nodes nodes' : List Node} {value : Option (layout.Value field)}
    (h : layout.Gives field nodes value) (hperm : nodes.Perm nodes') :
    layout.Gives field nodes' value := by
  cases h with
  | nothing =>
    rw [List.nil_perm] at hperm
    subst hperm
    exact .nothing
  | value hread =>
    rw [List.singleton_perm] at hperm
    subst hperm
    exact .value hread

/-- Behind a draft, members only give the fields that have no value yet. -/
def GivesBehind (layout : Layout Field) (field : Field) (given : Option (layout.Value field))
    (nodes : List Node) (final : Option (layout.Value field)) : Prop :=
  match given with
  | none => layout.Gives field nodes final
  | some value => nodes = [] ∧ final = some value

theorem givesBehind_nil {field : Field} {given final : Option (layout.Value field)} :
    layout.GivesBehind field given [] final ↔ final = given := by
  cases given with
  | some value => exact and_iff_right rfl
  | none =>
    constructor
    · intro h
      cases h
      rfl
    · rintro rfl
      exact .nothing

theorem givesBehind_cons {field : Field} {given final : Option (layout.Value field)} {node : Node}
    {nodes : List Node} :
    layout.GivesBehind field given (node :: nodes) final ↔
      given = none ∧ ∃ value, layout.read field node = .ok value ∧
        layout.GivesBehind field (some value) nodes final := by
  cases given with
  | some value =>
    constructor
    · rintro ⟨⟨⟩, -⟩
    · rintro ⟨⟨⟩, -⟩
  | none =>
    constructor
    · intro h
      cases h with
      | value h => exact ⟨rfl, _, h, rfl, rfl⟩
    · rintro ⟨-, value, h, rfl, rfl⟩
      exact .value h

/-! ## Lists of members -/

variable [DecidableEq Field]

variable (layout) in
/-- The values that members give a field, in their order. -/
def nodesOf (field : Field) (members : List (Spelling × Node)) : List Node :=
  (members.filter fun member => layout.fieldOf? member.1 = some field).map Prod.snd

theorem nodesOf_cons_self {key : Spelling} {field : Field}
    (h : layout.fieldOf? key = some field) (node : Node) (rest : List (Spelling × Node)) :
    layout.nodesOf field ((key, node) :: rest) = node :: layout.nodesOf field rest := by
  rw [nodesOf, List.filter_cons_of_pos (by simpa using h), List.map_cons, nodesOf]

theorem nodesOf_cons_of_ne {key : Spelling} {field : Field}
    (h : layout.fieldOf? key ≠ some field) (node : Node) (rest : List (Spelling × Node)) :
    layout.nodesOf field ((key, node) :: rest) = layout.nodesOf field rest := by
  rw [nodesOf, List.filter_cons_of_neg (by simpa using h), nodesOf]

theorem nodesOf_eq_nil {field : Field} {members : List (Spelling × Node)} :
    layout.nodesOf field members = [] ↔
      ∀ member ∈ members, layout.fieldOf? member.1 ≠ some field := by
  simp only [nodesOf, List.map_eq_nil_iff, List.filter_eq_nil_iff, decide_eq_true_eq, ne_eq]

theorem nodesOf_append (field : Field) (members members' : List (Spelling × Node)) :
    layout.nodesOf field (members ++ members') =
      layout.nodesOf field members ++ layout.nodesOf field members' := by
  rw [nodesOf, List.filter_append, List.map_append, nodesOf, nodesOf]

theorem nodesOf_perm {members members' : List (Spelling × Node)} (h : members.Perm members')
    (field : Field) : (layout.nodesOf field members).Perm (layout.nodesOf field members') :=
  (h.filter _).map _

theorem takeMembers_cons_of_fieldOf?_eq_none {key : Spelling} (hkey : layout.fieldOf? key = none)
    {node : Node} {rest : List (Spelling × Node)} {draft final : Draft layout} :
    layout.takeMembers draft ((key, node) :: rest) = .ok final ↔
      layout.Readable (key, node) ∧ layout.takeMembers draft rest = .ok final := by
  cases hname : key.decode with
  | error stop =>
    have htake : layout.takeMembers draft ((key, node) :: rest) = .error (.stopped stop) := by
      rw [takeMembers, hname]
      rfl
    rw [htake]
    constructor
    · intro h
      cases h
    · rintro ⟨⟨⟨name, hdecode⟩, -⟩, -⟩
      rw [hname] at hdecode
      cases hdecode
  | ok name =>
    have hfield : layout.field? name = none := by rw [← fieldOf?_of_decode hname, hkey]
    have hreadable : layout.Readable (key, node) ↔ node.skipStop? = none := by
      simp only [Readable, hkey, hname, forall_const, and_iff_right_iff_imp]
      exact fun _ => ⟨name, rfl⟩
    rw [hreadable]
    simp only [takeMembers, hname, ofStop, bind, Except.bind, hfield]
    cases hstop : node.skipStop? with
    | none => exact (and_iff_right rfl).symm
    | some stop =>
      constructor
      · intro h
        cases h
      · rintro ⟨⟨⟩, -⟩

theorem takeMembers_cons_of_fieldOf?_eq_some {key : Spelling} {field : Field}
    (hkey : layout.fieldOf? key = some field) {node : Node} {rest : List (Spelling × Node)}
    {draft final : Draft layout} :
    layout.takeMembers draft ((key, node) :: rest) = .ok final ↔
      draft field = none ∧ ∃ value, layout.read field node = .ok value ∧
        layout.takeMembers (draft.set field value) rest = .ok final := by
  cases hname : key.decode with
  | error stop =>
    rw [fieldOf?, hname] at hkey
    cases hkey
  | ok name =>
    have hfield : layout.field? name = some field := by rw [← fieldOf?_of_decode hname, hkey]
    simp only [takeMembers, hname, ofStop, bind, Except.bind, hfield]
    cases hdraft : draft field with
    | some value =>
      constructor
      · intro h
        cases h
      · rintro ⟨⟨⟩, -⟩
    | none =>
      cases layout.read field node with
      | error fault =>
        constructor
        · intro h
          cases h
        · rintro ⟨-, value, ⟨⟩, -⟩
      | ok value =>
        constructor
        · intro h
          exact ⟨rfl, value, rfl, h⟩
        · rintro ⟨-, _, ⟨⟩, h⟩
          exact h

/-- A member that gives a field is the first of it, and the members behind it give the others. -/
theorem forall_givesBehind_cons {key : Spelling} {taken : Field}
    (hkey : layout.fieldOf? key = some taken) {node : Node} {rest : List (Spelling × Node)}
    {draft final : Draft layout} :
    (∀ field, layout.GivesBehind field (draft field) (layout.nodesOf field ((key, node) :: rest))
        (final field)) ↔
      draft taken = none ∧ ∃ value, layout.read taken node = .ok value ∧
        ∀ field, layout.GivesBehind field (draft.set taken value field) (layout.nodesOf field rest)
          (final field) := by
  have hself : layout.nodesOf taken ((key, node) :: rest) = node :: layout.nodesOf taken rest :=
    nodesOf_cons_self hkey node rest
  have hother {field : Field} (hne : field ≠ taken) :
      layout.nodesOf field ((key, node) :: rest) = layout.nodesOf field rest :=
    nodesOf_cons_of_ne (by rw [hkey]; exact fun h => hne (Option.some.inj h).symm) node rest
  constructor
  · intro hgives
    have htaken := hgives taken
    rw [hself, givesBehind_cons] at htaken
    obtain ⟨hfree, value, hread, hnext⟩ := htaken
    refine ⟨hfree, value, hread, fun field => ?_⟩
    by_cases hne : field = taken
    · subst hne
      rwa [Draft.set_self]
    · have hfield := hgives field
      rw [hother hne] at hfield
      rwa [Draft.set_of_ne draft value hne]
  · rintro ⟨hfree, value, hread, hgives⟩ field
    have hfield := hgives field
    by_cases hne : field = taken
    · subst hne
      rw [Draft.set_self] at hfield
      rw [hself]
      exact givesBehind_cons.2 ⟨hfree, value, hread, hfield⟩
    · rw [Draft.set_of_ne draft value hne] at hfield
      rwa [hother hne]

/-- **What members are read as.** A list of members is read exactly when a reader gets past all of
them and no field is given twice. -/
theorem takeMembers_eq_ok {draft final : Draft layout} {members : List (Spelling × Node)} :
    layout.takeMembers draft members = .ok final ↔
      (∀ member ∈ members, layout.Readable member) ∧
        ∀ field, layout.GivesBehind field (draft field) (layout.nodesOf field members)
          (final field) := by
  induction members generalizing draft with
  | nil =>
    have hnil (field : Field) : layout.nodesOf field [] = [] := rfl
    simp only [hnil, givesBehind_nil]
    constructor
    · intro h
      cases h
      exact ⟨List.forall_mem_nil _, fun _ => rfl⟩
    · rintro ⟨-, h⟩
      exact congrArg Except.ok (funext h).symm
  | cons member rest ih =>
    obtain ⟨key, node⟩ := member
    rw [List.forall_mem_cons, and_assoc]
    cases hkey : layout.fieldOf? key with
    | none =>
      have hother (field : Field) :
          layout.nodesOf field ((key, node) :: rest) = layout.nodesOf field rest :=
        nodesOf_cons_of_ne (by rw [hkey]; nofun) node rest
      simp only [takeMembers_cons_of_fieldOf?_eq_none hkey, hother, ih]
    | some taken =>
      rw [takeMembers_cons_of_fieldOf?_eq_some hkey, forall_givesBehind_cons hkey]
      simp only [ih]
      constructor
      · rintro ⟨hfree, value, hread, hrest, hgives⟩
        exact ⟨readable_of_fieldOf? hkey node, hrest, hfree, value, hread, hgives⟩
      · rintro ⟨-, hrest, hfree, value, hread, hgives⟩
        exact ⟨hfree, value, hread, hrest, hgives⟩

/-- What an object is read as, with no mention of the order of its members. -/
structure Admits (layout : Layout Field) (members : List (Spelling × Node)) (draft : Draft layout) :
    Prop where
  readable : ∀ member ∈ members, layout.Readable member
  gives : ∀ field, layout.Gives field (layout.nodesOf field members) (draft field)

theorem draft_object_eq_ok {members : List (Spelling × Node)} {draft : Draft layout} :
    layout.draft (.object members .closed) = .ok draft ↔ layout.Admits members draft := by
  have htake : layout.draft (.object members .closed) = .ok draft ↔
      layout.takeMembers Draft.empty members = .ok draft := by
    rw [Layout.draft]
    cases layout.takeMembers Draft.empty members with
    | ok taken => exact Iff.rfl
    | error fault => exact Iff.rfl
  rw [htake, takeMembers_eq_ok]
  constructor
  · rintro ⟨hreadable, hgives⟩
    exact ⟨hreadable, hgives⟩
  · rintro ⟨hreadable, hgives⟩
    exact ⟨hreadable, hgives⟩

theorem admits_cons_of_fieldOf?_eq_none {key : Spelling} (hkey : layout.fieldOf? key = none)
    {node : Node} {rest : List (Spelling × Node)} {draft : Draft layout} :
    layout.Admits ((key, node) :: rest) draft ↔
      layout.Readable (key, node) ∧ layout.Admits rest draft := by
  have hnodes (field : Field) :
      layout.nodesOf field ((key, node) :: rest) = layout.nodesOf field rest :=
    nodesOf_cons_of_ne (by rw [hkey]; nofun) node rest
  constructor
  · rintro ⟨hreadable, hgives⟩
    simp only [hnodes] at hgives
    rw [List.forall_mem_cons] at hreadable
    exact ⟨hreadable.1, hreadable.2, hgives⟩
  · rintro ⟨hfirst, hreadable, hgives⟩
    refine ⟨List.forall_mem_cons.2 ⟨hfirst, hreadable⟩, ?_⟩
    simpa only [hnodes] using hgives

theorem Admits.perm {members members' : List (Spelling × Node)} {draft : Draft layout}
    (h : layout.Admits members draft) (hperm : members.Perm members') :
    layout.Admits members' draft where
  readable member hmember := h.readable member (hperm.mem_iff.2 hmember)
  gives field := (h.gives field).perm (nodesOf_perm hperm field)

/-- What members are read as when none of them gives a certain field. -/
structure AdmitsOthers (layout : Layout Field) (field : Field) (members : List (Spelling × Node))
    (draft : Draft layout) : Prop where
  readable : ∀ member ∈ members, layout.Readable member
  absent : layout.nodesOf field members = []
  gives : ∀ other, other ≠ field → layout.Gives other (layout.nodesOf other members) (draft other)

theorem AdmitsOthers.congr {field : Field} {members : List (Spelling × Node)}
    {draft draft' : Draft layout} (h : layout.AdmitsOthers field members draft)
    (hsame : ∀ other, other ≠ field → draft' other = draft other) :
    layout.AdmitsOthers field members draft' where
  readable := h.readable
  absent := h.absent
  gives other hne := by
    rw [hsame other hne]
    exact h.gives other hne

theorem admitsOthers_iff {field : Field} {members : List (Spelling × Node)} {draft : Draft layout}
    (hnone : draft field = none) :
    layout.AdmitsOthers field members draft ↔ layout.Admits members draft := by
  constructor
  · intro h
    refine ⟨h.readable, fun other => ?_⟩
    by_cases hother : other = field
    · subst hother
      rw [h.absent, hnone]
      exact .nothing
    · exact h.gives other hother
  · intro h
    refine ⟨h.readable, ?_, fun other _ => h.gives other⟩
    have hgives := h.gives field
    rw [hnone] at hgives
    generalize layout.nodesOf field members = nodes at hgives
    cases hgives
    rfl

/-- The only member of a field gives its value, and the members behind it those of the others. -/
theorem admits_cons_of_fieldOf?_eq_some {key : Spelling} {field : Field}
    (hkey : layout.fieldOf? key = some field) {node : Node} {rest : List (Spelling × Node)}
    {draft : Draft layout} :
    layout.Admits ((key, node) :: rest) draft ↔
      (∃ value, layout.read field node = .ok value ∧ draft field = some value) ∧
        layout.AdmitsOthers field rest draft := by
  have hself : layout.nodesOf field ((key, node) :: rest) = node :: layout.nodesOf field rest :=
    nodesOf_cons_self hkey node rest
  have hother {other : Field} (hne : other ≠ field) :
      layout.nodesOf other ((key, node) :: rest) = layout.nodesOf other rest :=
    nodesOf_cons_of_ne (by rw [hkey]; exact fun h => hne (Option.some.inj h).symm) node rest
  constructor
  · rintro ⟨hreadable, hgives⟩
    have hfield : layout.GivesBehind field none (node :: layout.nodesOf field rest)
        (draft field) := hself ▸ hgives field
    obtain ⟨-, value, hread, habsent, hvalue⟩ := givesBehind_cons.1 hfield
    refine ⟨⟨value, hread, hvalue⟩, (List.forall_mem_cons.1 hreadable).2, habsent, ?_⟩
    intro other hne
    rw [← hother hne]
    exact hgives other
  · rintro ⟨⟨value, hread, hvalue⟩, hreadable, habsent, hgives⟩
    refine ⟨List.forall_mem_cons.2 ⟨readable_of_fieldOf? hkey node, hreadable⟩, fun other => ?_⟩
    by_cases hne : other = field
    · subst hne
      rw [hself, habsent, hvalue]
      exact .value hread
    · rw [hother hne]
      exact hgives other hne

/-- The value of a field may be set by a member in front of those that do not give it. -/
theorem AdmitsOthers.set {key : Spelling} {field : Field} {rest : List (Spelling × Node)}
    {draft : Draft layout} (h : layout.AdmitsOthers field rest draft)
    (hkey : layout.fieldOf? key = some field) {node : Node} {value : layout.Value field}
    (hread : layout.read field node = .ok value) :
    layout.Admits ((key, node) :: rest) (draft.set field value) :=
  (admits_cons_of_fieldOf?_eq_some hkey).2
    ⟨⟨value, hread, Draft.set_self ..⟩, h.congr fun _ => Draft.set_of_ne draft value⟩

end Layout

end Keyring.Record
