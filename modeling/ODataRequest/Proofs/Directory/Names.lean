import Mathlib.Data.List.Nodup
import ODataRequest.Proofs.Directory.Settled

/-!
# ODataRequest.Proofs.Directory.Names

Aliases in a directory. Replacing an alias is settled, and under well-formed names it is done once
and for all: a namespace is never an alias, so a replaced name stays as it is, and the schema of a
namespace is the one that declares it.
-/

namespace ODataRequest

variable {s : Source}

/-! ### Well-formed names -/

namespace Source

theorem mem_aliasPairs {pair : Namespace × Namespace} :
    pair ∈ s.aliasPairs ↔
      ∃ schema ∈ s.schemas, schema.aliasSpace? = some pair.1 ∧ schema.space = pair.2 := by
  unfold aliasPairs
  rw [List.mem_filterMap]
  constructor
  · rintro ⟨schema, hmem, h⟩
    obtain ⟨short, hshort, rfl⟩ := Option.map_eq_some_iff.mp h
    exact ⟨schema, hmem, hshort, rfl⟩
  · rintro ⟨schema, hmem, hshort, hspace⟩
    exact ⟨schema, hmem, by rw [hshort, hspace]; rfl⟩

theorem mem_spaces {schema : Csdl.Schema} (h : schema ∈ s.schemas) : schema.space ∈ s.spaces :=
  List.mem_map.mpr ⟨schema, h, rfl⟩

/-- A namespace that has no alias stands for itself. -/
theorem realSpace_eq_self {space : Namespace} (h : space ∉ s.aliasSpaces) :
    s.realSpace space = space := by
  unfold realSpace lookupAlias?
  cases hl : s.aliasPairs.reverse.lookup space with
  | none => rfl
  | some real =>
    have hmem := InDirectory.mem_of_lookup hl
    rw [List.mem_reverse, mem_aliasPairs] at hmem
    obtain ⟨schema, hschema, hshort, -⟩ := hmem
    exact absurd (List.mem_filterMap.mpr ⟨schema, hschema, hshort⟩) h

/-- What an alias stands for is the namespace of a schema. -/
theorem realSpace_cases (s : Source) (space : Namespace) :
    s.realSpace space = space ∨ s.realSpace space ∈ s.spaces := by
  unfold realSpace lookupAlias?
  cases hl : s.aliasPairs.reverse.lookup space with
  | none => exact Or.inl rfl
  | some real =>
    have hmem := InDirectory.mem_of_lookup hl
    rw [List.mem_reverse, mem_aliasPairs] at hmem
    obtain ⟨schema, hschema, -, rfl⟩ := hmem
    exact Or.inr (mem_spaces hschema)

namespace WellNamed

theorem not_mem_aliasSpaces (h : s.WellNamed) {space : Namespace} (hs : space ∈ s.spaces) :
    space ∉ s.aliasSpaces := fun ha =>
  (List.disjoint_of_nodup_append h.distinct) hs ha

theorem realSpace_of_mem (h : s.WellNamed) {space : Namespace} (hs : space ∈ s.spaces) :
    s.realSpace space = space :=
  realSpace_eq_self (h.not_mem_aliasSpaces hs)

@[simp] theorem realSpace_realSpace (h : s.WellNamed) (space : Namespace) :
    s.realSpace (s.realSpace space) = s.realSpace space := by
  rcases s.realSpace_cases space with heq | hmem
  · rw [heq, heq]
  · exact h.realSpace_of_mem hmem

/-- The reserved namespace is no alias, so its names stay as they are either way. -/
theorem realName_eq_actualName (h : s.WellNamed) (name : QualifiedName) :
    s.realName name = s.actualName name := by
  unfold actualName
  split
  · next hedm =>
    have hspace : name.space ∉ s.aliasSpaces := by
      intro hmem
      have hnot := h.notEdm _ (List.mem_append_right _ hmem)
      rw [show name.space.isEdm = true from hedm] at hnot
      cases hnot
    rw [realName, realSpace_eq_self hspace]
  · rfl

/-- A name whose alias is replaced has no alias any more. -/
@[simp] theorem actualName_actualName (h : s.WellNamed) (name : QualifiedName) :
    s.actualName (s.actualName name) = s.actualName name := by
  simp only [← h.realName_eq_actualName, realName, h.realSpace_realSpace]

/-- The names of a schema's own elements have no alias. -/
theorem actualName_of_mem (h : s.WellNamed) {schema : Csdl.Schema} (hs : schema ∈ s.schemas)
    (id : Identifier) : s.actualName ⟨schema.space, id⟩ = ⟨schema.space, id⟩ := by
  rw [← h.realName_eq_actualName, realName, h.realSpace_of_mem (mem_spaces hs)]

/-- The schema of a namespace is the only one that declares it. -/
theorem schema?_eq_some (h : s.WellNamed) {schema : Csdl.Schema} (hs : schema ∈ s.schemas) :
    s.schema? schema.space = some schema := by
  have hnodup : s.spaces.Nodup := (List.nodup_append.mp h.distinct).1
  unfold schema?
  rw [h.realSpace_of_mem (mem_spaces hs)]
  cases hfind : s.schemas.reverse.find? (·.space == schema.space) with
  | none =>
    rw [List.find?_eq_none] at hfind
    exact absurd (hfind schema (List.mem_reverse.mpr hs)) (by simp)
  | some other =>
    have hspace : other.space = schema.space := by simpa using List.find?_some hfind
    have hmem := List.mem_reverse.mp (List.mem_of_find?_eq_some hfind)
    rw [List.inj_on_of_nodup_map hnodup hmem hs hspace]

end WellNamed

/-- A schema that is found is one of the source, under the real namespace. -/
theorem mem_of_schema? {space : Namespace} {schema : Csdl.Schema}
    (h : s.schema? space = some schema) :
    schema ∈ s.schemas ∧ schema.space = s.realSpace space := by
  unfold schema? at h
  exact ⟨List.mem_reverse.mp (List.mem_of_find?_eq_some h), by simpa using List.find?_some h⟩

/-- An element that is found stands in a schema under its real name. -/
theorem mem_of_find? {α : Type} {items : Csdl.Schema → List α} {nameOf : α → Identifier}
    {name : QualifiedName} {item : α} (h : s.find? items nameOf name = some item) :
    ∃ schema ∈ s.schemas, item ∈ items schema ∧
      s.realName name = ⟨schema.space, nameOf item⟩ := by
  obtain ⟨schema, hschema, hitem⟩ := Option.bind_eq_some_iff.mp h
  obtain ⟨hmem, hspace⟩ := mem_of_schema? hschema
  refine ⟨schema, hmem, List.mem_of_find?_eq_some hitem, ?_⟩
  have hname : nameOf item = name.name := by simpa using List.find?_some hitem
  simp [realName, hspace, hname]

/-- A type reference with its alias replaced. -/
def actualReference (s : Source) (t : TypeReference) : TypeReference :=
  { t with name := s.actualName t.name }

end Source

/-! ### Replacing aliases -/

namespace InDirectory

theorem askAliases_settles : Settles s askAliases (.ok s.aliasPairs) := by
  refine Settles.readDirectory fun d hd => ?_
  rw [hd.source]
  split
  · exact (askSource_settles .schemas).bind_ok (.pure _)
  · exact askSource_settles .aliases

theorem aliasTable_settles : Settles s aliasTable (.ok s.aliasPairs) := by
  intro d hd
  unfold aliasTable
  rw [runOn_bind, runOn_get]
  cases ha : d.aliases with
  | some pairs => simp [ha, hd.aliases pairs ha, hd]
  | none =>
    simp only [ha]
    have hrun := askAliases_settles d hd
    rw [runOn_bind]
    rcases hxd : askAliases.runOn d with ⟨r, d'⟩
    rw [hxd] at hrun
    obtain ⟨rfl, hd'⟩ := hrun
    exact ⟨rfl, { hd' with aliases := fun pairs hp => (Option.some.inj hp).symm }⟩

theorem resolveNamespace_settles (space : Namespace) :
    Settles s (resolveNamespace space) (.ok (s.realSpace space)) :=
  aliasTable_settles.bind_ok (.pure _)

theorem resolveAlias_settles (name : QualifiedName) :
    Settles s (resolveAlias name) (.ok (s.actualName name)) := by
  unfold resolveAlias Source.actualName
  split
  · exact .pure name
  · exact (resolveNamespace_settles name.space).bind_ok (.pure _)

theorem resolveReference_settles (t : TypeReference) :
    Settles s (resolveReference t) (.ok (s.actualReference t)) :=
  (resolveAlias_settles t.name).bind_ok (.pure _)

end InDirectory

end ODataRequest
