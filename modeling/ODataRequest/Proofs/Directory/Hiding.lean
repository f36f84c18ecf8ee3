import ODataRequest.Proofs.Directory.ActualNames
import ODataRequest.Proofs.Directory.Lineage

/-!
# ODataRequest.Proofs.Directory.Hiding

What a derived type keeps of its base type. The levels of a resolved type that derives from another one
are its own ones *below* that type, and then the levels of that type (`levels_of_derivesFrom`), since
both are made from the same chain of base types. A name is looked up in one level after the other, so a
derived type finds the property that its base type finds unless a level below declares one of that name
(`HidesNothing`).
-/

namespace ODataRequest

open InDirectory

variable {s : Source}

/-! ### Names of properties -/

/-- The names of the properties that a level declares, structural ones and navigations. -/
def TypeLevel.declaredNames (level : TypeLevel) : List String :=
  level.properties.map (·.name.text) ++ level.navigationProperties.map (·.name.text)

namespace StructuredType

/-- Does the type declare or inherit a property of the name, a structural one or a navigation? -/
def finds (t : StructuredType) (name : String) : Bool :=
  (t.property? name).isSome || (t.navigationProperty? name).isSome

/-- The levels of a type below one of its base types. -/
def below (t : StructuredType) (name : QualifiedName) : List TypeLevel :=
  t.levels.takeWhile (·.name != name)

/-- No level of the derived type below its base type declares a property whose name is found on the base
type. -/
def HidesNothing (derived base : StructuredType) : Prop :=
  ∀ level ∈ derived.below base.name, ∀ name ∈ level.declaredNames, base.finds name = false

instance (derived base : StructuredType) : Decidable (derived.HidesNothing base) :=
  inferInstanceAs (Decidable (∀ level ∈ derived.below base.name, ∀ name ∈ level.declaredNames,
    base.finds name = false))

variable {derived base : StructuredType}

theorem find?_eq_none_of_declaredNames {level : TypeLevel} {name : String}
    (h : name ∉ level.declaredNames) :
    level.properties.find? (·.name.text == name) = none ∧
      level.navigationProperties.find? (·.name.text == name) = none := by
  rw [TypeLevel.declaredNames, List.mem_append, not_or, List.mem_map, List.mem_map] at h
  simp only [List.find?_eq_none, beq_iff_eq]
  exact ⟨fun p hp heq => h.1 ⟨p, hp, heq⟩, fun p hp heq => h.2 ⟨p, hp, heq⟩⟩

/-- What is found on the base type is what is found on the derived type. -/
theorem HidesNothing.lookup (h : derived.HidesNothing base)
    (hlevels : derived.levels = derived.below base.name ++ base.levels) {name : String}
    (found : base.finds name = true) : derived.property? name = base.property? name ∧
      derived.navigationProperty? name = base.navigationProperty? name := by
  have hbelow : ∀ level ∈ derived.below base.name, name ∉ level.declaredNames := by
    intro level hlevel hname
    rw [h level hlevel name hname] at found
    cases found
  unfold property? navigationProperty?
  rw [hlevels, List.findSome?_append, List.findSome?_append,
    List.findSome?_eq_none_iff.mpr fun level hlevel =>
      (find?_eq_none_of_declaredNames (hbelow level hlevel)).1,
    List.findSome?_eq_none_iff.mpr fun level hlevel =>
      (find?_eq_none_of_declaredNames (hbelow level hlevel)).2]
  exact ⟨rfl, rfl⟩

end StructuredType

/-! ### Levels of derived types -/

/-- Two types that are made from chains of base types, one of which derives from the other: the levels
of the one continue in the levels of the other. -/
theorem BaseChain.levels_eq {δ : Type} {declared? : QualifiedName → Option δ}
    {baseType : δ → Option QualifiedName} {level : QualifiedName × δ → TypeLevel}
    (hname : ∀ l, (level l).name = l.1) {derived base : StructuredType}
    {chain chain' : List (QualifiedName × δ)} {name name' : QualifiedName}
    (h : BaseChain s declared? baseType name chain none) (hlevels : derived.levels = chain.map level)
    (h' : BaseChain s declared? baseType name' chain' none) (hlevels' : base.levels = chain'.map level)
    (derives : derived.derivesFrom base.name = true) :
    derived.levels = derived.below base.name ++ base.levels := by
  have hstart : base.name = name' := by
    obtain ⟨own, above, rfl, -⟩ := h'.head
    obtain ⟨hown, -⟩ := List.cons.inj hlevels'
    exact (congrArg TypeLevel.name hown).trans (hname _)
  have hmem : ∃ l ∈ chain, l.1 = base.name := by
    rw [StructuredType.derivesFrom, hlevels, List.any_map, List.any_eq_true] at derives
    obtain ⟨l, hl, heq⟩ := derives
    exact ⟨l, hl, by simpa [hname] using heq⟩
  obtain ⟨l, hl, hbase⟩ := hmem
  obtain ⟨front, above, rfl⟩ := List.append_of_mem hl
  -- a chain is the only one from its first name on
  have hrest : l :: above = chain' := by
    have hsuffix := h.suffix
    rw [hbase, hstart] at hsuffix
    exact (hsuffix.unique ends_none h' ends_none).1
  have hfront : ∀ level' ∈ front.map level, (level'.name != base.name) = true := by
    have hnodup := h.nodup ends_none
    rw [chainNames, List.map_append, List.map_cons] at hnodup
    intro level' hlevel'
    obtain ⟨l', hl', rfl⟩ := List.mem_map.mp hlevel'
    rw [hname, bne_iff_ne, ← hbase]
    exact (List.nodup_append.mp hnodup).2.2 _ (List.mem_map_of_mem hl') _ List.mem_cons_self
  have hwhole : derived.levels = front.map level ++ base.levels := by
    rw [hlevels, hlevels', ← hrest, List.map_append]
  have hbelow : derived.below base.name = front.map level := by
    have hstop : base.levels.takeWhile (·.name != base.name) = [] := by
      simp [StructuredType.levels, StructuredType.name]
    rw [StructuredType.below, hwhole, List.takeWhile_append_of_pos hfront, hstop, List.append_nil]
  rw [hbelow, hwhole]

/-- The directory resolves a name to the type, if it is a structured one. -/
def ModelType.Resolved (s : Source) : ModelType → Prop
  | .entity t => ∃ name, (entityType name).result s = .ok (some t)
  | .complex t => ∃ name, (complexType name).result s = .ok (some t)
  | _ => True

theorem ModelType.resolved_of_answer {name : QualifiedName} {type : ModelType}
    (h : s.answers (.type name) (some type)) : type.Resolved s := by
  have hresolved : (resolveType name).result s = .ok (some type) := h
  rw [(resolveType_settles name).result_eq] at hresolved
  have hfound := eq_of_resolvedType hresolved
  cases type with
  | entity t => exact ⟨_, hfound⟩
  | complex t => exact ⟨_, hfound⟩
  | _ => trivial

/-- A resolved type that derives from another one of its sort has the levels of that type above its
own. -/
theorem ModelType.levels_of_derivesFrom {type current : ModelType} (h : type.Resolved s)
    (h' : current.Resolved s) (hsort : type.isEntity = current.isEntity)
    (derives : ODataRequest.derivesFrom type current = true) {derived base : StructuredType}
    (hderived : type.structured? = some derived) (hbase : current.structured? = some base) :
    derived.levels = derived.below base.name ++ base.levels := by
  have derives : derived.derivesFrom base.name = true := by
    rwa [ODataRequest.derivesFrom, hderived, hbase] at derives
  cases type <;> cases current <;> cases hsort <;> cases hderived <;> cases hbase
  case entity.entity =>
    obtain ⟨name, h⟩ := h
    obtain ⟨name', h'⟩ := h'
    obtain ⟨chain, bases, hlevels⟩ := exists_entityChain h
    obtain ⟨chain', bases', hlevels'⟩ := exists_entityChain h'
    exact bases.levels_eq (fun _ => rfl) hlevels bases' hlevels' derives
  case complex.complex =>
    obtain ⟨name, h⟩ := h
    obtain ⟨name', h'⟩ := h'
    obtain ⟨chain, bases, hlevels⟩ := exists_complexChain h
    obtain ⟨chain', bases', hlevels'⟩ := exists_complexChain h'
    exact bases.levels_eq (fun _ => rfl) hlevels bases' hlevels' derives

/-- Whoever derives from a media entity is one. -/
theorem EntityType.hasStream_of_levels {t base : EntityType} {below : List TypeLevel}
    (hlevels : t.levels = below ++ base.levels) (h : base.hasStream = true) : t.hasStream = true := by
  rw [hasStream, List.any_eq_true] at h ⊢
  obtain ⟨level, hlevel, hstream⟩ := h
  exact ⟨level, by rw [hlevels]; exact List.mem_append_right _ hlevel, hstream⟩

end ODataRequest
