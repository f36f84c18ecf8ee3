import ODataRequest.Proofs.Directory.BaseTypes

/-!
# ODataRequest.Proofs.Directory.Lineage

The types that a bound operation is looked for with: a type and its base types, the nearest first.
A type has a lineage if it resolves; what is no structured type stands alone (`Lineage`). The base
type that a directory names is the next type of the lineage (`Lineage.step`), as long as no name is
the name of an entity type and of a complex type at once: a directory looks for entity types first,
also for the base types of a complex type.
-/

namespace ODataRequest

open InDirectory

variable {s : Source}

/-- No schema has an entity type and a complex type of one name. -/
def Source.TypesApart (s : Source) : Prop :=
  ∀ schema ∈ s.schemas, ∀ entity ∈ schema.entityTypes, ∀ complex ∈ schema.complexTypes,
    entity.name ≠ complex.name

instance (s : Source) : Decidable s.TypesApart :=
  inferInstanceAs (Decidable (∀ schema ∈ s.schemas, ∀ entity ∈ schema.entityTypes,
    ∀ complex ∈ schema.complexTypes, entity.name ≠ complex.name))

/-- The declared types that are visited when the base types of an entity type are followed. -/
abbrev EntityChain (s : Source) :=
  BaseChain s (fun name => s.answer (.entityType name)) (·.baseType)

/-- The declared types that are visited when the base types of a complex type are followed. -/
abbrev ComplexChain (s : Source) :=
  BaseChain s (fun name => s.answer (.complexType name)) (·.baseType)

/-- The type of a name and its base types, the nearest first, if all of them resolve. -/
inductive Lineage (s : Source) (name : QualifiedName) : List QualifiedName → Prop
  | entity {chain : List (QualifiedName × Csdl.EntityType)}
      (bases : EntityChain s (s.actualName name) chain none) (keys : KeysResolve s chain) :
      Lineage s name (chainNames chain)
  | complex {chain : List (QualifiedName × Csdl.StructuredType)}
      (bases : ComplexChain s (s.actualName name) chain none) : Lineage s name (chainNames chain)
  | other (noEntity : s.answer (.entityType (s.actualName name)) = none)
      (noComplex : s.answer (.complexType (s.actualName name)) = none) :
      Lineage s name [s.actualName name]

/-! ### Chains with an end -/

section Chains

variable {δ : Type} {declared? : QualifiedName → Option δ} {baseType : δ → Option QualifiedName}
variable {name : QualifiedName} {chain : List (QualifiedName × δ)} {next : Option QualifiedName}

theorem BaseChain.real (names : s.WellNamed) (real : s.actualName name = name)
    (h : BaseChain s declared? baseType name chain next) :
    ∀ level ∈ chain, s.actualName level.1 = level.1 := by
  induction h with
  | stop => simp
  | root => simpa using real
  | up _ _ _ ih => exact List.forall_mem_cons.mpr ⟨real, ih (names.actualName_actualName _)⟩

theorem BaseChain.declared (h : BaseChain s declared? baseType name chain next) :
    ∀ level ∈ chain, declared? level.1 = some level.2 := by
  induction h with
  | stop => simp
  | root found => simpa using found
  | up found _ _ ih => exact List.forall_mem_cons.mpr ⟨found, ih⟩

/-- A chain starts with its name, and the rest is the chain of the next name. -/
theorem BaseChain.head (h : BaseChain s declared? baseType name chain none) :
    ∃ type above, chain = (name, type) :: above ∧ ∀ level rest, above = level :: rest →
      BaseChain s declared? baseType level.1 above none := by
  cases h with
  | @root _ type _ _ => exact ⟨type, [], rfl, fun level rest h => by cases h⟩
  | @up _ _ type above _ found hasBase hbase =>
    refine ⟨type, above, rfl, ?_⟩
    rintro level rest rfl
    have hwhole : BaseChain s declared? baseType _ ([] ++ level :: rest) none := hbase
    exact hwhole.suffix

/-- A chain with an end is shorter than the bound. -/
theorem BaseChain.length_lt {α : Type} {family : TypeFamily δ α} (lawful : family.Lawful s)
    (declares : ∀ name, (family.declared name).result s = .ok (declared? name))
    (h : BaseChain s declared? baseType name chain none) : chain.length < s.chainBound := by
  obtain ⟨all, hlength, hall⟩ := lawful.finite
  have hsub : chainNames chain ⊆ all := by
    intro n hn
    obtain ⟨level, hlevel, rfl⟩ := List.mem_map.mp hn
    refine hall _ level.2 ?_
    rw [declares, h.declared level hlevel]
  have hnodup : (chainNames chain).Nodup := h.nodup BaseChain.ends_none
  have hle := (List.subperm_of_subset hnodup hsub).length_le
  rw [chainNames, List.length_map] at hle
  exact Nat.lt_of_le_of_lt hle hlength

end Chains

/-! ### Types of a lineage -/

theorem entityType_decides (s : Source) (name : QualifiedName) :
    BaseChain.Decides s (fun name => s.answer (.entityType name)) (·.baseType) .inEntityType
      (KeysResolve s) (IsEntityType s) (s.actualName name) ((entityType name).result s) :=
  (TypeFamily.resolve_decides (entityTypeFamily_lawful s)
    (fun name => (askSource_settles (.entityType name)).result_eq)
    entityTypeFamily_completes (.ofSource s) name).1

theorem complexType_decides (s : Source) (name : QualifiedName) :
    BaseChain.Decides s (fun name => s.answer (.complexType name)) (·.baseType) .inComplexType
      (fun _ => True) (IsComplexType s) (s.actualName name) ((complexType name).result s) :=
  (TypeFamily.resolve_decides (complexTypeFamily_lawful s)
    (fun name => (askSource_settles (.complexType name)).result_eq)
    complexTypeFamily_completes (.ofSource s) name).1

/-- The levels of an entity type are those of a chain of declared types. -/
theorem exists_entityChain {name : QualifiedName} {t : EntityType}
    (h : (entityType name).result s = .ok (some t)) :
    ∃ chain, EntityChain s (s.actualName name) chain none ∧ t.levels = chain.map s.entityLevel := by
  have decides := entityType_decides s name
  rw [h] at decides
  rcases decides.cases with ⟨chain, _, bases, -, his, ⟨⟩⟩ | ⟨-, ⟨⟩⟩ | ⟨e, ⟨⟩⟩
  exact ⟨chain, bases, his.eachLevel⟩

/-- The levels of a complex type are those of a chain of declared types. -/
theorem exists_complexChain {name : QualifiedName} {t : StructuredType}
    (h : (complexType name).result s = .ok (some t)) :
    ∃ chain, ComplexChain s (s.actualName name) chain none ∧ t.levels = chain.map s.complexLevel := by
  have decides := complexType_decides s name
  rw [h] at decides
  rcases decides.cases with ⟨chain, _, bases, -, his, ⟨⟩⟩ | ⟨-, ⟨⟩⟩ | ⟨e, ⟨⟩⟩
  exact ⟨chain, bases, his⟩

/-- A base type is looked for among the entity types, and then among the complex types. -/
theorem baseTypeName_result (name : QualifiedName) : (baseTypeName name).result s = (do
    match ← (entityType name).result s with
    | some t => .ok t.baseName?
    | none => do
      let complex ← (complexType name).result s
      .ok (complex.bind StructuredType.baseName?)) := by
  refine Settles.result_eq (Settles.bind (entityType_settled name) fun entity _ => ?_)
  cases entity with
  | some t => exact .pure _
  | none => exact Settles.bind (complexType_settled name) fun _ _ => .pure _

/-- If the base types of a name cannot be followed to their end, no base type can be named. -/
theorem lineage_or_error (name : QualifiedName) :
    (∃ lineage, Lineage s name lineage) ∨ ∃ e, (baseTypeName name).result s = .error e := by
  rw [baseTypeName_result]
  rcases (entityType_decides s name).cases with
    ⟨chain, t, bases, keys, -, hentity⟩ | ⟨noEntity, hentity⟩ | ⟨e, hentity⟩
  · exact Or.inl ⟨_, .entity bases keys⟩
  · rcases (complexType_decides s name).cases with
      ⟨chain, t, bases, -, -, hcomplex⟩ | ⟨noComplex, hcomplex⟩ | ⟨e, hcomplex⟩
    · exact Or.inl ⟨_, .complex bases⟩
    · exact Or.inl ⟨_, .other noEntity noComplex⟩
    · exact Or.inr ⟨e, by simp [hentity, hcomplex]⟩
  · exact Or.inr ⟨e, by simp [hentity]⟩

/-- The name of a complex type is not the name of an entity type. -/
theorem Source.TypesApart.noEntity (apart : s.TypesApart) (names : s.WellNamed)
    {name : QualifiedName} {complex : Csdl.StructuredType}
    (found : s.answer (.complexType name) = some complex) :
    s.answer (.entityType name) = none := by
  cases hentity : s.answer (.entityType name) with
  | none => rfl
  | some entity =>
    obtain ⟨schema, hschema, hmem, hname⟩ := mem_of_find? hentity
    obtain ⟨schema', hschema', hmem', hname'⟩ := mem_of_find? found
    obtain ⟨hspace, hsame⟩ := QualifiedName.mk.inj (hname.symm.trans hname')
    have heq : schema = schema' := by
      have hfound := names.schema?_eq_some hschema
      rw [hspace, names.schema?_eq_some hschema'] at hfound
      exact (Option.some.inj hfound).symm
    subst heq
    exact absurd hsame (apart schema hschema entity hmem complex hmem')

/-- The base type of a type is the next one of its chain. -/
theorem baseName?_of_levels {δ : Type} {level : QualifiedName × δ → TypeLevel}
    (hname : ∀ l, (level l).name = l.1) {t : StructuredType} {own : QualifiedName × δ}
    {above : List (QualifiedName × δ)} (h : t.levels = (own :: above).map level) :
    t.baseName? = (chainNames above).head? := by
  obtain ⟨-, hbases⟩ := List.cons.inj h
  rw [StructuredType.baseName?, hbases, chainNames, List.head?_map, List.head?_map,
    Option.map_map]
  exact congrArg (fun f => above.head?.map f) (funext hname)

/-- The base type that is named for a type is the next one of its lineage, and the types from there on
are the lineage of the base type. -/
theorem Lineage.step (names : s.WellNamed) (apart : s.TypesApart) {name : QualifiedName}
    {lineage : List QualifiedName} (h : Lineage s name lineage) :
    ∃ above, lineage = s.actualName name :: above ∧
      (baseTypeName (s.actualName name)).result s = .ok above.head? ∧
      ∀ base rest, above = base :: rest → s.actualName base = base ∧ Lineage s base above := by
  have hactual := names.actualName_actualName name
  have hentity := entityType_decides s (s.actualName name)
  have hcomplex := complexType_decides s (s.actualName name)
  rw [hactual] at hentity hcomplex
  rw [baseTypeName_result]
  cases h with
  | entity bases keys =>
    obtain ⟨t, hanswer, ht⟩ := hentity.resolved _ bases keys
    obtain ⟨type, above, rfl, habove⟩ := bases.head
    refine ⟨chainNames above, rfl, ?_, ?_⟩
    · rw [hanswer, except_ok_bind]
      exact congrArg Except.ok (baseName?_of_levels (fun _ => rfl) ht.eachLevel)
    · intro base rest hbase
      obtain ⟨level, rest, rfl, rfl, -⟩ := List.map_eq_cons_iff.mp hbase
      have real := bases.real names hactual level (by simp)
      have hbases := habove level rest rfl
      rw [← real] at hbases
      exact ⟨real, .entity hbases keys.above⟩
  | complex bases =>
    obtain ⟨t, hanswer, ht⟩ := hcomplex.resolved _ bases trivial
    obtain ⟨type, above, rfl, habove⟩ := bases.head
    have noEntity := apart.noEntity names (bases.declared _ List.mem_cons_self)
    refine ⟨chainNames above, rfl, ?_, ?_⟩
    · rw [hentity.unknown noEntity, except_ok_bind, hanswer, except_ok_bind]
      exact congrArg Except.ok (baseName?_of_levels (fun _ => rfl) ht)
    · intro base rest hbase
      obtain ⟨level, rest, rfl, rfl, -⟩ := List.map_eq_cons_iff.mp hbase
      have real := bases.real names hactual level (by simp)
      have hbases := habove level rest rfl
      rw [← real] at hbases
      exact ⟨real, .complex hbases⟩
  | other noEntity noComplex =>
    refine ⟨[], rfl, ?_, nofun⟩
    rw [hentity.unknown noEntity, except_ok_bind, hcomplex.unknown noComplex]
    rfl

/-- A name has the lineage of its real name. -/
theorem Lineage.actual (names : s.WellNamed) {name : QualifiedName} {lineage : List QualifiedName}
    (h : Lineage s name lineage) : Lineage s (s.actualName name) lineage := by
  have hactual := names.actualName_actualName name
  cases h with
  | entity bases keys =>
    rw [← hactual] at bases
    exact .entity bases keys
  | complex bases =>
    rw [← hactual] at bases
    exact .complex bases
  | other noEntity noComplex =>
    rw [← hactual] at noEntity noComplex
    have h := Lineage.other noEntity noComplex
    rwa [hactual] at h

/-- There are no more types in a lineage than the bound on the recursion allows for. -/
theorem Lineage.length_le {name : QualifiedName} {lineage : List QualifiedName}
    (h : Lineage s name lineage) : lineage.length ≤ s.chainBound := by
  cases h with
  | entity bases =>
    rw [chainNames, List.length_map]
    exact Nat.le_of_lt (bases.length_lt (entityTypeFamily_lawful s)
      (fun name => (askSource_settles (.entityType name)).result_eq))
  | complex bases =>
    rw [chainNames, List.length_map]
    exact Nat.le_of_lt (bases.length_lt (complexTypeFamily_lawful s)
      (fun name => (askSource_settles (.complexType name)).result_eq))
  | other => exact Nat.lt_of_le_of_lt (Nat.zero_le _) s.length_lt_chainBound.1

end ODataRequest
