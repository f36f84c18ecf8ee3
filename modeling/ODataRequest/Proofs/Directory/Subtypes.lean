import Mathlib.Logic.Relation
import ODataRequest.Proofs.Directory.Lineage

/-!
# ODataRequest.Proofs.Directory.Subtypes

Subtypes upwards and downwards. A resolved type carries its base types and knows from which names it
derives; the source has an index of the types that are directly derived from a name. The index is
made from the references as they are declared, the base types are found by resolving them. Both agree
(`subtypes_agree`) as long as no schema has two structured types of one name.

Entity types and complex types are brought together first: a resolved type of either sort is the end
of a chain of declared types (`TypeChain`), whose names are the names of its levels (`HasChain`). A
name is derived from another one in the index exactly if a chain leads from the first to the second
(`mem_chainNames_iff`), so everything else is about the chains of two types, one of which continues
the other (`HasChain.suffix`).
-/

namespace ODataRequest

open InDirectory

variable {s : Source}

/-! ### Structured types of a source -/

/-- The entity types and the complex types of a schema, in the order of the index. -/
def Csdl.Schema.structuredTypes (schema : Csdl.Schema) : List Csdl.StructuredType :=
  schema.entityTypes.map (·.toStructuredType) ++ schema.complexTypes

namespace Source

/-- The structured types of each schema have different names. -/
def TypesUnique (s : Source) : Prop :=
  ∀ schema ∈ s.schemas, (schema.structuredTypes.map (·.name)).Nodup

instance (s : Source) : Decidable s.TypesUnique :=
  inferInstanceAs (Decidable (∀ schema ∈ s.schemas, (schema.structuredTypes.map (·.name)).Nodup))

/-- The declared structured type of a name, whatever its sort. -/
def declaredType? (s : Source) (name : QualifiedName) : Option Csdl.StructuredType :=
  s.find? Csdl.Schema.structuredTypes (·.name) name

theorem TypesUnique.declaredType?_eq_some (unique : s.TypesUnique) {name : QualifiedName}
    {t : Csdl.StructuredType} :
    s.declaredType? name = some t ↔
      ∃ schema, s.schema? name.space = some schema ∧ t ∈ schema.structuredTypes ∧
        t.name = name.name := by
  unfold declaredType? find?
  rw [Option.bind_eq_some_iff]
  refine exists_congr fun schema => and_congr_right fun hschema => ?_
  exact find?_key_eq_some (unique schema (mem_of_schema? hschema).1)

/-- An element of one of the two sorts is the structured type of its name. -/
theorem TypesUnique.declaredType?_of_find? {α : Type} (items : Csdl.Schema → List α)
    {nameOf : α → Identifier} (type : α → Csdl.StructuredType) (unique : s.TypesUnique)
    (among : ∀ schema, ∀ item ∈ items schema, type item ∈ schema.structuredTypes)
    (named : ∀ item, (type item).name = nameOf item) {name : QualifiedName} {item : α}
    (found : s.find? items nameOf name = some item) :
    s.declaredType? name = some (type item) := by
  obtain ⟨schema, hschema, hitem⟩ := Option.bind_eq_some_iff.mp found
  have hname : nameOf item = name.name := by simpa using List.find?_some hitem
  exact unique.declaredType?_eq_some.mpr
    ⟨schema, hschema, among schema item (List.mem_of_find?_eq_some hitem), (named item).trans hname⟩

theorem TypesUnique.declaredType?_of_entity (unique : s.TypesUnique) {name : QualifiedName}
    {t : Csdl.EntityType} (found : s.answer (.entityType name) = some t) :
    s.declaredType? name = some t.toStructuredType := by
  refine TypesUnique.declaredType?_of_find? (·.entityTypes) (·.toStructuredType) unique ?_
    (fun _ => rfl) found
  intro schema t ht
  exact List.mem_append_left _ (List.mem_map_of_mem ht)

theorem TypesUnique.declaredType?_of_complex (unique : s.TypesUnique) {name : QualifiedName}
    {t : Csdl.StructuredType} (found : s.answer (.complexType name) = some t) :
    s.declaredType? name = some t := by
  refine TypesUnique.declaredType?_of_find? (·.complexTypes) id unique ?_ (fun _ => rfl) found
  intro schema t ht
  exact List.mem_append_right _ ht

end Source

/-! ### Chains of either sort -/

/-- The declared types that are visited when the base types of a type of either sort are followed. -/
abbrev TypeChain (s : Source) :=
  BaseChain s s.declaredType? Csdl.StructuredType.baseType

/-- A chain is a chain of what its types become, if they keep their base types. -/
theorem BaseChain.map {δ δ' : Type} {declared? : QualifiedName → Option δ}
    {declared?' : QualifiedName → Option δ'} {baseType : δ → Option QualifiedName}
    {baseType' : δ' → Option QualifiedName} {f : δ → δ'}
    (declares : ∀ name t, declared? name = some t → declared?' name = some (f t))
    (keeps : ∀ t, baseType' (f t) = baseType t) {name : QualifiedName}
    {chain : List (QualifiedName × δ)} {next : Option QualifiedName}
    (h : BaseChain s declared? baseType name chain next) :
    BaseChain s declared?' baseType' name (chain.map (Prod.map id f)) next := by
  induction h with
  | stop => exact .stop
  | root found noBase => exact .root (declares _ _ found) ((keeps _).trans noBase)
  | up found hasBase _ ih => exact .up (declares _ _ found) ((keeps _).trans hasBase) ih

/-- The chain is the one of the type: it starts with the name of the type, and each level is what the
type at its place declares. Whether an entity has a stream is left aside, since this is not known of
types of either sort. -/
structure HasChain (s : Source) (t : StructuredType)
    (chain : List (QualifiedName × Csdl.StructuredType)) : Prop where
  follows : TypeChain s t.name chain none
  real : s.actualName t.name = t.name
  levels : t.levels.map (fun level => { level with hasStream := false }) = chain.map s.complexLevel

/-- The structured types that a directory over the source resolves, whatever it has been asked before. -/
inductive Source.Resolves (s : Source) : StructuredType → Prop
  | entity {d : Directory} (reachable : d.Reachable s) {name : QualifiedName} {t : EntityType}
      (answer : ((entityType name).runOn d).1 = .ok (some t)) : Resolves s t.toStructuredType
  | complex {d : Directory} (reachable : d.Reachable s) {name : QualifiedName} {t : StructuredType}
      (answer : ((complexType name).runOn d).1 = .ok (some t)) : Resolves s t
  | type {d : Directory} (reachable : d.Reachable s) {name : QualifiedName} {m : ModelType}
      {t : StructuredType} (answer : ((resolveType name).runOn d).1 = .ok (some m))
      (structured : m.structured? = some t) : Resolves s t

/-- A type whose levels are made from a chain of declared types of one sort has that chain. -/
theorem BaseChain.hasChain {δ : Type} {declared? : QualifiedName → Option δ}
    {baseType : δ → Option QualifiedName} {f : δ → Csdl.StructuredType}
    {level : QualifiedName × δ → TypeLevel}
    (declares : ∀ name t, declared? name = some t → s.declaredType? name = some (f t))
    (keeps : ∀ t, (f t).baseType = baseType t)
    (makes : ∀ l, { level l with hasStream := false } = s.complexLevel (Prod.map id f l))
    {name : QualifiedName} (real : s.actualName name = name) {chain : List (QualifiedName × δ)}
    (bases : BaseChain s declared? baseType name chain none) {t : StructuredType}
    (hlevels : t.levels = chain.map level) : HasChain s t (chain.map (Prod.map id f)) := by
  have hlevels : t.levels.map (fun l => { l with hasStream := false }) =
      (chain.map (Prod.map id f)).map s.complexLevel := by
    rw [hlevels, List.map_map, List.map_map]
    exact List.map_congr_left fun l _ => makes l
  have hname : t.name = name := by
    obtain ⟨own, above, rfl, -⟩ := bases.head
    obtain ⟨hown, -⟩ := List.cons.inj hlevels
    exact congrArg TypeLevel.name hown
  rw [← hname] at bases real
  exact ⟨bases.map declares keeps, real, hlevels⟩

section Chains

variable (names : s.WellNamed) (unique : s.TypesUnique)
include names unique

theorem exists_hasChain_of_entity {name : QualifiedName} {t : EntityType}
    (h : (entityType name).result s = .ok (some t)) : ∃ chain, HasChain s t.toStructuredType chain := by
  obtain ⟨chain, bases, hlevels⟩ := exists_entityChain h
  exact ⟨_, bases.hasChain (fun _ _ => unique.declaredType?_of_entity) (fun _ => rfl)
    (fun _ => rfl) (names.actualName_actualName name) hlevels⟩

theorem exists_hasChain_of_complex {name : QualifiedName} {t : StructuredType}
    (h : (complexType name).result s = .ok (some t)) : ∃ chain, HasChain s t chain := by
  obtain ⟨chain, bases, hlevels⟩ := exists_complexChain h
  exact ⟨_, bases.hasChain (f := id) (fun _ _ => unique.declaredType?_of_complex) (fun _ => rfl)
    (fun _ => rfl) (names.actualName_actualName name) hlevels⟩

/-- A structured type behind a name is an entity type or a complex type of that name. -/
theorem exists_hasChain_of_resolved {name : QualifiedName} {m : ModelType} {t : StructuredType}
    (h : resolvedType s name = .ok (some m)) (structured : m.structured? = some t) :
    ∃ chain, HasChain s t chain := by
  unfold resolvedType at h
  split at h
  · obtain ⟨kind, -, rfl⟩ := Option.map_eq_some_iff.mp (Except.ok.inj h)
    cases structured
  · obtain ⟨entity, hentity, h⟩ := except_bind_eq_ok.mp h
    cases entity with
    | some e =>
      cases h
      cases structured
      exact exists_hasChain_of_entity names unique hentity
    | none =>
      obtain ⟨complex, hcomplex, h⟩ := except_bind_eq_ok.mp h
      cases complex with
      | some c =>
        cases h
        cases structured
        exact exists_hasChain_of_complex names unique hcomplex
      | none =>
        obtain ⟨enumeration, -, h⟩ := except_bind_eq_ok.mp h
        cases enumeration with
        | some e =>
          cases h
          cases structured
        | none =>
          obtain ⟨definition, -, h⟩ := except_bind_eq_ok.mp h
          obtain ⟨e, -, rfl⟩ := Option.map_eq_some_iff.mp (Except.ok.inj h)
          cases structured

/-- Each resolved type has a chain. -/
theorem Source.Resolves.exists_chain {t : StructuredType} (h : s.Resolves t) :
    ∃ chain, HasChain s t chain := by
  cases h with
  | @entity d reachable name t answer =>
    rw [(entityType_settled name d (reachable.consistent names)).1] at answer
    exact exists_hasChain_of_entity names unique answer
  | @complex d reachable name t answer =>
    rw [(complexType_settled name d (reachable.consistent names)).1] at answer
    exact exists_hasChain_of_complex names unique answer
  | @type d reachable name m t answer structured =>
    rw [(resolveType_settles name d (reachable.consistent names)).1] at answer
    exact exists_hasChain_of_resolved names unique answer structured

end Chains

/-! ### Up along base types -/

namespace HasChain

variable {t b : StructuredType} {chain chain' : List (QualifiedName × Csdl.StructuredType)}

/-- A type derives from the names of its chain. -/
theorem derivesFrom_iff (h : HasChain s t chain) (name : QualifiedName) :
    t.derivesFrom name = true ↔ name ∈ chainNames chain := by
  have hnames : t.levels.map (·.name) = chainNames chain := by
    have hlevels := congrArg (List.map (·.name)) h.levels
    rw [List.map_map, List.map_map] at hlevels
    exact hlevels
  rw [← hnames, StructuredType.derivesFrom, List.any_eq_true, List.mem_map]
  simp only [beq_iff_eq]

/-- The chain of a type continues in the chain of what it derives from. -/
theorem suffix (h : HasChain s t chain) (h' : HasChain s b chain')
    (derives : t.derivesFrom b.name = true) : chain' <:+ chain := by
  obtain ⟨level, hlevel, hname⟩ := List.mem_map.mp ((h.derivesFrom_iff _).mp derives)
  obtain ⟨below, above, rfl⟩ := List.append_of_mem hlevel
  have hrest := h.follows.suffix
  rw [hname] at hrest
  obtain ⟨rfl, -⟩ := hrest.unique BaseChain.ends_none h'.follows BaseChain.ends_none
  exact List.suffix_append below _

/-- What the base type has for a name, the type has as well, if it is looked up in one level after the
other. -/
theorem isSome_findSome? {β : Type} {f : TypeLevel → Option β}
    (ignores : ∀ level, f { level with hasStream := false } = f level) (h : HasChain s t chain)
    (h' : HasChain s b chain') (derives : t.derivesFrom b.name = true)
    (found : (b.levels.findSome? f).isSome = true) : (t.levels.findSome? f).isSome = true := by
  have hlevels {t : StructuredType} {chain : List (QualifiedName × Csdl.StructuredType)}
      (h : HasChain s t chain) :
      t.levels.findSome? f = (chain.map s.complexLevel).findSome? f := by
    rw [← h.levels, List.findSome?_map]
    exact congrArg (fun g => t.levels.findSome? g) (funext fun level => (ignores level).symm)
  rw [hlevels h'] at found
  rw [hlevels h]
  obtain ⟨below, rfl⟩ := h.suffix h' derives
  rw [List.map_append, List.findSome?_append, Option.isSome_or, found, Bool.or_true]

end HasChain

/-! ### Down along the index -/

/-- The directory answers the second name among those that are directly derived from the first one. -/
def Directory.Derives (d : Directory) (base name : QualifiedName) : Prop :=
  ∃ types, ((derivedTypes base).runOn d).1 = .ok types ∧ name ∈ types

section Index

variable (names : s.WellNamed)
include names

/-- The index lists the declared types under their base types. -/
theorem mem_derivedTypes {base name : QualifiedName} (unique : s.TypesUnique) :
    name ∈ s.derivedTypes base ↔ s.actualName name = name ∧
      ∃ t b, s.declaredType? name = some t ∧ t.baseType = some b ∧ s.actualName b = base := by
  have hmem : name ∈ s.derivedTypes base ↔ ∃ schema ∈ s.schemas, ∃ t ∈ schema.structuredTypes,
      ∃ b, t.baseType = some b ∧ s.actualName b = base ∧ ⟨schema.space, t.name⟩ = name := by
    unfold Source.derivedTypes Source.derivations
    simp only [List.mem_map, List.mem_filter, List.mem_flatMap, List.mem_filterMap,
      Option.map_eq_some_iff, beq_iff_eq, names.realName_eq_actualName]
    constructor
    · rintro ⟨_, ⟨⟨schema, hschema, t, ht, b, hb, rfl⟩, hbase⟩, hname⟩
      exact ⟨schema, hschema, t, ht, b, hb, hbase, hname⟩
    · rintro ⟨schema, hschema, t, ht, b, hb, hbase, hname⟩
      exact ⟨_, ⟨⟨schema, hschema, t, ht, b, hb, rfl⟩, hbase⟩, hname⟩
  rw [hmem]
  constructor
  · rintro ⟨schema, hschema, t, ht, b, hb, hbase, rfl⟩
    refine ⟨names.actualName_of_mem hschema _, t, b, ?_, hb, hbase⟩
    exact unique.declaredType?_eq_some.mpr ⟨schema, names.schema?_eq_some hschema, ht, rfl⟩
  · rintro ⟨real, t, b, found, hb, hbase⟩
    obtain ⟨schema, hschema, ht, hname⟩ := unique.declaredType?_eq_some.mp found
    obtain ⟨hmem, hspace⟩ := Source.mem_of_schema? hschema
    refine ⟨schema, hmem, t, ht, b, hb, hbase, ?_⟩
    rw [hspace, hname]
    exact (names.realName_eq_actualName name).trans real

variable (unique : s.TypesUnique) (inMemory : s.basicOnly = false) {d : Directory}
variable (reachable : d.Reachable s)
include unique inMemory reachable

/-- One step down the index is one declared base type, whatever the directory has been asked before. -/
theorem derives_iff {base name : QualifiedName} :
    d.Derives base name ↔ s.actualName name = name ∧ ∃ t b, s.declaredType? name = some t ∧
      t.baseType = some b ∧ s.actualName b = s.actualName base := by
  have hsettles : Settles s (derivedTypes base)
      (.ok ((s.derivedTypes (s.actualName base)).map s.actualName)) := by
    have hask := askDerivedTypes_settles (s := s) (s.actualName base)
    rw [if_neg (by simp [inMemory])] at hask
    refine (resolveAlias_settles base).bind_ok (hask.bind_ok ?_)
    exact .mapM fun name _ => resolveAlias_settles name
  have hanswer := (hsettles d (reachable.consistent names)).1
  unfold Directory.Derives
  rw [hanswer, ← mem_derivedTypes names unique]
  simp only [Except.ok.injEq, exists_eq_left', List.mem_map]
  constructor
  · rintro ⟨other, hother, rfl⟩
    rwa [((mem_derivedTypes names unique).mp hother).1]
  · intro hname
    exact ⟨name, hname, ((mem_derivedTypes names unique).mp hname).1⟩

/-- A name leads down the index to another one exactly if it is on the chain of the other one. -/
theorem mem_chainNames_iff {base name : QualifiedName} (real : s.actualName name = name)
    (baseReal : s.actualName base = base) {chain : List (QualifiedName × Csdl.StructuredType)}
    (h : TypeChain s name chain none) :
    base ∈ chainNames chain ↔ Relation.ReflTransGen d.Derives base name := by
  constructor
  · -- up along the chain: the last step down is the first step up
    intro hmem
    generalize hnext : (none : Option QualifiedName) = next at h
    induction h with
    | stop => cases hmem
    | root =>
      obtain rfl : base = _ := List.mem_singleton.mp hmem
      exact .refl
    | @up name b t chain next found hasBase above ih =>
      rcases List.mem_cons.mp hmem with rfl | hmem
      · exact .refl
      · have step : d.Derives (s.actualName b) name :=
          (derives_iff names unique inMemory reachable).mpr
            ⟨real, t, b, found, hasBase, (names.actualName_actualName b).symm⟩
        exact (ih (names.actualName_actualName b) hmem hnext).tail step
  · -- down along the index: each name on the way has the base among its own base types
    intro hwalk
    suffices hall : s.actualName name = name ∧ ∀ chain, TypeChain s name chain none →
        base ∈ chainNames chain from hall.2 chain h
    clear h real
    induction hwalk with
    | refl =>
      refine ⟨baseReal, fun chain h => ?_⟩
      obtain ⟨t, above, rfl, -⟩ := h.head
      exact List.mem_cons_self
    | @tail middle name _ step ih =>
      obtain ⟨real, t, b, found, hasBase, hb⟩ := (derives_iff names unique inMemory reachable).mp step
      refine ⟨real, fun chain h => ?_⟩
      cases h with
      | root found' noBase =>
        cases found.symm.trans found'
        simp [hasBase] at noBase
      | up found' hasBase' above =>
        cases found.symm.trans found'
        cases hasBase.symm.trans hasBase'
        rw [hb, ih.1] at above
        exact List.mem_cons_of_mem _ (ih.2 _ above)

end Index

/-! ### Agreement -/

/-- Types that know their base types and an index of derived types fit together: a type derives from
the names from which the index leads to its own, this is a partial order on the names of types, and a
type has what its base types have. -/
structure SubtypesAgree (s : Source) (d : Directory) : Prop where
  derived : ∀ t b, s.Resolves t → s.Resolves b →
    (t.derivesFrom b.name = true ↔ Relation.ReflTransGen d.Derives b.name t.name)
  refl : ∀ t, s.Resolves t → t.derivesFrom t.name = true
  trans : ∀ t b c, s.Resolves t → s.Resolves b → s.Resolves c → t.derivesFrom b.name = true →
    b.derivesFrom c.name = true → t.derivesFrom c.name = true
  antisymm : ∀ t b, s.Resolves t → s.Resolves b → t.derivesFrom b.name = true →
    b.derivesFrom t.name = true → t.name = b.name
  property : ∀ t b, s.Resolves t → s.Resolves b → t.derivesFrom b.name = true →
    ∀ name, (b.property? name).isSome = true → (t.property? name).isSome = true
  navigationProperty : ∀ t b, s.Resolves t → s.Resolves b → t.derivesFrom b.name = true →
    ∀ name, (b.navigationProperty? name).isSome = true →
      (t.navigationProperty? name).isSome = true

/-- Over a source in memory whose structured types can be told apart, the base types of the resolved
types and the index of derived types agree, whatever the directory has been asked before. -/
theorem subtypes_agree (names : s.WellNamed) (unique : s.TypesUnique) (inMemory : s.basicOnly = false)
    {d : Directory} (reachable : d.Reachable s) : SubtypesAgree s d where
  derived t b ht hb := by
    obtain ⟨chain, ht⟩ := ht.exists_chain names unique
    obtain ⟨chain', hb⟩ := hb.exists_chain names unique
    rw [ht.derivesFrom_iff]
    exact mem_chainNames_iff names unique inMemory reachable ht.real hb.real ht.follows
  refl t _ := t.derivesFrom_self
  trans t b c ht hb hc := by
    intro htb hbc
    obtain ⟨chain, ht⟩ := ht.exists_chain names unique
    obtain ⟨chain', hb⟩ := hb.exists_chain names unique
    have hmem := (hb.derivesFrom_iff _).mp hbc
    exact (ht.derivesFrom_iff _).mpr (((ht.suffix hb htb).map Prod.fst).subset hmem)
  antisymm t b ht hb := by
    intro htb hbt
    obtain ⟨chain, ht⟩ := ht.exists_chain names unique
    obtain ⟨chain', hb⟩ := hb.exists_chain names unique
    have hlength := Nat.le_antisymm (ht.suffix hb htb).length_le (hb.suffix ht hbt).length_le
    obtain rfl := (ht.suffix hb htb).eq_of_length hlength
    obtain ⟨type, above, hchain, -⟩ := ht.follows.head
    obtain ⟨type', above', hchain', -⟩ := hb.follows.head
    exact congrArg Prod.fst (List.cons.inj (hchain.symm.trans hchain')).1
  property t b ht hb := by
    intro htb name
    obtain ⟨chain, ht⟩ := ht.exists_chain names unique
    obtain ⟨chain', hb⟩ := hb.exists_chain names unique
    exact ht.isSome_findSome? (fun _ => rfl) hb htb
  navigationProperty t b ht hb := by
    intro htb name
    obtain ⟨chain, ht⟩ := ht.exists_chain names unique
    obtain ⟨chain', hb⟩ := hb.exists_chain names unique
    exact ht.isSome_findSome? (fun _ => rfl) hb htb

section Flora

private def floraSpace : Namespace := ⟨⟨"Flora", by decide⟩, []⟩
private def floraAlias : Identifier := ⟨"Fl", by decide⟩
private def orchardSpace : Namespace := ⟨⟨"Orchard", by decide⟩, []⟩
private def plant : Identifier := ⟨"Plant", by decide⟩
private def treeName : Identifier := ⟨"Tree", by decide⟩
private def apple : Identifier := ⟨"Apple", by decide⟩
private def height : Identifier := ⟨"Height", by decide⟩
private def neighbours : Identifier := ⟨"Neighbours", by decide⟩

private def inFlora (name : Identifier) : QualifiedName := ⟨⟨floraAlias, []⟩, name⟩

private def plantType : Csdl.EntityType :=
  { name := plant, baseType := none, isAbstract := true, isOpen := false, hasStream := false,
    key := []
    properties := [⟨height, ⟨PrimitiveKind.decimal.qualifiedName, false⟩, true, none, none, none, none⟩]
    navigationProperties := [⟨neighbours, ⟨inFlora plant, true⟩, true, none, false⟩] }

private def plantIn (name : Identifier) (base : QualifiedName) : Csdl.EntityType :=
  { name, baseType := some base, isAbstract := false, isOpen := false, hasStream := false, key := []
    properties := [], navigationProperties := [] }

private def floraSchema (space : Namespace) (aliasName : Option Identifier)
    (entityTypes : List Csdl.EntityType) : Csdl.Schema :=
  { space, aliasName, entityTypes, complexTypes := [], enumTypes := [], typeDefinitions := [],
    actions := [], functions := [], terms := [], container := none, annotations := [] }

/-- A model with trees, which are plants, and with apples, which are trees of another schema; each
base type is named by the alias. -/
def flora : Source :=
  { basicOnly := false
    schemas :=
      [floraSchema orchardSpace none [plantIn apple (inFlora treeName)],
        floraSchema floraSpace (some floraAlias)
          [plantIn treeName (inFlora plant), plantType]] }

/-- Apples are found below plants, and they have what plants have; no plant is found below apples. -/
theorem subtypes_agree_flora :
    let d := DirectoryCall.after [.derivedTypes (inFlora plant)] (Directory.ofSource flora)
    flora.WellNamed ∧ flora.TypesUnique ∧ flora.basicOnly = false ∧ d.Reachable flora ∧
      ∃ fruit base, flora.Resolves fruit ∧ flora.Resolves base ∧ fruit.name = ⟨orchardSpace, apple⟩ ∧
        base.name = ⟨floraSpace, plant⟩ ∧ (base.property? "Height").isSome = true ∧
        Relation.ReflTransGen d.Derives base.name fruit.name ∧
        ¬Relation.ReflTransGen d.Derives fruit.name base.name ∧
        (fruit.property? "Height").isSome = true := by
  intro d
  have names : flora.WellNamed := ⟨by decide, by decide⟩
  have unique : flora.TypesUnique := by decide
  have reachable : d.Reachable flora := Directory.Reachable.fresh.after _
  have agree := subtypes_agree names unique rfl reachable
  have noKeys {chain : List (QualifiedName × Csdl.EntityType)} (h : ∀ l ∈ chain, l.2.key = []) :
      KeysResolve flora chain := by
    rintro below level above rfl key hkey
    rw [h level (by simp)] at hkey
    cases hkey
  obtain ⟨fruit, hfruit, fruitLevels⟩ :=
    (entityType_decides flora ⟨orchardSpace, apple⟩).resolved
      [(⟨orchardSpace, apple⟩, plantIn apple (inFlora treeName)),
        (⟨floraSpace, treeName⟩, plantIn treeName (inFlora plant)), (⟨floraSpace, plant⟩, plantType)]
      (.up rfl rfl (.up rfl rfl (.root rfl rfl))) (noKeys (by decide))
  obtain ⟨base, hbase, baseLevels⟩ :=
    (entityType_decides flora ⟨floraSpace, plant⟩).resolved [(⟨floraSpace, plant⟩, plantType)]
      (.root rfl rfl) (noKeys (by decide))
  have resolvesFruit : flora.Resolves fruit.toStructuredType := .entity .fresh hfruit
  have resolvesBase : flora.Resolves base.toStructuredType := .entity .fresh hbase
  have fruitName : fruit.name = ⟨orchardSpace, apple⟩ :=
    congrArg TypeLevel.name (List.cons.inj fruitLevels.eachLevel).1
  have baseName : base.name = ⟨floraSpace, plant⟩ :=
    congrArg TypeLevel.name (List.cons.inj baseLevels.eachLevel).1
  have derives : fruit.derivesFrom base.name = true := by
    rw [StructuredType.derivesFrom, fruitLevels.eachLevel, baseName]
    decide
  have apart : ¬base.derivesFrom fruit.name = true := by
    rw [StructuredType.derivesFrom, baseLevels.eachLevel, fruitName]
    decide
  have hasHeight : (base.property? "Height").isSome = true := by
    rw [StructuredType.property?, baseLevels.eachLevel]
    decide
  refine ⟨names, unique, rfl, reachable, _, _, resolvesFruit, resolvesBase, fruitName, baseName,
    hasHeight, ?_, ?_, ?_⟩
  · exact (agree.derived _ _ resolvesFruit resolvesBase).mp derives
  · exact fun h => apart ((agree.derived _ _ resolvesBase resolvesFruit).mpr h)
  · exact agree.property _ _ resolvesFruit resolvesBase derives "Height" hasHeight

end Flora

end ODataRequest
