import ODataRequest.Directory.Schemas

/-!
# ODataRequest.Proofs.Directory.Consistent

What the stores of a directory may hold. A directory is *consistent* with its source if every store
holds only what resolving the key on a directory without any history gives.

* `InDirectory.result` is that answer without history;
* `TypeFamily.Chain` says which type a name stands for by going up its base types, so it needs
  neither stores nor the list of types that are being resolved;
* `Directory.Consistent` puts one condition on each store.

`StoreIn.Keeps` is what the other modules need to know about a store: its elements satisfy the
condition, and one more element that does may be put in.
-/

namespace ODataRequest

/-! ### Names of a source -/

namespace Source

/-- The namespaces of all schemas. -/
def spaces (s : Source) : List Namespace :=
  s.schemas.map (·.space)

/-- The aliases of all schemas. -/
def aliasSpaces (s : Source) : List Namespace :=
  s.schemas.filterMap Csdl.Schema.aliasSpace?

/-- Namespaces and aliases differ from each other, and none of them is the reserved namespace. -/
structure WellNamed (s : Source) : Prop where
  distinct : (s.spaces ++ s.aliasSpaces).Nodup
  notEdm : ∀ space ∈ s.spaces ++ s.aliasSpaces, space.isEdm = false

/-- A name with its alias replaced, names of the reserved namespace as they are. -/
def actualName (s : Source) (name : QualifiedName) : QualifiedName :=
  if name.isEdm then name else s.realName name

end Source

/-! ### Runs -/

namespace InDirectory

variable {α β : Type}

@[simp] theorem runOn_pure (a : α) (d : Directory) :
    (pure a : InDirectory α).runOn d = (.ok a, d) := rfl

@[simp] theorem runOn_throw (e : DirectoryError) (d : Directory) :
    (throw e : InDirectory α).runOn d = (.error e, d) := rfl

/-- The second computation starts from the directory that the first one leaves. -/
theorem runOn_bind (x : InDirectory α) (f : α → InDirectory β) (d : Directory) :
    (x >>= f).runOn d =
      match x.runOn d with
      | (.ok a, d) => (f a).runOn d
      | (.error e, d) => (.error e, d) := by
  unfold runOn
  simp only [ExceptT.run_bind, StateT.run_bind]
  rcases StateT.run (ExceptT.run x) d with ⟨r, d'⟩
  cases r <;> simp <;> rfl

@[simp] theorem runOn_get (d : Directory) :
    (get : InDirectory Directory).runOn d = (.ok d, d) := rfl

@[simp] theorem runOn_modify (g : Directory → Directory) (d : Directory) :
    (modify g : InDirectory Unit).runOn d = (.ok (), g d) := rfl

theorem runOn_inContext (context : DirectoryError → DirectoryError) (x : InDirectory α)
    (d : Directory) :
    (inContext context x).runOn d = ((x.runOn d).1.mapError context, (x.runOn d).2) := by
  unfold runOn inContext
  rw [ExceptT.run_adapt, StateT.run_map]
  rfl

/-- The result on a directory that has not resolved anything yet. -/
def result (s : Source) (x : InDirectory α) : Except DirectoryError α :=
  (x.runOn (Directory.ofSource s)).1

end InDirectory

/-! ### Conditions on stored elements -/

/-- The type of a name as its declaration and those of its base types make it; `n` is the number of
its base types. A chain that comes back to a type is no finite chain and has no type here. -/
inductive TypeFamily.Chain {δ α : Type} (family : TypeFamily δ α) (s : Source) :
    Nat → QualifiedName → α → Prop
  | root {name : QualifiedName} {declared : δ} {type : α}
      (found : (family.declared name).result s = .ok (some declared))
      (noBase : family.baseType declared = none)
      (completed : (family.complete name declared none).result s = .ok type) :
      Chain family s 0 name type
  | derived {n : Nat} {name base : QualifiedName} {declared : δ} {type baseType : α}
      (found : (family.declared name).result s = .ok (some declared))
      (hasBase : family.baseType declared = some base)
      (above : Chain family s n (s.actualName base) baseType)
      (completed : (family.complete name declared (some baseType)).result s = .ok type) :
      Chain family s (n + 1) name type

/-- A type that resolves, with base types of whatever number. -/
def TypeFamily.Resolves {δ α : Type} (family : TypeFamily δ α) (s : Source)
    (name : QualifiedName) (type : α) : Prop :=
  ∃ n, family.Chain s n name type

/-- An overload of a name whose overloads resolve together. -/
def OperationFamily.Resolves {α : Type} (family : OperationFamily α) (s : Source)
    (key : OverloadKey) (o : α) : Prop :=
  ∃ overloads, (family.load key.name).result s = .ok overloads ∧ o ∈ overloads ∧
    family.keyOf o = key

/-- The stores hold what resolving the keys without any history gives, and no request is going to
fail. -/
structure Directory.Consistent (s : Source) (d : Directory) : Prop where
  source : d.source = s
  failing : d.failing = []
  failingOnce : d.failingOnce = []
  aliases : ∀ pairs, d.aliases = some pairs → pairs = s.aliasPairs
  defaultContainer : ∀ name, d.defaultContainer = some name →
    ∃ c, s.container? none = some (name, c)
  schemas : ∀ e ∈ d.schemas, (loadSchema e.1).result s = .ok (some e.2)
  entityTypes : ∀ e ∈ d.entityTypes, entityTypeFamily.Resolves s e.1 e.2
  complexTypes : ∀ e ∈ d.complexTypes, complexTypeFamily.Resolves s e.1 e.2
  enumTypes : ∀ e ∈ d.enumTypes, (loadEnumType e.1).result s = .ok (some e.2)
  typeDefinitions : ∀ e ∈ d.typeDefinitions, (loadTypeDefinition e.1).result s = .ok (some e.2)
  terms : ∀ e ∈ d.terms, (loadTerm e.1).result s = .ok (some e.2)
  containers : ∀ e ∈ d.containers, (loadContainer e.1).result s = .ok (some e.2)
  annotations : ∀ e ∈ d.annotations, (loadAnnotations e.1.1 e.1.2).result s = .ok (some e.2)
  actions : ∀ e ∈ d.actions, actionFamily.Resolves s e.1 e.2
  functions : ∀ e ∈ d.functions, functionFamily.Resolves s e.1 e.2
  functionLists : ∀ e ∈ d.functionLists, ∃ overloads,
    (functionFamily.load e.1).result s = .ok overloads ∧ e.2 = overloads.filter (!·.isBound)

/-- A directory that has not resolved anything yet is consistent. -/
theorem Directory.Consistent.ofSource (s : Source) : (Directory.ofSource s).Consistent s := by
  constructor <;> simp [Directory.ofSource]

/-! ### Stores -/

/-- A store that only ever holds elements of which `Right` holds. -/
structure StoreIn.Keeps {κ α : Type} (store : StoreIn κ α) (s : Source) (Right : κ → α → Prop) :
    Prop where
  stored : ∀ d : Directory, d.Consistent s → ∀ e ∈ store.entries d, Right e.1 e.2
  put : ∀ (d : Directory) (key : κ) (value : α), d.Consistent s → Right key value →
    (store.replace ((key, value) :: store.entries d) d).Consistent s

theorem entityTypeStore_keeps (s : Source) :
    entityTypeStore.Keeps s (entityTypeFamily.Resolves s) :=
  ⟨fun _ h => h.entityTypes,
    fun _ _ _ h right => { h with entityTypes := List.forall_mem_cons.mpr ⟨right, h.entityTypes⟩ }⟩

theorem complexTypeStore_keeps (s : Source) :
    complexTypeStore.Keeps s (complexTypeFamily.Resolves s) :=
  ⟨fun _ h => h.complexTypes,
    fun _ _ _ h right =>
      { h with complexTypes := List.forall_mem_cons.mpr ⟨right, h.complexTypes⟩ }⟩

theorem enumTypeStore_keeps (s : Source) :
    enumTypeStore.Keeps s fun key value => (loadEnumType key).result s = .ok (some value) :=
  ⟨fun _ h => h.enumTypes,
    fun _ _ _ h right => { h with enumTypes := List.forall_mem_cons.mpr ⟨right, h.enumTypes⟩ }⟩

theorem typeDefinitionStore_keeps (s : Source) :
    typeDefinitionStore.Keeps s fun key value =>
      (loadTypeDefinition key).result s = .ok (some value) :=
  ⟨fun _ h => h.typeDefinitions,
    fun _ _ _ h right =>
      { h with typeDefinitions := List.forall_mem_cons.mpr ⟨right, h.typeDefinitions⟩ }⟩

theorem termStore_keeps (s : Source) :
    termStore.Keeps s fun key value => (loadTerm key).result s = .ok (some value) :=
  ⟨fun _ h => h.terms,
    fun _ _ _ h right => { h with terms := List.forall_mem_cons.mpr ⟨right, h.terms⟩ }⟩

theorem containerStore_keeps (s : Source) :
    containerStore.Keeps s fun key value => (loadContainer key).result s = .ok (some value) :=
  ⟨fun _ h => h.containers,
    fun _ _ _ h right => { h with containers := List.forall_mem_cons.mpr ⟨right, h.containers⟩ }⟩

theorem annotationStore_keeps (s : Source) :
    annotationStore.Keeps s fun key value =>
      (loadAnnotations key.1 key.2).result s = .ok (some value) :=
  ⟨fun _ h => h.annotations,
    fun _ _ _ h right => { h with annotations := List.forall_mem_cons.mpr ⟨right, h.annotations⟩ }⟩

theorem schemaStore_keeps (s : Source) :
    schemaStore.Keeps s fun key value => (loadSchema key).result s = .ok (some value) :=
  ⟨fun _ h => h.schemas,
    fun _ _ _ h right => { h with schemas := List.forall_mem_cons.mpr ⟨right, h.schemas⟩ }⟩

theorem actionStore_keeps (s : Source) : actionStore.Keeps s (actionFamily.Resolves s) :=
  ⟨fun _ h => h.actions,
    fun _ _ _ h right => { h with actions := List.forall_mem_cons.mpr ⟨right, h.actions⟩ }⟩

theorem functionStore_keeps (s : Source) : functionStore.Keeps s (functionFamily.Resolves s) :=
  ⟨fun _ h => h.functions,
    fun _ _ _ h right => { h with functions := List.forall_mem_cons.mpr ⟨right, h.functions⟩ }⟩

theorem functionListStore_keeps (s : Source) :
    functionListStore.Keeps s fun key value => ∃ overloads,
      (functionFamily.load key).result s = .ok overloads ∧
        value = overloads.filter (!·.isBound) :=
  ⟨fun _ h => h.functionLists,
    fun _ _ _ h right =>
      { h with functionLists := List.forall_mem_cons.mpr ⟨right, h.functionLists⟩ }⟩

end ODataRequest
