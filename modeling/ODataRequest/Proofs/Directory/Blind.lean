import ODataRequest.Proofs.Directory.Schemas

/-!
# ODataRequest.Proofs.Directory.Blind

What has nothing to do with containers. A container may hide what the source would answer, where its
namespaces and aliases cannot be told apart: the default container is put into its store under a name that
may lead to another one. So what a directory knows of containers and of whole schemas, which have a
container each, is set apart here (`ContainerStores`). All other look-ups are *blind*: they do the same
whatever is known of containers, and leave it as it is. A blind computation that is settled is so on every
directory that is consistent apart from its containers (`Blind.runOn`).
-/

namespace ODataRequest

/-- What a directory knows of containers and of the schemas that have them. -/
structure ContainerStores where
  schemas : Store Namespace Schema
  containers : Store QualifiedName Container
  defaultContainer : Option QualifiedName

/-- Nothing is known. -/
def ContainerStores.empty : ContainerStores :=
  ⟨[], [], none⟩

namespace Directory

def containerStores (d : Directory) : ContainerStores :=
  ⟨d.schemas, d.containers, d.defaultContainer⟩

/-- The same directory with something else known of containers. -/
def withContainers (d : Directory) (c : ContainerStores) : Directory :=
  { d with
    schemas := c.schemas
    containers := c.containers
    defaultContainer := c.defaultContainer }

@[simp] theorem withContainers_withContainers (d : Directory) (c c' : ContainerStores) :
    (d.withContainers c).withContainers c' = d.withContainers c' := rfl

@[simp] theorem withContainers_containerStores (d : Directory) :
    d.withContainers d.containerStores = d := rfl

@[simp] theorem containerStores_withContainers (d : Directory) (c : ContainerStores) :
    (d.withContainers c).containerStores = c := rfl

end Directory

namespace InDirectory

variable {α β : Type}

/-- The computation does the same whatever is known of containers, and leaves it as it is. -/
def Blind (x : InDirectory α) : Prop :=
  ∀ (d : Directory) (c : ContainerStores),
    x.runOn (d.withContainers c) = ((x.runOn d).1, (x.runOn d).2.withContainers c)

namespace Blind

/-! ### Rules -/

theorem pure (a : α) : Blind (pure a : InDirectory α) :=
  fun _ _ => rfl

theorem throw (e : DirectoryError) : Blind (throw e : InDirectory α) :=
  fun _ _ => rfl

theorem bind {x : InDirectory α} {f : α → InDirectory β} (hx : Blind x) (hf : ∀ a, Blind (f a)) :
    Blind (x >>= f) := by
  intro d c
  rw [runOn_bind, runOn_bind, hx d c]
  rcases x.runOn d with ⟨e | a, d'⟩
  · rfl
  · exact hf a d' c

theorem inContext {x : InDirectory α} (context : DirectoryError → DirectoryError) (hx : Blind x) :
    Blind (inContext context x) := by
  intro d c
  rw [runOn_inContext, runOn_inContext, hx d c]

theorem mapM {f : α → InDirectory β} (hf : ∀ a, Blind (f a)) (as : List α) : Blind (as.mapM f) := by
  induction as with
  | nil => exact .pure []
  | cons a as ih =>
    rw [List.mapM_cons]
    exact (hf a).bind fun b => ih.bind fun bs => .pure (b :: bs)

theorem optionMapM {f : α → InDirectory β} (hf : ∀ a, Blind (f a)) (o : Option α) :
    Blind (o.mapM f) := by
  cases o with
  | none => exact .pure none
  | some a => exact (hf a).bind fun b => .pure (some b)

/-- What is read of the directory first is nothing about containers. -/
theorem get_bind {f : Directory → InDirectory α} (hf : ∀ d, Blind (f d))
    (hsame : ∀ d c, f (d.withContainers c) = f d) : Blind (get >>= f) := by
  intro d c
  rw [runOn_bind, runOn_bind, runOn_get, runOn_get]
  show (f (d.withContainers c)).runOn (d.withContainers c) = _
  rw [hsame]
  exact hf d d c

theorem askSource (r : SourceRequest) : Blind (askSource r) := by
  intro d c
  unfold ODataRequest.askSource
  simp only [runOn_bind, runOn_modify, runOn_get, Directory.withContainers]
  split
  · rfl
  · split <;> rfl

/-! ### Stores -/

section Stores

variable {κ : Type} [DecidableEq κ] {store : StoreIn κ α}

/-- The store is none of those that know of containers. -/
structure Apart (store : StoreIn κ α) : Prop where
  entries : ∀ d c, store.entries (d.withContainers c) = store.entries d
  replace : ∀ entries d c,
    store.replace entries (d.withContainers c) = (store.replace entries d).withContainers c

theorem find? (apart : Apart store) (key : κ) : Blind (store.find? key) := by
  refine .get_bind (fun d => .pure _) fun d c => ?_
  rw [apart.entries]

theorem put (apart : Apart store) (key : κ) (value : α) : Blind (store.put key value) := by
  refine .get_bind (fun d => ?_) fun d c => ?_
  · dsimp only
    split
    · exact .pure _
    · refine .bind (fun d c => ?_) fun _ => .pure value
      rw [runOn_modify, runOn_modify, apart.replace]
  · rw [apart.entries]

theorem remembered (apart : Apart store) (key : κ) {make : InDirectory (Option α)}
    (hmake : Blind make) : Blind (store.remembered key make) := by
  refine (find? apart key).bind fun found => ?_
  cases found with
  | some value => exact .pure _
  | none =>
    refine hmake.bind fun made => ?_
    cases made with
    | none => exact .pure none
    | some value => exact (put apart key value).bind fun _ => .pure _

end Stores

/-! ### Aliases -/

theorem aliasTable : Blind aliasTable := by
  refine .get_bind (fun d => ?_) fun _ _ => rfl
  split
  · exact .pure _
  · refine .bind ?_ fun pairs => .bind (fun _ _ => rfl) fun _ => .pure pairs
    refine .get_bind (fun d => ?_) fun _ _ => rfl
    split
    · exact (askSource .schemas).bind fun _ => .pure _
    · exact askSource .aliases

theorem resolveNamespace (space : Namespace) : Blind (resolveNamespace space) :=
  aliasTable.bind fun _ => .pure _

theorem resolveAlias (name : QualifiedName) : Blind (resolveAlias name) := by
  unfold ODataRequest.resolveAlias
  split
  · exact .pure name
  · exact (resolveNamespace name.space).bind fun _ => .pure _

theorem resolveReference (t : TypeReference) : Blind (resolveReference t) :=
  (resolveAlias t.name).bind fun _ => .pure _

/-! ### Structured types -/

theorem resolveLevel (name : QualifiedName) (hasStream : Bool) (t : Csdl.StructuredType) :
    Blind (resolveLevel name hasStream t) := by
  refine (mapM (fun p => ?_) _).bind fun _ => (mapM (fun p => ?_) _).bind fun _ => .pure _
  · exact (resolveReference p.type).bind fun _ => .pure _
  · exact (resolveReference p.type).bind fun _ => .pure _

/-- What a family of types needs for its look-ups to be blind. -/
structure Family {δ : Type} (family : TypeFamily δ α) : Prop where
  apart : Apart family.store
  declared : ∀ name, Blind (family.declared name)
  complete : ∀ name declared base, Blind (family.complete name declared base)

section Families

variable {δ : Type} {family : TypeFamily δ α}

theorem load (blind : Family family) (name : QualifiedName)
    {find : QualifiedName → InDirectory (Option α)} (hfind : ∀ name, Blind (find name)) :
    Blind (family.load name find) := by
  refine (blind.declared name).bind fun declared => ?_
  cases declared with
  | none => exact .pure none
  | some declared =>
    refine .inContext _ (.bind ?_ fun base => (blind.complete name declared base).bind fun _ => .pure _)
    unfold resolveBase
    split
    · exact .pure none
    · refine (resolveAlias _).bind fun name => (hfind name).bind fun base => ?_
      cases base with
      | some base => exact .pure _
      | none => exact .throw _

theorem resolveFrom (blind : Family family) (bound : Nat) (visiting : List QualifiedName)
    (name : QualifiedName) : Blind (family.resolveFrom bound visiting name) := by
  induction bound generalizing visiting name with
  | zero =>
    rw [TypeFamily.resolveFrom_zero]
    split
    · exact .throw _
    · exact remembered blind.apart name (load blind name fun _ => .throw _)
  | succ bound ih =>
    rw [TypeFamily.resolveFrom_succ]
    split
    · exact .throw _
    · exact remembered blind.apart name (load blind name fun base => ih _ base)

theorem resolve (blind : Family family) (name : QualifiedName) : Blind (family.resolve name) := by
  refine (resolveAlias name).bind fun name => ?_
  exact .get_bind (fun d => resolveFrom blind _ _ name) fun _ _ => rfl

end Families

theorem complexType (name : QualifiedName) : Blind (complexType name) :=
  resolve
    { apart := ⟨fun _ _ => rfl, fun _ _ _ => rfl⟩
      declared := fun _ => askSource _
      complete := fun _ _ _ => (resolveLevel _ _ _).bind fun _ => .pure _ } name

theorem followPath (unresolved : DirectoryError) (p : Csdl.Property) (ids : List Identifier) :
    Blind (followPath unresolved p ids) := by
  induction ids generalizing p with
  | nil => exact .pure p
  | cons id ids ih =>
    unfold ODataRequest.followPath
    refine (complexType p.type.name).bind fun type => ?_
    split
    · exact ih _
    · exact .throw unresolved

theorem resolveKey (t : StructuredType) (key : Csdl.KeyReference) : Blind (resolveKey t key) := by
  unfold ODataRequest.resolveKey
  split
  · exact .throw _
  · exact .throw _
  · split
    · exact .throw _
    · exact (followPath _ _ _).bind fun _ => .pure _

theorem completeEntityType (name : QualifiedName) (declared : Csdl.EntityType)
    (base : Option EntityType) : Blind (completeEntityType name declared base) := by
  refine (resolveLevel name declared.hasStream _).bind fun own => ?_
  dsimp only
  split
  · exact .bind (.pure _) fun _ => .pure _
  · exact .bind (mapM (resolveKey _) _) fun _ => .pure _

theorem entityType (name : QualifiedName) : Blind (entityType name) :=
  resolve
    { apart := ⟨fun _ _ => rfl, fun _ _ _ => rfl⟩
      declared := fun _ => askSource _
      complete := completeEntityType } name

/-! ### Other types -/

theorem underlyingKind (name : QualifiedName) : Blind (underlyingKind name) := by
  unfold ODataRequest.underlyingKind
  split
  · exact .pure _
  · exact .throw _

theorem enumType (name : QualifiedName) : Blind (enumType name) := by
  refine (resolveAlias name).bind fun name => ?_
  refine remembered ⟨fun _ _ => rfl, fun _ _ _ => rfl⟩ name ((askSource _).bind fun declared => ?_)
  cases declared with
  | none => exact .pure none
  | some declared =>
    dsimp only
    split
    · exact .bind (.pure _) fun _ => .pure _
    · exact (underlyingKind _).bind fun _ => .pure _

theorem typeDefinition (name : QualifiedName) : Blind (typeDefinition name) := by
  refine (resolveAlias name).bind fun name => ?_
  refine remembered ⟨fun _ _ => rfl, fun _ _ _ => rfl⟩ name ((askSource _).bind fun declared => ?_)
  cases declared with
  | none => exact .pure none
  | some declared => exact (underlyingKind _).bind fun _ => .pure _

theorem resolveType (name : QualifiedName) : Blind (resolveType name) := by
  refine (resolveAlias name).bind fun name => ?_
  split
  · exact .pure _
  · refine (entityType name).bind fun entity => ?_
    cases entity with
    | some t => exact .pure _
    | none =>
      refine (complexType name).bind fun complex => ?_
      cases complex with
      | some t => exact .pure _
      | none =>
        refine (enumType name).bind fun enumeration => ?_
        cases enumeration with
        | some t => exact .pure _
        | none => exact (typeDefinition name).bind fun _ => .pure _

theorem derivedTypes (name : QualifiedName) : Blind (derivedTypes name) := by
  refine (resolveAlias name).bind fun name => .bind ?_ fun names => mapM resolveAlias names
  refine .get_bind (fun d => ?_) fun _ _ => rfl
  split
  · exact .pure []
  · exact askSource _

/-! ### Operations -/

/-- What a family of operations needs for its look-ups to be blind. -/
structure Operations (family : OperationFamily α) : Prop where
  apart : Apart family.store
  load : ∀ name, Blind (family.load name)

section Overloads

variable {family : OperationFamily α}

theorem named (blind : Operations family) (name : QualifiedName) : Blind (family.named name) :=
  (blind.load name).bind fun overloads => mapM (fun o => put blind.apart _ o) overloads

theorem ofKey (blind : Operations family) (key : OverloadKey) : Blind (family.ofKey key) := by
  refine (find? blind.apart key).bind fun found => ?_
  cases found with
  | some o => exact .pure _
  | none => exact (named blind key.name).bind fun _ => .pure _

theorem baseTypeName (name : QualifiedName) : Blind (baseTypeName name) := by
  refine (entityType name).bind fun entity => ?_
  cases entity with
  | some t => exact .pure _
  | none => exact (complexType name).bind fun _ => .pure _

theorem nearestOverload {find : OverloadKey → InDirectory (Option α)}
    (hfind : ∀ key, Blind (find key)) (bound : Nat) (key : OverloadKey) :
    Blind (nearestOverload find bound key) := by
  induction bound generalizing key with
  | zero =>
    unfold ODataRequest.nearestOverload
    refine (hfind key).bind fun found => ?_
    cases found with
    | some o => exact .pure _
    | none => exact .pure none
  | succ bound ih =>
    unfold ODataRequest.nearestOverload
    refine (hfind key).bind fun found => ?_
    cases found with
    | some o => exact .pure _
    | none =>
      cases key.binding with
      | none => exact .pure none
      | some binding =>
        refine (baseTypeName binding.type).bind fun base => ?_
        cases base with
        | some base => exact ih _
        | none => exact .pure none

theorem loadOverloads {δ : Type} {ask : InDirectory (List δ)} {resolve : δ → InDirectory α}
    (hask : Blind ask) (hresolve : ∀ o, Blind (resolve o)) (keyOf : α → OverloadKey)
    (name : QualifiedName) : Blind (loadOverloads keyOf ask resolve name) := by
  refine hask.bind fun declared => .inContext _ ((mapM hresolve declared).bind fun overloads => ?_)
  unfold distinctOverloads
  split
  · exact .throw _
  · exact .pure overloads

end Overloads

theorem requireBindingParameter (name : QualifiedName) (o : Csdl.Operation) :
    Blind (requireBindingParameter name o) := by
  unfold ODataRequest.requireBindingParameter
  split
  · exact .throw _
  · exact .pure _

theorem resolveParameter (p : Csdl.Parameter) : Blind (resolveParameter p) :=
  (resolveReference p.type).bind fun _ => .pure _

theorem actionFamily : Operations actionFamily where
  apart := ⟨fun _ _ => rfl, fun _ _ _ => rfl⟩
  load name := by
    refine loadOverloads (askSource _) (fun a => (requireBindingParameter name _).bind fun _ => ?_) _ _
    refine (optionMapM (fun r => ?_) _).bind fun _ => (mapM resolveParameter _).bind fun _ => .pure _
    exact (resolveReference r.type).bind fun _ => .pure _

theorem functionFamily : Operations functionFamily where
  apart := ⟨fun _ _ => rfl, fun _ _ _ => rfl⟩
  load name := by
    refine loadOverloads (askSource _) (fun f => (requireBindingParameter name _).bind fun _ => ?_) _ _
    refine .bind ?_ fun _ => (mapM resolveParameter _).bind fun _ => .pure _
    exact (resolveReference f.returnType.type).bind fun _ => .pure _

theorem unboundAction (name : QualifiedName) : Blind (unboundAction name) :=
  (resolveAlias name).bind fun _ => ofKey actionFamily _

theorem boundAction (name : QualifiedName) (binding : Binding) : Blind (boundAction name binding) := by
  refine (resolveAlias name).bind fun name => .bind ?_ fun binding => ?_
  · exact (resolveAlias binding.type).bind fun _ => .pure _
  · exact .get_bind (fun d => nearestOverload (ofKey actionFamily) _ _) fun _ _ => rfl

theorem unboundFunctions (name : QualifiedName) : Blind (unboundFunctions name) := by
  have apart : Apart functionListStore := ⟨fun _ _ => rfl, fun _ _ _ => rfl⟩
  refine (resolveAlias name).bind fun name => (find? apart name).bind fun found => ?_
  cases found with
  | some unbound => exact .pure _
  | none =>
    refine (named functionFamily name).bind fun overloads => ?_
    dsimp only
    split
    · exact .pure _
    · exact put apart name _

theorem unboundFunction (name : QualifiedName) (parameters : List String) :
    Blind (unboundFunction name parameters) :=
  (resolveAlias name).bind fun _ => ofKey functionFamily _

theorem boundFunction (name : QualifiedName) (binding : Binding) (parameters : List String) :
    Blind (boundFunction name binding parameters) := by
  refine (resolveAlias name).bind fun name => .bind ?_ fun binding => ?_
  · exact (resolveAlias binding.type).bind fun _ => .pure _
  · exact .get_bind (fun d => nearestOverload (ofKey functionFamily) _ _) fun _ _ => rfl

/-! ### Terms, annotations and the parts of containers -/

theorem resolveTerm (name : QualifiedName) (t : Csdl.Term) : Blind (resolveTerm name t) :=
  (resolveReference t.type).bind fun _ => (optionMapM resolveAlias _).bind fun _ => .pure _

theorem term (name : QualifiedName) : Blind (term name) := by
  refine (resolveAlias name).bind fun name => ?_
  refine remembered ⟨fun _ _ => rfl, fun _ _ _ => rfl⟩ name ((askSource _).bind fun declared => ?_)
  exact optionMapM (resolveTerm name) declared

theorem resolveAnnotation (a : Csdl.Annotation) : Blind ( resolveAnnotation a) :=
  (resolveAlias a.term).bind fun _ => .pure _

theorem annotationGroup (target : QualifiedName) (qualifier : Option String) :
    Blind (annotationGroup target qualifier) := by
  refine (resolveAlias target).bind fun target => ?_
  refine remembered ⟨fun _ _ => rfl, fun _ _ _ => rfl⟩ _ ((askSource _).bind fun declared => ?_)
  exact optionMapM (fun g => (mapM resolveAnnotation _).bind fun _ => .pure _) declared

theorem resolveContainer (name : QualifiedName) (c : Csdl.Container) :
    Blind (resolveContainer name c) := by
  refine .bind (mapM (fun e => ?_) _) fun _ => .bind (mapM (fun e => ?_) _) fun _ =>
    .bind (mapM (fun i => ?_) _) fun _ => .bind (mapM (fun i => ?_) _) fun _ => .pure _
  · exact (resolveAlias e.entityType).bind fun _ => .pure _
  · exact (resolveAlias e.entityType).bind fun _ => .pure _
  · exact (resolveAlias i.action).bind fun _ => .pure _
  · exact (resolveAlias i.function).bind fun _ => .pure _

end Blind

end InDirectory

end ODataRequest
