import ODataRequest.Proofs.CallHistory
import ODataRequest.Proofs.Directory.Answers
import ODataRequest.Proofs.Directory.Blind

/-!
# ODataRequest.Proofs.Directory.Alike

Directories that cannot be told apart, whatever the namespaces and aliases of their source are. Two
directories are *alike* if they know the same of containers and are consistent apart from it. Every call
gives the same on directories that are alike and leaves them alike (`DirectoryCall.agrees`): a blind
look-up because it is settled, and the look-up of a container because it is made of blind ones and of what
is known of containers. So the order in which types and operations have been asked for does not matter, on
models with any defect. Each reachable directory is alike itself (`Directory.Reachable.alike`), which says
that it is consistent apart from its containers.
-/

namespace ODataRequest

variable {α β : Type} {s : Source} {d d' : Directory}

/-! ### Directories -/

namespace Directory

/-- The directories know the same of containers, and whatever else they know is what the source answers. -/
structure Alike (s : Source) (d d' : Directory) : Prop where
  left : (d.withContainers .empty).Consistent s
  right : (d'.withContainers .empty).Consistent s
  same : d.containerStores = d'.containerStores

namespace Alike

theorem ofSource (s : Source) : Alike s (.ofSource s) (.ofSource s) :=
  ⟨.ofSource s, .ofSource s, rfl⟩

theorem symm (h : d.Alike s d') : d'.Alike s d :=
  ⟨h.right, h.left, h.same.symm⟩

theorem trans {d'' : Directory} (h : d.Alike s d') (h' : d'.Alike s d'') : d.Alike s d'' :=
  ⟨h.left, h'.right, h.same.trans h'.same⟩

theorem refl_right (h : d.Alike s d') : d'.Alike s d' :=
  h.symm.trans h

end Alike

end Directory

/-! ### Computations -/

namespace InDirectory

/-- On directories that are alike the computation gives the same, and it leaves them alike. -/
def Agrees (s : Source) (x : InDirectory α) : Prop :=
  ∀ d d' : Directory, d.Alike s d' →
    (x.runOn d).1 = (x.runOn d').1 ∧ (x.runOn d).2.Alike s (x.runOn d').2

/-- A settled computation that is blind gives its result on every directory that is consistent apart from
its containers, and what is known of those stays as it is. -/
theorem Blind.runOn {x : InDirectory α} (blind : Blind x) (settled : Settled s x) {d : Directory}
    (hd : (d.withContainers .empty).Consistent s) :
    (x.runOn d).1 = x.result s ∧ ((x.runOn d).2.withContainers .empty).Consistent s ∧
      (x.runOn d).2.containerStores = d.containerStores := by
  have hrun := blind (d.withContainers .empty) d.containerStores
  rw [Directory.withContainers_withContainers, Directory.withContainers_containerStores] at hrun
  have hempty := blind d .empty
  obtain ⟨hresult, hafter⟩ := settled _ hd
  rw [hempty] at hresult hafter
  refine ⟨hresult, hafter, ?_⟩
  rw [hrun]
  rfl

namespace Agrees

theorem of_blind {x : InDirectory α} (blind : Blind x) (settled : Settled s x) : Agrees s x := by
  intro d d' h
  obtain ⟨hleft, hafter, hstores⟩ := blind.runOn settled h.left
  obtain ⟨hright, hafter', hstores'⟩ := blind.runOn settled h.right
  exact ⟨hleft.trans hright.symm, hafter, hafter', hstores.trans (h.same.trans hstores'.symm)⟩

theorem pure (a : α) : Agrees s (pure a : InDirectory α) :=
  .of_blind (.pure a) (.pure a)

theorem bind {x : InDirectory α} {f : α → InDirectory β} (hx : Agrees s x)
    (hf : ∀ a, Agrees s (f a)) : Agrees s (x >>= f) := by
  intro d d' h
  obtain ⟨hresult, hafter⟩ := hx d d' h
  rw [runOn_bind, runOn_bind]
  rcases hrun : x.runOn d with ⟨r, e⟩
  rcases hrun' : x.runOn d' with ⟨r', e'⟩
  rw [hrun, hrun'] at hresult hafter
  obtain rfl : r = r' := hresult
  cases r with
  | error error => exact ⟨rfl, hafter⟩
  | ok a => exact hf a e e' hafter

theorem mapM {f : α → InDirectory β} (hf : ∀ a, Agrees s (f a)) (as : List α) :
    Agrees s (as.mapM f) := by
  induction as with
  | nil => exact .pure []
  | cons a as ih =>
    rw [List.mapM_cons]
    exact (hf a).bind fun b => ih.bind fun bs => .pure (b :: bs)

theorem optionMapM {f : α → InDirectory β} (hf : ∀ a, Agrees s (f a)) (o : Option α) :
    Agrees s (o.mapM f) := by
  cases o with
  | none => exact .pure none
  | some a => exact (hf a).bind fun b => .pure (some b)

/-- What is read of the directory first is nothing but what is known of containers. -/
theorem get_bind {f : Directory → InDirectory α}
    (hsame : ∀ d d' : Directory, d.containerStores = d'.containerStores → f d = f d')
    (hf : ∀ d, Agrees s (f d)) : Agrees s (get >>= f) := by
  intro d d' h
  rw [runOn_bind, runOn_bind, runOn_get, runOn_get]
  show ((f d).runOn d).1 = ((f d').runOn d').1 ∧ ((f d).runOn d).2.Alike s ((f d').runOn d').2
  rw [hsame d d' h.same]
  exact hf d' d d' h

/-- What is known of containers may change. -/
theorem modify {g : Directory → Directory} (change : ContainerStores → ContainerStores)
    (hg : ∀ d, g d = d.withContainers (change d.containerStores)) : Agrees s (modify g) := by
  intro d d' h
  rw [runOn_modify, runOn_modify, hg, hg]
  exact ⟨rfl, h.left, h.right, congrArg change h.same⟩

/-! ### Stores -/

section Stores

variable {κ : Type} [DecidableEq κ] {store : StoreIn κ α}

/-- The store is a part of what is known of containers. -/
structure Within (store : StoreIn κ α) (read : ContainerStores → Store κ α)
    (write : Store κ α → ContainerStores → ContainerStores) : Prop where
  entries : ∀ d, store.entries d = read d.containerStores
  replace : ∀ entries d,
    store.replace entries d = d.withContainers (write entries d.containerStores)

variable {read : ContainerStores → Store κ α} {write : Store κ α → ContainerStores → ContainerStores}

theorem find? (within : Within store read write) (key : κ) : Agrees s (store.find? key) := by
  refine .get_bind (fun d d' h => ?_) fun d => .pure _
  rw [within.entries, within.entries, h]

theorem put (within : Within store read write) (key : κ) (value : α) :
    Agrees s (store.put key value) := by
  refine .get_bind (fun d d' h => ?_) fun d => ?_
  · rw [within.entries, within.entries, h]
  · dsimp only
    split
    · exact .pure _
    · refine .bind ?_ fun _ => .pure value
      exact .modify (write ((key, value) :: store.entries d)) (within.replace _)

theorem remembered (within : Within store read write) (key : κ) {make : InDirectory (Option α)}
    (hmake : Agrees s make) : Agrees s (store.remembered key make) := by
  refine (find? within key).bind fun found => ?_
  cases found with
  | some value => exact .pure _
  | none =>
    refine hmake.bind fun made => ?_
    cases made with
    | none => exact .pure none
    | some value => exact (put within key value).bind fun _ => .pure _

end Stores

theorem containerStore_within :
    Within containerStore (·.containers) fun entries c => { c with containers := entries } :=
  ⟨fun _ => rfl, fun _ _ => rfl⟩

theorem schemaStore_within :
    Within schemaStore (·.schemas) fun entries c => { c with schemas := entries } :=
  ⟨fun _ => rfl, fun _ _ => rfl⟩

/-! ### Containers -/

theorem resolveAlias (name : QualifiedName) : Agrees s (resolveAlias name) :=
  .of_blind (.resolveAlias name) (resolveAlias_settles name).settled

theorem resolveContainer (name : QualifiedName) (c : Csdl.Container) :
    Agrees s (resolveContainer name c) :=
  .of_blind (.resolveContainer name c) (resolveContainer_settled name c)

theorem askSource (r : SourceRequest) : Agrees s (askSource r) :=
  .of_blind (.askSource r) (askSource_settles r).settled

theorem containerNamed (name : QualifiedName) : Agrees s (containerNamed name) := by
  refine (resolveAlias name).bind fun name => remembered containerStore_within name ?_
  refine (askSource (.container (some name))).bind fun declared => ?_
  cases declared with
  | none => exact .pure none
  | some found => exact (resolveContainer found.1 found.2).bind fun _ => .pure _

theorem container (name : Option QualifiedName) : Agrees s (container name) := by
  refine .get_bind (fun d d' h => ?_) fun d => ?_
  · have hdefault : d.defaultContainer = d'.defaultContainer :=
      congrArg ContainerStores.defaultContainer h
    rw [hdefault]
  cases name.or d.defaultContainer with
  | some name => exact containerNamed name
  | none =>
    refine (askSource (.container none)).bind fun declared => ?_
    cases declared with
    | none => exact .pure none
    | some pair =>
      refine (resolveAlias pair.1).bind fun found => (resolveContainer found pair.2).bind fun made => ?_
      refine (put containerStore_within found made).bind fun stored => ?_
      refine .bind ?_ fun _ => .pure (some stored)
      exact .modify (fun c => { c with defaultContainer := some found }) fun _ => rfl

/-! ### Schemas -/

theorem elementsOf {find : β → InDirectory (Option α)} (hfind : ∀ key, Agrees s (find key))
    (keys : List β) : Agrees s (elementsOf find keys) :=
  (mapM hfind keys).bind fun _ => .pure _

theorem resolveSchema (declared : Csdl.Schema) : Agrees s (resolveSchema declared) := by
  refine (elementsOf (fun n => .of_blind (.entityType n) (entityType_settled n)) _).bind fun _ => ?_
  refine (elementsOf (fun n => .of_blind (.complexType n) (complexType_settled n)) _).bind fun _ => ?_
  refine (elementsOf (fun n => .of_blind (.enumType n) (enumType_settled n)) _).bind fun _ => ?_
  refine (elementsOf (fun n => .of_blind (.typeDefinition n) (typeDefinition_settled n)) _).bind
    fun _ => ?_
  refine (elementsOf (fun n => .of_blind (.term n) (term_settled n)) _).bind fun _ => ?_
  refine (mapM (fun id => ?_) _).bind fun _ => (mapM (fun id => ?_) _).bind fun _ => ?_
  · exact .of_blind (Blind.named Blind.actionFamily _)
      (OperationFamily.named_settled (actionFamily_lawful s) _)
  · exact .of_blind (Blind.named Blind.functionFamily _)
      (OperationFamily.named_settled (functionFamily_lawful s) _)
  refine .bind ?_ fun _ => (elementsOf (fun t => ?_) _).bind fun _ => .pure _
  · unfold declaredContainer
    split
    · exact containerNamed _
    · exact .pure none
  · exact .of_blind (.annotationGroup t.1 t.2) (annotationGroup_settled t.1 t.2)

theorem schema (space : Namespace) : Agrees s (schema space) := by
  have hask : ∀ space, Agrees s (askSchema space) := by
    intro space
    refine .of_blind (.get_bind (fun d => ?_) fun _ _ => rfl) (askSchema_settles space).settled
    split
    · exact (Blind.askSource .schemas).bind fun _ => .pure _
    · exact .askSource _
  refine Agrees.bind (.of_blind (.resolveNamespace space) (resolveNamespace_settles space).settled)
    fun space => remembered schemaStore_within space ?_
  exact (hask space).bind fun declared => optionMapM resolveSchema declared

end Agrees

end InDirectory

/-! ### Questions and resolutions -/

open InDirectory

theorem Question.ask_blind {q : Question} (h : q ≠ .container) : Blind q.ask := by
  cases q with
  | entityType name => exact .entityType name
  | type name => exact .resolveType name
  | enumType name => exact .enumType name
  | container => exact absurd rfl h
  | unboundAction name => exact .unboundAction name
  | unboundFunction name parameters => exact .unboundFunction name parameters
  | boundAction name binding => exact .boundAction name binding
  | boundFunction name binding parameters => exact .boundFunction name binding parameters

/-- Every question but the one for the container is settled, whatever the names of the source. -/
theorem Question.ask_settled_of_ne {q : Question} (h : q ≠ .container) : Settled s q.ask := by
  cases q with
  | entityType name => exact entityType_settled name
  | type name => exact resolveType_settled name
  | enumType name => exact enumType_settled name
  | container => exact absurd rfl h
  | unboundAction name => exact unboundAction_settled name
  | unboundFunction name parameters => exact unboundFunction_settled name parameters
  | boundAction name binding => exact boundAction_settled name binding
  | boundFunction name binding parameters => exact boundFunction_settled name binding parameters

theorem Question.ask_agrees (q : Question) : Agrees s q.ask := by
  by_cases h : q = .container
  · subst h
    exact .container none
  · exact .of_blind (q.ask_blind h) (q.ask_settled_of_ne h)

namespace Resolution

/-- A resolution comes to the same on directories that are alike, and leaves them alike. -/
theorem runOn_alike (x : Resolution α) (h : d.Alike s d') :
    (x.runOn d).1 = (x.runOn d').1 ∧ (x.runOn d).2.Alike s (x.runOn d').2 := by
  induction x generalizing d d' with
  | done value => exact ⟨rfl, h⟩
  | fail error => exact ⟨rfl, h⟩
  | ask q next ih =>
    obtain ⟨hanswer, hafter⟩ := q.ask_agrees d d' h
    unfold runOn
    rcases hrun : q.ask.runOn d with ⟨r, e⟩
    rcases hrun' : q.ask.runOn d' with ⟨r', e'⟩
    rw [hrun, hrun'] at hanswer hafter
    obtain rfl : r = r' := hanswer
    cases r with
    | error error => exact ⟨rfl, hafter⟩
    | ok answer => exact ih answer hafter

end Resolution

/-! ### Calls -/

theorem DirectoryCall.agrees (c : DirectoryCall) (h : d.Alike s d') :
    (c.run d).1 = (c.run d').1 ∧ (c.run d).2.Alike s (c.run d').2 := by
  cases c with
  | entityType name => exact Agrees.of_blind (.entityType name) (entityType_settled name) d d' h
  | complexType name => exact Agrees.of_blind (.complexType name) (complexType_settled name) d d' h
  | enumType name => exact Agrees.of_blind (.enumType name) (enumType_settled name) d d' h
  | typeDefinition name =>
    exact Agrees.of_blind (.typeDefinition name) (typeDefinition_settled name) d d' h
  | term name => exact Agrees.of_blind (.term name) (term_settled name) d d' h
  | annotationGroup target qualifier =>
    exact Agrees.of_blind (.annotationGroup target qualifier)
      (annotationGroup_settled target qualifier) d d' h
  | container name => exact Agrees.container name d d' h
  | schema space => exact Agrees.schema space d d' h
  | unboundAction name => exact Question.ask_agrees (.unboundAction name) d d' h
  | boundAction name binding => exact Question.ask_agrees (.boundAction name binding) d d' h
  | unboundFunctions name =>
    exact Agrees.of_blind (.unboundFunctions name) (unboundFunctions_settled name) d d' h
  | unboundFunction name parameters =>
    exact Question.ask_agrees (.unboundFunction name parameters) d d' h
  | boundFunction name binding parameters =>
    exact Question.ask_agrees (.boundFunction name binding parameters) d d' h
  | resolveType name => exact Question.ask_agrees (.type name) d d' h
  | derivedTypes name => exact Agrees.of_blind (.derivedTypes name) (derivedTypes_settled name) d d' h
  | request config path query fragment =>
    exact Resolution.runOn_alike (Request.read config path query fragment) h

/-- Whatever has been asked before, a directory is consistent apart from its containers. -/
theorem Directory.Reachable.alike (h : d.Reachable s) : d.Alike s d := by
  induction h with
  | fresh => exact .ofSource s
  | call c _ ih => exact (c.agrees ih).2
  | resolveNamespace space _ ih =>
    exact (Agrees.of_blind (.resolveNamespace space) (resolveNamespace_settles space).settled _ _ ih).2
  | resolveAlias name _ ih => exact (Agrees.resolveAlias name _ _ ih).2

end ODataRequest
