import ODataRequest.Proofs.Directory.Schemas
import ODataRequest.Request.Reader

/-!
# ODataRequest.Proofs.CallHistory

What a directory has been asked before does not show. A call on a directory is one of its look-ups
or the reading of a request; calls are made one after the other, each on the directory that the one
before it leaves, whether that one succeeded or not. `answers_eq_fresh` says that each of them
answers as if it had been the first. Any directory that calls lead to is consistent with its source
(`Directory.Reachable.consistent`), and that is all that later proofs need to know of its history.

The source may have any defects (base types that are unknown or lead in a circle, keys that lead
nowhere, overloads that repeat each other), as long as its namespaces and aliases can be told apart.
-/

namespace ODataRequest

/-! ### Calls -/

/-- A call on a directory. -/
inductive DirectoryCall where
  | entityType (name : QualifiedName)
  | complexType (name : QualifiedName)
  | enumType (name : QualifiedName)
  | typeDefinition (name : QualifiedName)
  | term (name : QualifiedName)
  | annotationGroup (target : QualifiedName) (qualifier : Option String)
  | container (name : Option QualifiedName)
  | schema (space : Namespace)
  | unboundAction (name : QualifiedName)
  | boundAction (name : QualifiedName) (binding : Binding)
  | unboundFunctions (name : QualifiedName)
  | unboundFunction (name : QualifiedName) (parameters : List String)
  | boundFunction (name : QualifiedName) (binding : Binding) (parameters : List String)
  | resolveType (name : QualifiedName)
  | derivedTypes (name : QualifiedName)
  | request (config : Config) (path : String) (query fragment : Option String)

namespace DirectoryCall

/-- What a call answers. Absence is an answer; a defect of the source or the refusal of a request is
reported. -/
@[reducible] def Answer : DirectoryCall → Type
  | .entityType _ => Except DirectoryError (Option EntityType)
  | .complexType _ => Except DirectoryError (Option StructuredType)
  | .enumType _ => Except DirectoryError (Option EnumType)
  | .typeDefinition _ => Except DirectoryError (Option TypeDefinition)
  | .term _ => Except DirectoryError (Option Term)
  | .annotationGroup _ _ => Except DirectoryError (Option AnnotationGroup)
  | .container _ => Except DirectoryError (Option Container)
  | .schema _ => Except DirectoryError (Option Schema)
  | .unboundAction _ => Except DirectoryError (Option Action)
  | .boundAction _ _ => Except DirectoryError (Option Action)
  | .unboundFunctions _ => Except DirectoryError (List Function)
  | .unboundFunction _ _ => Except DirectoryError (Option Function)
  | .boundFunction _ _ _ => Except DirectoryError (Option Function)
  | .resolveType _ => Except DirectoryError (Option ModelType)
  | .derivedTypes _ => Except DirectoryError (List QualifiedName)
  | .request _ _ _ _ => Except RequestError Request

/-- Make a call: its answer, and the directory after it. -/
def run : (c : DirectoryCall) → Directory → c.Answer × Directory
  | .entityType name => (ODataRequest.entityType name).runOn
  | .complexType name => (ODataRequest.complexType name).runOn
  | .enumType name => (ODataRequest.enumType name).runOn
  | .typeDefinition name => (ODataRequest.typeDefinition name).runOn
  | .term name => (ODataRequest.term name).runOn
  | .annotationGroup target qualifier => (ODataRequest.annotationGroup target qualifier).runOn
  | .container name => (ODataRequest.container name).runOn
  | .schema space => (ODataRequest.schema space).runOn
  | .unboundAction name => (ODataRequest.unboundAction name).runOn
  | .boundAction name binding => (ODataRequest.boundAction name binding).runOn
  | .unboundFunctions name => (ODataRequest.unboundFunctions name).runOn
  | .unboundFunction name parameters => (ODataRequest.unboundFunction name parameters).runOn
  | .boundFunction name binding parameters =>
    (ODataRequest.boundFunction name binding parameters).runOn
  | .resolveType name => (ODataRequest.resolveType name).runOn
  | .derivedTypes name => (ODataRequest.derivedTypes name).runOn
  | .request config path query fragment => (Request.read config path query fragment).runOn

/-- The answers to calls that are made one after the other, each beside its call. -/
def answers : List DirectoryCall → Directory → List ((c : DirectoryCall) × c.Answer)
  | [], _ => []
  | c :: calls, d => ⟨c, (c.run d).1⟩ :: answers calls (c.run d).2

/-- The directory after calls that are made one after the other. -/
def after : List DirectoryCall → Directory → Directory
  | [], d => d
  | c :: calls, d => after calls (c.run d).2

/-! ### History -/

/-- One call: its answer is the one of a directory without history, and it leaves the directory
consistent. -/
theorem run_consistent {s : Source} (names : s.WellNamed) (c : DirectoryCall) {d : Directory}
    (hd : d.Consistent s) :
    (c.run d).1 = (c.run (Directory.ofSource s)).1 ∧ (c.run d).2.Consistent s := by
  cases c with
  | entityType name => exact entityType_settled name d hd
  | complexType name => exact complexType_settled name d hd
  | enumType name => exact enumType_settled name d hd
  | typeDefinition name => exact typeDefinition_settled name d hd
  | term name => exact term_settled name d hd
  | annotationGroup target qualifier => exact annotationGroup_settled target qualifier d hd
  | container name => exact container_settled names name d hd
  | schema space => exact schema_settled space d hd
  | unboundAction name => exact unboundAction_settled name d hd
  | boundAction name binding => exact boundAction_settled name binding d hd
  | unboundFunctions name => exact unboundFunctions_settled name d hd
  | unboundFunction name parameters => exact unboundFunction_settled name parameters d hd
  | boundFunction name binding parameters =>
    exact boundFunction_settled name binding parameters d hd
  | resolveType name => exact resolveType_settled name d hd
  | derivedTypes name => exact derivedTypes_settled name d hd
  | request config path query fragment =>
    exact Resolution.runOn_consistent names (Request.read config path query fragment) hd

/-- Calls leave the directory consistent. -/
theorem after_consistent {s : Source} (names : s.WellNamed) (calls : List DirectoryCall)
    {d : Directory} (hd : d.Consistent s) : (after calls d).Consistent s := by
  induction calls generalizing d with
  | nil => exact hd
  | cons c calls ih => exact ih (run_consistent names c hd).2

theorem answers_consistent {s : Source} (names : s.WellNamed) (calls : List DirectoryCall)
    {d : Directory} (hd : d.Consistent s) :
    answers calls d = calls.map fun c => ⟨c, (c.run (Directory.ofSource s)).1⟩ := by
  induction calls generalizing d with
  | nil => rfl
  | cons c calls ih =>
    obtain ⟨hanswer, hafter⟩ := run_consistent names c hd
    rw [answers, List.map_cons, hanswer, ih hafter]

/-- The stores of a directory cannot be observed: whatever calls are made on it one after the other,
each of them answers as it does on a directory that has not been called before. -/
theorem answers_eq_fresh {s : Source} (names : s.WellNamed) (calls : List DirectoryCall) :
    answers calls (Directory.ofSource s) =
      calls.map fun c => ⟨c, (c.run (Directory.ofSource s)).1⟩ :=
  answers_consistent names calls (.ofSource s)

section Circular

private def loopSpace : Namespace := ⟨⟨"Loop", by decide⟩, []⟩
private def loopAlias : Identifier := ⟨"L", by decide⟩
private def nodeName : Identifier := ⟨"Node", by decide⟩
private def nodesName : Identifier := ⟨"Nodes", by decide⟩

/-- A model with a defect: its only entity type is its own base type, by way of the alias. -/
def circular : Source :=
  { basicOnly := false
    schemas :=
      [{ space := loopSpace
         aliasName := some loopAlias
         entityTypes :=
           [{ name := nodeName, baseType := some ⟨⟨loopAlias, []⟩, nodeName⟩, isAbstract := false,
              isOpen := false, properties := [], navigationProperties := [], hasStream := false,
              key := [] }]
         complexTypes := []
         enumTypes := []
         typeDefinitions := []
         actions := []
         functions := []
         terms := []
         container := some
           { name := nodesName
             entitySets := [⟨nodesName, ⟨loopSpace, nodeName⟩, [], true⟩]
             singletons := []
             actionImports := []
             functionImports := [] }
         annotations := [] }] }

/-- The type is found defective under both its names and on the way of a request, and the default
container is found under its name before and after it has been asked for without one. -/
theorem answers_circular :
    let calls : List DirectoryCall :=
      [.entityType ⟨⟨loopAlias, []⟩, nodeName⟩, .container (some ⟨loopSpace, nodesName⟩),
        .request .standard "Nodes" none none, .container none,
        .container (some ⟨⟨loopAlias, []⟩, nodesName⟩), .entityType ⟨loopSpace, nodeName⟩]
    circular.WellNamed ∧ answers calls (Directory.ofSource circular) =
      calls.map fun c => ⟨c, (c.run (Directory.ofSource circular)).1⟩ := by
  have names : circular.WellNamed := ⟨by decide, by decide⟩
  exact ⟨names, answers_eq_fresh names _⟩

end Circular

end DirectoryCall

/-! ### Reachable directories -/

/-- The directories that calls on one over the source lead to. A name can also be resolved by itself,
which leaves the table of aliases and nothing else. -/
inductive Directory.Reachable (s : Source) : Directory → Prop
  | fresh : Reachable s (.ofSource s)
  | call {d : Directory} (c : DirectoryCall) (h : Reachable s d) : Reachable s (c.run d).2
  | resolveNamespace {d : Directory} (space : Namespace) (h : Reachable s d) :
      Reachable s ((resolveNamespace space).runOn d).2
  | resolveAlias {d : Directory} (name : QualifiedName) (h : Reachable s d) :
      Reachable s ((resolveAlias name).runOn d).2

theorem Directory.Reachable.consistent {s : Source} {d : Directory} (names : s.WellNamed)
    (h : Reachable s d) : d.Consistent s := by
  induction h with
  | fresh => exact .ofSource s
  | call c _ ih => exact (DirectoryCall.run_consistent names c ih).2
  | resolveNamespace space _ ih => exact (InDirectory.resolveNamespace_settles space _ ih).2
  | resolveAlias name _ ih => exact (InDirectory.resolveAlias_settles name _ ih).2

theorem Directory.Reachable.after {s : Source} {d : Directory} (h : Reachable s d)
    (calls : List DirectoryCall) : Reachable s (DirectoryCall.after calls d) := by
  induction calls generalizing d with
  | nil => exact h
  | cons c calls ih => exact ih (h.call c)

end ODataRequest
