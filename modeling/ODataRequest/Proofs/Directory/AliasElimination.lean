import ODataRequest.Proofs.CallHistory
import ODataRequest.Proofs.Directory.UnaliasedTypes

/-!
# ODataRequest.Proofs.Directory.AliasElimination

Aliases can be eliminated. A source whose references use aliases and the one with the real
namespaces in their place (`Source.unaliased`) cannot be told apart by asking their directories: every
look-up comes to the same on both (`Lookup.answer_eq_unaliased`).
-/

namespace ODataRequest

open InDirectory

variable {s : Source}

/-! ### Terms, annotations and containers -/

theorem resolveTerm_unaliased (names : s.WellNamed) (name : QualifiedName) (t : Csdl.Term) :
    SameResult s s.unaliased (resolveTerm name t) (resolveTerm name (t.redirect s.actualName)) := by
  refine (resolveReference_unaliased names t.type).bind fun type => ?_
  refine (SameResult.optionMapM_map (fun base => resolveAlias_unaliased ?_) t.baseTerm).bind
    fun base => .pure _
  exact (names.actualName_actualName base).symm

theorem term_unaliased (names : s.WellNamed) {name name' : QualifiedName}
    (h : s.actualName name = s.actualName name') :
    SameResult s s.unaliased (term name) (term name') := by
  refine (resolveAlias_unaliased h).bind fun real => ?_
  refine .remembered (termStore_keeps s) (termStore_keeps _) (fun _ => Iff.rfl) (fun _ => Iff.rfl) ?_
  exact .bind_ask names (.term real) (.optionMapM_map (fun t => resolveTerm_unaliased names real t) _)

theorem resolveAnnotation_unaliased (names : s.WellNamed) (a : Csdl.Annotation) :
    SameResult s s.unaliased ( resolveAnnotation a) ( resolveAnnotation (a.redirect s.actualName)) :=
  (resolveAlias_unaliased (names.actualName_actualName a.term).symm).bind fun _ => .pure _

theorem annotationGroup_unaliased (names : s.WellNamed) {target target' : QualifiedName}
    (h : s.actualName target = s.actualName target') (qualifier : Option String) :
    SameResult s s.unaliased (annotationGroup target qualifier) (annotationGroup target' qualifier) := by
  refine (resolveAlias_unaliased h).bind fun real => ?_
  refine .remembered (annotationStore_keeps s) (annotationStore_keeps _) (fun _ => Iff.rfl)
    (fun _ => Iff.rfl) ?_
  refine .bind_ask names (.annotations real qualifier) (.optionMapM_map (fun g => ?_) _)
  exact (SameResult.mapM_map (fun a => resolveAnnotation_unaliased names a) g.annotations).bind
    fun annotations => .pure _

theorem resolveContainer_unaliased (names : s.WellNamed) (name : QualifiedName) (c : Csdl.Container) :
    SameResult s s.unaliased (resolveContainer name c)
      (resolveContainer name (c.redirect s.actualName)) := by
  have hname (name : QualifiedName) := (names.actualName_actualName name).symm
  refine (SameResult.mapM_map (fun e => ?_) c.entitySets).bind fun entitySets => ?_
  · exact (resolveAlias_unaliased (hname e.entityType)).bind fun type => .pure _
  refine (SameResult.mapM_map (fun e => ?_) c.singletons).bind fun singletons => ?_
  · exact (resolveAlias_unaliased (hname e.entityType)).bind fun type => .pure _
  refine (SameResult.mapM_map (fun i => ?_) c.actionImports).bind fun actionImports => ?_
  · exact (resolveAlias_unaliased (hname i.action)).bind fun action => .pure _
  refine (SameResult.mapM_map (fun i => ?_) c.functionImports).bind fun functionImports => .pure _
  exact (resolveAlias_unaliased (hname i.function)).bind fun function => .pure _

theorem resolvedContainer_unaliased (names : s.WellNamed) (name : Option QualifiedName) :
    resolvedContainer s.unaliased name = resolvedContainer s name := by
  unfold resolvedContainer
  rw [Source.container?_unaliased]
  cases s.container? name with
  | none => rfl
  | some found =>
    have hsame := (resolveContainer_unaliased names found.1 found.2).result_eq
    simp only [Option.map_some, hsame]

theorem containerNamed_unaliased (names : s.WellNamed) {name name' : QualifiedName}
    (h : s.actualName name = s.actualName name') :
    SameResult s s.unaliased (containerNamed name) (containerNamed name') :=
  .of_settles (containerNamed_settles name) (containerNamed_settles name')
    (by rw [resolvedContainer_unaliased names, Source.actualName_unaliased, h])

theorem container_unaliased (names : s.WellNamed) (name : Option QualifiedName) :
    SameResult s s.unaliased (container name) (container (name.map s.actualName)) := by
  cases name with
  | none =>
    exact .of_settles (container_none_settles names) (container_none_settles names.unaliased)
      (resolvedContainer_unaliased names none).symm
  | some name =>
    exact .of_settles (container_some_settles name) (container_some_settles (s.actualName name))
      (by rw [resolvedContainer_unaliased names, Source.actualName_unaliased,
        names.actualName_actualName])

/-! ### Operations -/

theorem requireBindingParameter_unaliased (name : QualifiedName) (o o' : Csdl.Operation)
    (hbound : o'.isBound = o.isBound)
    (hparameters : o'.parameters = o.parameters.map (·.redirect s.actualName)) :
    SameResult s s.unaliased (requireBindingParameter name o) (requireBindingParameter name o') := by
  unfold requireBindingParameter
  rw [hbound, hparameters, List.isEmpty_map]
  split
  · exact .throw _
  · exact .pure _

theorem resolveParameters_unaliased (names : s.WellNamed) (parameters : List Csdl.Parameter) :
    SameResult s s.unaliased (parameters.mapM resolveParameter)
      ((parameters.map (·.redirect s.actualName)).mapM resolveParameter) :=
  .mapM_map (fun p => (resolveReference_unaliased names p.type).bind fun _ => .pure _) parameters

theorem resolveReturnType_unaliased (names : s.WellNamed) (r : Csdl.ReturnType) :
    SameResult s s.unaliased (resolveReturnType r) (resolveReturnType (r.redirect s.actualName)) :=
  (resolveReference_unaliased names r.type).bind fun _ => .pure _

theorem resolveAction_unaliased (names : s.WellNamed) (name : QualifiedName) (a : Csdl.Action) :
    SameResult s s.unaliased (resolveAction name a) (resolveAction name (a.redirect s.actualName)) := by
  refine (requireBindingParameter_unaliased name a.toOperation (a.redirect s.actualName).toOperation
    rfl rfl).bind fun _ => ?_
  refine (SameResult.optionMapM_map (resolveReturnType_unaliased names) a.returnType).bind
    fun returnType => ?_
  exact (resolveParameters_unaliased names a.parameters).bind fun parameters => .pure _

theorem resolveFunction_unaliased (names : s.WellNamed) (name : QualifiedName) (f : Csdl.Function) :
    SameResult s s.unaliased (resolveFunction name f)
      (resolveFunction name (f.redirect s.actualName)) := by
  refine (requireBindingParameter_unaliased name f.toOperation (f.redirect s.actualName).toOperation
    rfl rfl).bind fun _ => ?_
  refine (resolveReturnType_unaliased names f.returnType).bind fun returnType => ?_
  exact (resolveParameters_unaliased names f.parameters).bind fun parameters => .pure _

namespace OperationFamily

variable {α : Type} {family : OperationFamily α}

/-- The overloads of a name are resolved in the same way for both sources. -/
structure Unaliases (family : OperationFamily α) (s : Source) : Prop where
  lawful : family.Lawful s
  lawful' : family.Lawful s.unaliased
  load : ∀ name, SameResult s s.unaliased (family.load name) (family.load name)

theorem named_unaliased (unaliases : family.Unaliases s) (name : QualifiedName) :
    SameResult s s.unaliased (family.named name) (family.named name) :=
  .of_settles (named_settles unaliases.lawful name) (named_settles unaliases.lawful' name)
    (unaliases.load name).result_eq

theorem ofKey_unaliased (unaliases : family.Unaliases s) (key : OverloadKey) :
    SameResult s s.unaliased (family.ofKey key) (family.ofKey key) :=
  .of_settles (ofKey_settles unaliases.lawful key) (ofKey_settles unaliases.lawful' key)
    (by rw [(unaliases.load key.name).result_eq])

end OperationFamily

theorem distinctOverloads_unaliased {α : Type} (keyOf : α → OverloadKey) (overloads : List α) :
    SameResult s s.unaliased (distinctOverloads keyOf overloads) (distinctOverloads keyOf overloads) := by
  unfold distinctOverloads
  split
  · exact .throw _
  · exact .pure _

theorem actionFamily_unaliases (names : s.WellNamed) : actionFamily.Unaliases s where
  lawful := actionFamily_lawful s
  lawful' := actionFamily_lawful s.unaliased
  load name := by
    refine .bind_ask names (.actions name) (.inContext _ ?_)
    exact (SameResult.mapM_map (resolveAction_unaliased names name) _).bind
      (distinctOverloads_unaliased Action.key)

theorem functionFamily_unaliases (names : s.WellNamed) : functionFamily.Unaliases s where
  lawful := functionFamily_lawful s
  lawful' := functionFamily_lawful s.unaliased
  load name := by
    refine .bind_ask names (.functions name) (.inContext _ ?_)
    exact (SameResult.mapM_map (resolveFunction_unaliased names name) _).bind
      (distinctOverloads_unaliased Function.key)

theorem baseTypeName_unaliased (names : s.WellNamed) (name : QualifiedName) :
    SameResult s s.unaliased (baseTypeName name) (baseTypeName name) := by
  refine (entityType_unaliased names rfl).bind fun entity => ?_
  cases entity with
  | some t => exact .pure _
  | none => exact (complexType_unaliased names rfl).bind fun complex => .pure _

theorem nearestOverload_unaliased {α : Type} {find : OverloadKey → InDirectory (Option α)}
    (names : s.WellNamed) (hfind : ∀ key, SameResult s s.unaliased (find key) (find key))
    (bound : Nat) (key : OverloadKey) :
    SameResult s s.unaliased (nearestOverload find bound key) (nearestOverload find bound key) := by
  induction bound generalizing key with
  | zero =>
    unfold nearestOverload
    refine (hfind key).bind fun found => ?_
    cases found with
    | some o => exact .pure _
    | none => exact .pure _
  | succ bound ih =>
    unfold nearestOverload
    refine (hfind key).bind fun found => ?_
    cases found with
    | some o => exact .pure _
    | none =>
      cases key.binding with
      | none => exact .pure _
      | some binding =>
        refine (baseTypeName_unaliased names binding.type).bind fun base => ?_
        cases base with
        | none => exact .pure _
        | some base => exact ih (key.rebind base)

theorem unboundAction_unaliased (names : s.WellNamed) {name name' : QualifiedName}
    (h : s.actualName name = s.actualName name') :
    SameResult s s.unaliased (unboundAction name) (unboundAction name') :=
  (resolveAlias_unaliased h).bind fun _ =>
    OperationFamily.ofKey_unaliased (actionFamily_unaliases names) _

theorem unboundFunction_unaliased (names : s.WellNamed) {name name' : QualifiedName}
    (h : s.actualName name = s.actualName name') (parameters : List String) :
    SameResult s s.unaliased (unboundFunction name parameters) (unboundFunction name' parameters) :=
  (resolveAlias_unaliased h).bind fun _ =>
    OperationFamily.ofKey_unaliased (functionFamily_unaliases names) _

/-- The search starts from the same key and has the same bound. -/
theorem boundSearch_unaliased {α : Type} {family : OperationFamily α} (names : s.WellNamed)
    (unaliases : family.Unaliases s) (keyFor : QualifiedName → Binding → OverloadKey)
    (name : QualifiedName) (b : Binding) :
    (nearestOverload family.ofKey s.chainBound
        (keyFor (s.actualName name) { b with type := s.actualName b.type })).result s =
      (nearestOverload family.ofKey s.unaliased.chainBound
        (keyFor (s.unaliased.actualName (s.actualName name))
          { b with type := s.unaliased.actualName (s.actualName b.type) })).result s.unaliased := by
  rw [Source.actualName_unaliased, names.actualName_actualName, names.actualName_actualName,
    Source.chainBound_unaliased]
  exact (nearestOverload_unaliased names (OperationFamily.ofKey_unaliased unaliases) _ _).result_eq

theorem boundAction_unaliased (names : s.WellNamed) (name : QualifiedName) (b : Binding) :
    SameResult s s.unaliased (boundAction name b)
      (boundAction (s.actualName name) { b with type := s.actualName b.type }) :=
  .of_settles (boundAction_settles name b) (boundAction_settles _ _)
    (boundSearch_unaliased names (actionFamily_unaliases names)
      (fun name b => .action name (some b)) name b)

theorem boundFunction_unaliased (names : s.WellNamed) (name : QualifiedName) (b : Binding)
    (parameters : List String) :
    SameResult s s.unaliased (boundFunction name b parameters)
      (boundFunction (s.actualName name) { b with type := s.actualName b.type } parameters) :=
  .of_settles (boundFunction_settles name b parameters)
    (boundFunction_settles _ _ parameters)
    (boundSearch_unaliased names (functionFamily_unaliases names)
      (fun name b => .function name (some b) parameters) name b)

theorem unboundFunctions_unaliased (names : s.WellNamed) {name name' : QualifiedName}
    (h : s.actualName name = s.actualName name') :
    SameResult s s.unaliased (unboundFunctions name) (unboundFunctions name') := by
  refine .of_settles (unboundFunctions_settles name) (unboundFunctions_settles name') ?_
  rw [Source.actualName_unaliased, h, ((functionFamily_unaliases names).load _).result_eq]

/-! ### Schemas -/

/-- The names of elements are not redirected with their references, so the same ones are looked up. -/
theorem elementsOf_unaliased {α : Type} {find : QualifiedName → InDirectory (Option α)}
    (hfind : ∀ {name name'}, s.actualName name = s.actualName name' →
      SameResult s s.unaliased (find name) (find name'))
    {keys keys' : List QualifiedName} (hkeys : keys' = keys) :
    SameResult s s.unaliased (elementsOf find keys) (elementsOf find keys') := by
  rw [hkeys]
  exact (SameResult.mapM (fun _ => hfind rfl) keys).bind fun _ => .pure _

theorem namedOverloads_unaliased {α : Type} {family : OperationFamily α}
    (unaliases : family.Unaliases s) (space : Namespace) {ids ids' : List Identifier}
    (hids : ids' = ids) :
    SameResult s s.unaliased
      ((distinctAscending ids).mapM fun id => family.named ⟨space, id⟩)
      ((distinctAscending ids').mapM fun id => family.named ⟨space, id⟩) := by
  rw [hids]
  exact .mapM (fun _ => OperationFamily.named_unaliased unaliases _) _

theorem namedTargets_redirect (groups : List Csdl.AnnotationGroup)
    (f : QualifiedName → QualifiedName) :
    namedTargets (groups.map (·.redirect f)) = (namedTargets groups).map fun t => (f t.1, t.2) := by
  unfold namedTargets
  rw [List.filterMap_map, List.map_filterMap]
  refine congrArg (fun g => List.filterMap g groups) (funext fun group => ?_)
  cases htarget : QualifiedName.ofString? group.target with
  | none => simp [Csdl.AnnotationGroup.redirect, htarget]
  | some name => simp [Csdl.AnnotationGroup.redirect, htarget, QualifiedName.ofString?_text]

theorem declaredContainer_unaliased (names : s.WellNamed) (declared : Csdl.Schema) :
    SameResult s s.unaliased (declaredContainer declared)
      (declaredContainer (declared.redirect s.actualName)) := by
  unfold declaredContainer Csdl.Schema.redirect
  cases declared.container with
  | none => exact .pure none
  | some c => exact containerNamed_unaliased names rfl

theorem annotationGroups_unaliased (names : s.WellNamed) (groups : List Csdl.AnnotationGroup) :
    SameResult s s.unaliased
      (elementsOf (fun t => annotationGroup t.1 t.2) (namedTargets groups))
      (elementsOf (fun t => annotationGroup t.1 t.2)
        (namedTargets (groups.map (·.redirect s.actualName)))) := by
  rw [namedTargets_redirect]
  refine (SameResult.mapM_map (fun t => ?_) _).bind fun _ => .pure _
  exact annotationGroup_unaliased names (names.actualName_actualName t.1).symm t.2

theorem resolveSchema_unaliased (names : s.WellNamed) (declared : Csdl.Schema) :
    SameResult s s.unaliased (resolveSchema declared)
      (resolveSchema (declared.redirect s.actualName)) := by
  unfold resolveSchema
  refine (elementsOf_unaliased (entityType_unaliased names) ?_).bind fun entityTypes => ?_
  · exact List.map_map
  refine (elementsOf_unaliased (complexType_unaliased names) ?_).bind fun complexTypes => ?_
  · exact List.map_map
  refine (elementsOf_unaliased (enumType_unaliased names) rfl).bind fun enumTypes => ?_
  refine (elementsOf_unaliased (typeDefinition_unaliased names) rfl).bind fun typeDefinitions => ?_
  refine (elementsOf_unaliased (term_unaliased names) ?_).bind fun terms => ?_
  · exact List.map_map
  refine (namedOverloads_unaliased (actionFamily_unaliases names) declared.space ?_).bind
    fun actions => ?_
  · exact List.map_map
  refine (namedOverloads_unaliased (functionFamily_unaliases names) declared.space ?_).bind
    fun functions => ?_
  · exact List.map_map
  refine (declaredContainer_unaliased names declared).bind fun container => ?_
  exact (annotationGroups_unaliased names declared.annotations).bind fun annotations => .pure _

theorem declaredSchema?_unaliased (space : Namespace) :
    s.unaliased.declaredSchema? space =
      (s.declaredSchema? space).map (·.redirect s.actualName) := by
  unfold Source.declaredSchema?
  show (if s.basicOnly = true then _ else _) = _
  split
  · show (s.schemas.map _).find? _ = _
    rw [List.find?_map]
    rfl
  · exact Source.schema?_unaliased space

theorem schema_unaliased (names : s.WellNamed) {space space' : Namespace}
    (h : s.realSpace space = s.realSpace space') :
    SameResult s s.unaliased (schema space) (schema space') := by
  refine (resolveNamespace_unaliased h).bind fun real => ?_
  refine .remembered (schemaStore_keeps s) (schemaStore_keeps _) (fun _ => Iff.rfl)
    (fun _ => Iff.rfl) ?_
  refine .bind_settles (askSchema_settles real) (askSchema_settles real) ?_
  rw [declaredSchema?_unaliased]
  exact .optionMapM_map (resolveSchema_unaliased names) _

/-! ### Look-ups -/

/-- The look-ups of a directory, by what they give if they do not fail. -/
inductive Lookup : Type → Type
  | resolveNamespace (space : Namespace) : Lookup Namespace
  | resolveAlias (name : QualifiedName) : Lookup QualifiedName
  | schema (space : Namespace) : Lookup (Option Schema)
  | entityType (name : QualifiedName) : Lookup (Option EntityType)
  | complexType (name : QualifiedName) : Lookup (Option StructuredType)
  | enumType (name : QualifiedName) : Lookup (Option EnumType)
  | typeDefinition (name : QualifiedName) : Lookup (Option TypeDefinition)
  | term (name : QualifiedName) : Lookup (Option Term)
  | annotationGroup (target : QualifiedName) (qualifier : Option String) :
    Lookup (Option AnnotationGroup)
  | container (name : Option QualifiedName) : Lookup (Option Container)
  | unboundAction (name : QualifiedName) : Lookup (Option Action)
  | boundAction (name : QualifiedName) (b : Binding) : Lookup (Option Action)
  | unboundFunctions (name : QualifiedName) : Lookup (List Function)
  | unboundFunction (name : QualifiedName) (parameters : List String) : Lookup (Option Function)
  | boundFunction (name : QualifiedName) (b : Binding) (parameters : List String) :
    Lookup (Option Function)
  | resolveType (name : QualifiedName) : Lookup (Option ModelType)
  | derivedTypes (name : QualifiedName) : Lookup (List QualifiedName)

namespace Lookup

variable {α : Type}

/-- The computation that a look-up is. -/
def ask : Lookup α → InDirectory α
  | .resolveNamespace space => ODataRequest.resolveNamespace space
  | .resolveAlias name => ODataRequest.resolveAlias name
  | .schema space => ODataRequest.schema space
  | .entityType name => ODataRequest.entityType name
  | .complexType name => ODataRequest.complexType name
  | .enumType name => ODataRequest.enumType name
  | .typeDefinition name => ODataRequest.typeDefinition name
  | .term name => ODataRequest.term name
  | .annotationGroup target qualifier => ODataRequest.annotationGroup target qualifier
  | .container name => ODataRequest.container name
  | .unboundAction name => ODataRequest.unboundAction name
  | .boundAction name b => ODataRequest.boundAction name b
  | .unboundFunctions name => ODataRequest.unboundFunctions name
  | .unboundFunction name parameters => ODataRequest.unboundFunction name parameters
  | .boundFunction name b parameters => ODataRequest.boundFunction name b parameters
  | .resolveType name => ODataRequest.resolveType name
  | .derivedTypes name => ODataRequest.derivedTypes name

/-- The same look-up with the real namespaces in its names. -/
def unaliased (s : Source) : Lookup α → Lookup α
  | .resolveNamespace space => .resolveNamespace (s.realSpace space)
  | .resolveAlias name => .resolveAlias (s.actualName name)
  | .schema space => .schema (s.realSpace space)
  | .entityType name => .entityType (s.actualName name)
  | .complexType name => .complexType (s.actualName name)
  | .enumType name => .enumType (s.actualName name)
  | .typeDefinition name => .typeDefinition (s.actualName name)
  | .term name => .term (s.actualName name)
  | .annotationGroup target qualifier => .annotationGroup (s.actualName target) qualifier
  | .container name => .container (name.map s.actualName)
  | .unboundAction name => .unboundAction (s.actualName name)
  | .boundAction name b => .boundAction (s.actualName name) { b with type := s.actualName b.type }
  | .unboundFunctions name => .unboundFunctions (s.actualName name)
  | .unboundFunction name parameters => .unboundFunction (s.actualName name) parameters
  | .boundFunction name b parameters =>
    .boundFunction (s.actualName name) { b with type := s.actualName b.type } parameters
  | .resolveType name => .resolveType (s.actualName name)
  | .derivedTypes name => .derivedTypes (s.actualName name)

theorem ask_unaliased (names : s.WellNamed) (l : Lookup α) :
    SameResult s s.unaliased l.ask (l.unaliased s).ask := by
  have hspace (space : Namespace) := (names.realSpace_realSpace space).symm
  have hname (name : QualifiedName) := (names.actualName_actualName name).symm
  cases l with
  | resolveNamespace space => exact resolveNamespace_unaliased (hspace space)
  | resolveAlias name => exact resolveAlias_unaliased (hname name)
  | schema space => exact schema_unaliased names (hspace space)
  | entityType name => exact entityType_unaliased names (hname name)
  | complexType name => exact complexType_unaliased names (hname name)
  | enumType name => exact enumType_unaliased names (hname name)
  | typeDefinition name => exact typeDefinition_unaliased names (hname name)
  | term name => exact term_unaliased names (hname name)
  | annotationGroup target qualifier => exact annotationGroup_unaliased names (hname target) qualifier
  | container name => exact container_unaliased names name
  | unboundAction name => exact unboundAction_unaliased names (hname name)
  | boundAction name b => exact boundAction_unaliased names name b
  | unboundFunctions name => exact unboundFunctions_unaliased names (hname name)
  | unboundFunction name parameters => exact unboundFunction_unaliased names (hname name) parameters
  | boundFunction name b parameters => exact boundFunction_unaliased names name b parameters
  | resolveType name => exact resolveType_unaliased names (hname name)
  | derivedTypes name => exact derivedTypes_unaliased names (hname name)

/-- A look-up on a directory gives the same as the one with real namespaces gives on a directory over
the source with real namespaces, whatever the two directories have been asked before. -/
theorem answer_eq_unaliased (names : s.WellNamed) (l : Lookup α) {d d' : Directory}
    (reachable : d.Reachable s) (reachable' : d'.Reachable s.unaliased) :
    (l.ask.runOn d).1 = ((l.unaliased s).ask.runOn d').1 :=
  (ask_unaliased names l).runOn_eq (reachable.consistent names)
    (reachable'.consistent names.unaliased)

end Lookup

section Theatre

private def stageSpace : Namespace := ⟨⟨"Stage", by decide⟩, []⟩
private def stageAlias : Identifier := ⟨"S", by decide⟩
private def play : Identifier := ⟨"Play", by decide⟩
private def comedy : Identifier := ⟨"Comedy", by decide⟩
private def laughs : Identifier := ⟨"Laughs", by decide⟩
private def label : Identifier := ⟨"Label", by decide⟩

private def byStage (name : Identifier) : QualifiedName := ⟨⟨stageAlias, []⟩, name⟩
private def onStage (name : Identifier) : QualifiedName := ⟨stageSpace, name⟩

private def playType (name : Identifier) (baseType : Option QualifiedName) : Csdl.EntityType :=
  { name, baseType, isAbstract := false, isOpen := false, properties := [],
    navigationProperties := [], hasStream := false, key := [] }

/-- A model in which comedies are plays, by way of the alias, and are annotated under it, and in which
they are asked how many laughs they get. -/
def theatre : Source :=
  { basicOnly := false
    schemas :=
      [{ space := stageSpace
         aliasName := some stageAlias
         entityTypes := [playType play none, playType comedy (some (byStage play))]
         complexTypes := []
         enumTypes := []
         typeDefinitions := []
         actions := []
         functions :=
           [{ name := laughs, isBound := true, entitySetPath := none, isComposable := false
              parameters := [⟨play, ⟨byStage play, false⟩, false⟩]
              returnType := ⟨⟨(PrimitiveKind.integer .int32).qualifiedName, false⟩, false⟩ }]
         terms := []
         container := none
         annotations := [⟨"S.Comedy", none, [⟨byStage label, none, some "funny", none, none, none⟩]⟩] }] }

/-- The base type is written with its namespace, and nobody who asks for types, functions or annotations
can tell. -/
theorem answer_eq_unaliased_theatre :
    theatre.schemas.flatMap Source.derivations = [(byStage play, onStage comedy)] ∧
      theatre.unaliased.schemas.flatMap Source.derivations = [(onStage play, onStage comedy)] ∧
      ((entityType (byStage comedy)).runOn (Directory.ofSource theatre)).1 =
        ((entityType (onStage comedy)).runOn (Directory.ofSource theatre.unaliased)).1 ∧
      ((annotationGroup (byStage comedy) none).runOn (Directory.ofSource theatre)).1 =
        ((annotationGroup (onStage comedy) none).runOn (Directory.ofSource theatre.unaliased)).1 ∧
      ((boundFunction (byStage laughs) ⟨byStage comedy, false⟩ []).runOn
          (DirectoryCall.after [.entityType (onStage play)] (Directory.ofSource theatre))).1 =
        ((boundFunction (onStage laughs) ⟨onStage comedy, false⟩ []).runOn
          (Directory.ofSource theatre.unaliased)).1 := by
  have names : theatre.WellNamed := ⟨by decide, by decide⟩
  refine ⟨rfl, rfl, ?_, ?_, ?_⟩
  · exact Lookup.answer_eq_unaliased names (.entityType (byStage comedy)) .fresh .fresh
  · exact Lookup.answer_eq_unaliased names (.annotationGroup (byStage comedy) none) .fresh .fresh
  · exact Lookup.answer_eq_unaliased names (.boundFunction (byStage laughs) ⟨byStage comedy, false⟩ [])
      (Directory.Reachable.fresh.call (.entityType (onStage play))) .fresh

end Theatre

end ODataRequest
