import ODataRequest.Proofs.Directory.Names
import ODataRequest.Proofs.Token.Name

/-!
# ODataRequest.Proofs.Directory.Unaliased

Sources without aliases in their references. `Source.unaliased` writes every reference of a source
with the namespace that it stands for; the aliases themselves stay declared, and so do the names of
elements and the underlying types of enumerations and type definitions. The two sources declare the
same namespaces and aliases, and answer requests with the same elements, up to their references
(`Source.find?_unaliased` and the lemmas after it).
-/

namespace ODataRequest

/-! ### References -/

/-- A reference, redirected. -/
def TypeReference.redirect (f : QualifiedName → QualifiedName) (t : TypeReference) : TypeReference :=
  { t with name := f t.name }

namespace Csdl

variable (f : QualifiedName → QualifiedName)

/-- A structural property with its type redirected. -/
def Property.redirect (p : Property) : Property :=
  { p with type := p.type.redirect f }

/-- A navigation property with its type redirected. -/
def NavigationProperty.redirect (p : NavigationProperty) : NavigationProperty :=
  { p with type := p.type.redirect f }

/-- A structured type with its base type and the types of its properties redirected. -/
def StructuredType.redirect (t : StructuredType) : StructuredType :=
  { t with
    baseType := t.baseType.map f
    properties := t.properties.map (·.redirect f)
    navigationProperties := t.navigationProperties.map (·.redirect f) }

/-- An entity type with the references of its structure redirected. -/
def EntityType.redirect (t : EntityType) : EntityType :=
  { t with toStructuredType := t.toStructuredType.redirect f }

/-- A term with its type and its base term redirected. -/
def Term.redirect (t : Term) : Term :=
  { t with type := t.type.redirect f, baseTerm := t.baseTerm.map f }

/-- An annotation with its term redirected. -/
def Annotation.redirect (a : Annotation) : Annotation :=
  { a with term := f a.term }

/-- Annotations with their terms redirected, and with their target if it is a qualified name. -/
def AnnotationGroup.redirect (g : AnnotationGroup) : AnnotationGroup :=
  { g with
    target := ((QualifiedName.ofString? g.target).map fun name => (f name).text).getD g.target
    annotations := g.annotations.map (·.redirect f) }

/-- A parameter with its type redirected. -/
def Parameter.redirect (p : Parameter) : Parameter :=
  { p with type := p.type.redirect f }

/-- A result with its type redirected. -/
def ReturnType.redirect (r : ReturnType) : ReturnType :=
  { r with type := r.type.redirect f }

/-- An action with the types of its parameters and of its result redirected. -/
def Action.redirect (a : Action) : Action :=
  { a with
    parameters := a.parameters.map (·.redirect f)
    returnType := a.returnType.map (·.redirect f) }

/-- A function with the types of its parameters and of its result redirected. -/
def Function.redirect (g : Function) : Function :=
  { g with
    parameters := g.parameters.map (·.redirect f)
    returnType := g.returnType.redirect f }

/-- An entity set with its type redirected. -/
def EntitySet.redirect (e : EntitySet) : EntitySet :=
  { e with entityType := f e.entityType }

/-- A singleton with its type redirected. -/
def Singleton.redirect (e : Singleton) : Singleton :=
  { e with entityType := f e.entityType }

/-- An action import with its action redirected. -/
def ActionImport.redirect (i : ActionImport) : ActionImport :=
  { i with action := f i.action }

/-- A function import with its function redirected. -/
def FunctionImport.redirect (i : FunctionImport) : FunctionImport :=
  { i with function := f i.function }

/-- A container with the references of its elements redirected. -/
def Container.redirect (c : Container) : Container :=
  { c with
    entitySets := c.entitySets.map (·.redirect f)
    singletons := c.singletons.map (·.redirect f)
    actionImports := c.actionImports.map (·.redirect f)
    functionImports := c.functionImports.map (·.redirect f) }

/-- A schema with the references of its elements redirected. -/
def Schema.redirect (schema : Schema) : Schema :=
  { schema with
    entityTypes := schema.entityTypes.map (·.redirect f)
    complexTypes := schema.complexTypes.map (·.redirect f)
    actions := schema.actions.map (·.redirect f)
    functions := schema.functions.map (·.redirect f)
    terms := schema.terms.map (·.redirect f)
    container := schema.container.map (·.redirect f)
    annotations := schema.annotations.map (·.redirect f) }

end Csdl

namespace Source

/-- The source with the real namespace in each of its references. -/
def unaliased (s : Source) : Source :=
  { s with schemas := s.schemas.map (·.redirect s.actualName) }

variable {s : Source}

/-! ### Names -/

@[simp] theorem aliasPairs_unaliased : s.unaliased.aliasPairs = s.aliasPairs := by
  unfold aliasPairs unaliased
  rw [List.filterMap_map]
  rfl

@[simp] theorem realSpace_unaliased : s.unaliased.realSpace = s.realSpace := by
  funext space
  unfold realSpace
  rw [aliasPairs_unaliased]

@[simp] theorem realName_unaliased : s.unaliased.realName = s.realName := by
  funext name
  unfold realName
  rw [realSpace_unaliased]

@[simp] theorem actualName_unaliased : s.unaliased.actualName = s.actualName := by
  funext name
  unfold actualName
  rw [realName_unaliased]

theorem spaces_unaliased : s.unaliased.spaces = s.spaces := by
  unfold spaces unaliased
  rw [List.map_map]
  rfl

theorem aliasSpaces_unaliased : s.unaliased.aliasSpaces = s.aliasSpaces := by
  unfold aliasSpaces unaliased
  rw [List.filterMap_map]
  rfl

theorem WellNamed.unaliased (names : s.WellNamed) : s.unaliased.WellNamed where
  distinct := by
    rw [spaces_unaliased, aliasSpaces_unaliased]
    exact names.distinct
  notEdm := by
    rw [spaces_unaliased, aliasSpaces_unaliased]
    exact names.notEdm

theorem chainBound_unaliased : s.unaliased.chainBound = s.chainBound := by
  unfold chainBound unaliased
  simp only [List.foldr_map, List.length_map, Csdl.Schema.redirect]

/-- The real name of a name whose alias has been replaced already. -/
theorem WellNamed.realName_actualName (names : s.WellNamed) (name : QualifiedName) :
    s.realName (s.actualName name) = s.realName name := by
  rw [names.realName_eq_actualName, names.realName_eq_actualName, names.actualName_actualName]

/-! ### Requests -/

theorem schema?_unaliased (space : Namespace) :
    s.unaliased.schema? space = (s.schema? space).map (·.redirect s.actualName) := by
  unfold schema?
  rw [realSpace_unaliased]
  show (s.schemas.map _).reverse.find? _ = _
  rw [← List.map_reverse, List.find?_map]
  rfl

/-- Elements that are redirected one by one are found under the same names. -/
theorem find?_unaliased {α : Type} (items : Csdl.Schema → List α) (nameOf : α → Identifier)
    {g : α → α} (hitems : ∀ schema, items (schema.redirect s.actualName) = (items schema).map g)
    (hname : ∀ item, nameOf (g item) = nameOf item) (name : QualifiedName) :
    s.unaliased.find? items nameOf name = (s.find? items nameOf name).map g := by
  unfold find?
  rw [schema?_unaliased]
  cases s.schema? name.space with
  | none => rfl
  | some schema =>
    simp only [Option.map_some, Option.bind_some, hitems, List.find?_map, Function.comp_def, hname]

theorem findAll_unaliased {α : Type} (items : Csdl.Schema → List α) (nameOf : α → Identifier)
    {g : α → α} (hitems : ∀ schema, items (schema.redirect s.actualName) = (items schema).map g)
    (hname : ∀ item, nameOf (g item) = nameOf item) (name : QualifiedName) :
    s.unaliased.findAll items nameOf name = (s.findAll items nameOf name).map g := by
  unfold findAll
  rw [schema?_unaliased]
  cases s.schema? name.space with
  | none => rfl
  | some schema =>
    simp only [Option.map_some, hitems, List.filter_map, Function.comp_def, hname]

theorem containerOf?_redirect (schema : Csdl.Schema) (f : QualifiedName → QualifiedName) :
    containerOf? (schema.redirect f) =
      (containerOf? schema).map fun found => (found.1, found.2.redirect f) := by
  unfold containerOf? Csdl.Schema.redirect
  cases schema.container <;> rfl

theorem container?_unaliased (name : Option QualifiedName) :
    s.unaliased.container? name =
      (s.container? name).map fun found => (found.1, found.2.redirect s.actualName) := by
  cases name with
  | none =>
    show (s.schemas.map _).findSome? containerOf? = (s.schemas.findSome? containerOf?).map _
    rw [List.findSome?_map, List.map_findSome?]
    exact congrArg (fun find => s.schemas.findSome? find)
      (funext fun schema => containerOf?_redirect schema s.actualName)
  | some name =>
    dsimp only [container?]
    rw [schema?_unaliased]
    cases s.schema? name.space with
    | none => rfl
    | some schema =>
      show (containerOf? (schema.redirect s.actualName)).bind _ =
        ((containerOf? schema).bind _).map _
      rw [containerOf?_redirect]
      cases containerOf? schema with
      | none => rfl
      | some found =>
        by_cases hname : found.1.name = name.name <;> simp [hname]

theorem targets_redirect (names : s.WellNamed) (target : QualifiedName) (g : Csdl.AnnotationGroup) :
    s.unaliased.targets target (g.redirect s.actualName) = s.targets target g := by
  unfold targets Csdl.AnnotationGroup.redirect
  cases htarget : QualifiedName.ofString? g.target with
  | none => simp [htarget]
  | some name =>
    simp [QualifiedName.ofString?_text, names.realName_actualName]

theorem annotations?_unaliased (names : s.WellNamed) (target : QualifiedName)
    (qualifier : Option String) :
    s.unaliased.annotations? target qualifier =
      (s.annotations? target qualifier).map (·.redirect s.actualName) := by
  have hall : s.unaliased.schemas.flatMap (·.annotations) =
      (s.schemas.flatMap (·.annotations)).map (·.redirect s.actualName) := by
    show (s.schemas.map _).flatMap _ = _
    rw [List.flatMap_map, List.map_flatMap]
    rfl
  unfold annotations?
  rw [hall, List.find?_map]
  simp only [Function.comp_def, targets_redirect names]
  rfl

theorem derivations_redirect (schema : Csdl.Schema) (f : QualifiedName → QualifiedName) :
    derivations (schema.redirect f) = (derivations schema).map fun d => (f d.1, d.2) := by
  have htypes : (schema.redirect f).entityTypes.map (·.toStructuredType) ++
        (schema.redirect f).complexTypes =
      (schema.entityTypes.map (·.toStructuredType) ++ schema.complexTypes).map (·.redirect f) := by
    rw [List.map_append, List.map_map]
    show (schema.entityTypes.map _).map _ ++ _ = _
    rw [List.map_map]
    rfl
  unfold derivations
  rw [htypes, List.filterMap_map, List.map_filterMap]
  refine congrArg (fun g => List.filterMap g _) (funext fun t => ?_)
  show (t.baseType.map f).map _ = (t.baseType.map _).map _
  rw [Option.map_map, Option.map_map]
  rfl

theorem derivedTypes_unaliased (names : s.WellNamed) (base : QualifiedName) :
    s.unaliased.derivedTypes base = s.derivedTypes base := by
  have hall : s.unaliased.schemas.flatMap derivations =
      (s.schemas.flatMap derivations).map fun d => (s.actualName d.1, d.2) := by
    show (s.schemas.map _).flatMap _ = _
    rw [List.flatMap_map, List.map_flatMap]
    exact congrArg (fun f => s.schemas.flatMap f)
      (funext fun schema => derivations_redirect schema s.actualName)
  unfold derivedTypes
  rw [hall, List.filter_map, List.map_map, realName_unaliased]
  simp only [Function.comp_def, names.realName_actualName]

end Source

/-- An answer with its references redirected. -/
def SourceRequest.redirect (f : QualifiedName → QualifiedName) :
    (r : SourceRequest) → r.Answer → r.Answer
  | .schemas, all => all.map (·.redirect f)
  | .aliases, all => all
  | .schema _, found => found.map (·.redirect f)
  | .entityType _, found => found.map (·.redirect f)
  | .complexType _, found => found.map (·.redirect f)
  | .enumType _, found => found
  | .typeDefinition _, found => found
  | .term _, found => found.map (·.redirect f)
  | .container _, found => found.map fun c => (c.1, c.2.redirect f)
  | .annotations _ _, found => found.map (·.redirect f)
  | .actions _, found => found.map (·.redirect f)
  | .functions _, found => found.map (·.redirect f)
  | .derivedTypes _, found => found

/-- Requests are answered with the same elements, up to their references. -/
theorem Source.answer_unaliased {s : Source} (names : s.WellNamed) (r : SourceRequest) :
    s.unaliased.answer r = r.redirect s.actualName (s.answer r) := by
  have hsame {α : Type} (items : Csdl.Schema → List α) (nameOf : α → Identifier)
      (hitems : ∀ schema, items (schema.redirect s.actualName) = items schema)
      (name : QualifiedName) : s.unaliased.find? items nameOf name = s.find? items nameOf name := by
    have hfind := find?_unaliased items nameOf (g := id)
      (fun schema => by rw [hitems, List.map_id]) (fun _ => rfl) name
    rwa [Option.map_id_apply] at hfind
  cases r with
  | schemas => rfl
  | aliases => exact aliasPairs_unaliased
  | schema space => exact schema?_unaliased space
  | entityType name => exact find?_unaliased (·.entityTypes) (·.name) (fun _ => rfl) (fun _ => rfl) name
  | complexType name => exact find?_unaliased (·.complexTypes) (·.name) (fun _ => rfl) (fun _ => rfl) name
  | enumType name => exact hsame (·.enumTypes) (·.name) (fun _ => rfl) name
  | typeDefinition name => exact hsame (·.typeDefinitions) (·.name) (fun _ => rfl) name
  | term name => exact find?_unaliased (·.terms) (·.name) (fun _ => rfl) (fun _ => rfl) name
  | container name => exact container?_unaliased name
  | annotations target qualifier => exact annotations?_unaliased names target qualifier
  | actions name => exact findAll_unaliased (·.actions) (·.name) (fun _ => rfl) (fun _ => rfl) name
  | functions name => exact findAll_unaliased (·.functions) (·.name) (fun _ => rfl) (fun _ => rfl) name
  | derivedTypes name => exact derivedTypes_unaliased names name

end ODataRequest
