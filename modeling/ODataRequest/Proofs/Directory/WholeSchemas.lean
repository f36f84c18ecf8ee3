import ODataRequest.Proofs.CallHistory
import ODataRequest.Proofs.Directory.SchemaElements

/-!
# ODataRequest.Proofs.Directory.WholeSchemas

Whole schemas lose nothing. Asking for a schema fails exactly if looking up one of its elements by
itself does (`ElementFails`); otherwise the schema lists what these look-ups give, in the order of
the declaration, and every overload of its operations, grouped by name (`ListsElements`). Both are
stated for the directory that the schema is asked from, whatever calls have led to it.
-/

namespace ODataRequest

open InDirectory

variable {s : Source}

/-- Looking up an element of a schema fails; an operation is one with all overloads of its name. -/
inductive ElementFails (d : Directory) (declared : Csdl.Schema) : Prop
  | entityType {t : Csdl.EntityType} {e : DirectoryError} (h : t ∈ declared.entityTypes)
      (fails : ((entityType ⟨declared.space, t.name⟩).runOn d).1 = .error e)
  | complexType {t : Csdl.StructuredType} {e : DirectoryError} (h : t ∈ declared.complexTypes)
      (fails : ((complexType ⟨declared.space, t.name⟩).runOn d).1 = .error e)
  | enumType {t : Csdl.EnumType} {e : DirectoryError} (h : t ∈ declared.enumTypes)
      (fails : ((enumType ⟨declared.space, t.name⟩).runOn d).1 = .error e)
  | typeDefinition {t : Csdl.TypeDefinition} {e : DirectoryError} (h : t ∈ declared.typeDefinitions)
      (fails : ((typeDefinition ⟨declared.space, t.name⟩).runOn d).1 = .error e)
  | term {t : Csdl.Term} {e : DirectoryError} (h : t ∈ declared.terms)
      (fails : ((term ⟨declared.space, t.name⟩).runOn d).1 = .error e)
  | actions {a : Csdl.Action} {e : DirectoryError} (h : a ∈ declared.actions)
      (fails : ((actionFamily.named ⟨declared.space, a.name⟩).runOn d).1 = .error e)
  | functions {f : Csdl.Function} {e : DirectoryError} (h : f ∈ declared.functions)
      (fails : ((functionFamily.named ⟨declared.space, f.name⟩).runOn d).1 = .error e)

/-- Each element of a schema is listed as it is found by its name. -/
def ListsEach {α δ : Type} (d : Directory) (space : Namespace)
    (find : QualifiedName → InDirectory (Option α)) (nameOf : δ → Identifier) (items : List δ)
    (listed : List α) : Prop :=
  List.Forall₂ (fun item a => ((find ⟨space, nameOf item⟩).runOn d).1 = .ok (some a)) items listed

/-- A schema lists all that is declared. -/
structure ListsElements (s : Source) (d : Directory) (declared : Csdl.Schema) (listed : Schema) :
    Prop where
  space : listed.space = declared.space
  aliasName : listed.aliasName = declared.aliasName
  entityTypes : ListsEach d declared.space entityType (·.name) declared.entityTypes
    listed.entityTypes
  complexTypes : ListsEach d declared.space complexType (·.name) declared.complexTypes
    listed.complexTypes
  enumTypes : ListsEach d declared.space enumType (·.name) declared.enumTypes listed.enumTypes
  typeDefinitions : ListsEach d declared.space typeDefinition (·.name) declared.typeDefinitions
    listed.typeDefinitions
  terms : ListsEach d declared.space term (·.name) declared.terms listed.terms
  noContainer : declared.container = none → listed.container = none
  container : ∀ c, declared.container = some c → listed.container.isSome = true ∧
    ((container (some ⟨declared.space, c.name⟩)).runOn d).1 = .ok listed.container
  actions : ∃ grouped,
    GroupedByName (fun a : Csdl.Action => a.name) declared.actions grouped ∧
    listed.actions = grouped.map fun a => s.action ⟨declared.space, a.name⟩ a
  functions : ∃ grouped,
    GroupedByName (fun f : Csdl.Function => f.name) declared.functions grouped ∧
    listed.functions = grouped.map fun f => s.function ⟨declared.space, f.name⟩ f

/-! ### One kind of elements -/

section Kind

variable {α δ : Type} {d : Directory} {space : Namespace}
variable {find : QualifiedName → InDirectory (Option α)} {nameOf : δ → Identifier} {items : List δ}
variable (hd : d.Consistent s) (hfind : ∀ name, Settled s (find name))
variable (present : ∀ item ∈ items, (find ⟨space, nameOf item⟩).result s ≠ .ok none)
include hd hfind present

/-- The elements of a kind are listed if none of them fails to be found. -/
theorem exists_listsEach
    (h : ¬∃ item ∈ items, ∃ e, ((find ⟨space, nameOf item⟩).runOn d).1 = .error e) :
    ∃ listed, ListsEach d space find nameOf items listed := by
  refine exists_forall₂ fun item hitem => ?_
  have hpresent := present item hitem
  rw [← (hfind ⟨space, nameOf item⟩ d hd).1] at hpresent
  match hrun : ((find ⟨space, nameOf item⟩).runOn d).1 with
  | .error e => exact absurd ⟨item, hitem, e, hrun⟩ h
  | .ok none => exact absurd hrun hpresent
  | .ok (some a) => exact ⟨a, rfl⟩

theorem listsEach_iff {listed : List α} :
    ListsEach d space find nameOf items listed ↔
      (elementsOf find (items.map fun item => ⟨space, nameOf item⟩)).result s = .ok listed := by
  rw [elementsOf_eq_ok hfind (by simpa using present), FindsEach, List.forall₂_map_left_iff]
  unfold ListsEach
  simp only [fun name => (hfind name d hd).1]

end Kind

/-- Elements that are listed have been found. -/
theorem ListsEach.not_fails {α δ : Type} {d : Directory} {space : Namespace}
    {find : QualifiedName → InDirectory (Option α)} {nameOf : δ → Identifier} {items : List δ}
    {listed : List α} (h : ListsEach d space find nameOf items listed) {item : δ}
    (hitem : item ∈ items) (e : DirectoryError) :
    ((find ⟨space, nameOf item⟩).runOn d).1 ≠ .error e := by
  obtain ⟨a, -, ha⟩ := exists_right_of_forall₂ h hitem
  rw [ha]
  nofun

/-! ### All kinds of elements -/

section Schemas

variable {d : Directory} {declared : Csdl.Schema}
variable (names : s.WellNamed) (hs : declared ∈ s.schemas)
include names hs

theorem elements_present :
    (∀ t ∈ declared.entityTypes, (entityType ⟨declared.space, t.name⟩).result s ≠ .ok none) ∧
    (∀ t ∈ declared.complexTypes, (complexType ⟨declared.space, t.name⟩).result s ≠ .ok none) ∧
    (∀ t ∈ declared.enumTypes, (enumType ⟨declared.space, t.name⟩).result s ≠ .ok none) ∧
    (∀ t ∈ declared.typeDefinitions,
      (typeDefinition ⟨declared.space, t.name⟩).result s ≠ .ok none) ∧
    ∀ t ∈ declared.terms, (term ⟨declared.space, t.name⟩).result s ≠ .ok none := by
  refine ⟨fun t ht => ?_, fun t ht => ?_, fun t ht => ?_, fun t ht => ?_, fun t ht => ?_⟩
  · exact entityType_ne_none (names.exists_find? hs _ ht).choose_spec
  · exact complexType_ne_none (names.exists_find? hs _ ht).choose_spec
  · exact enumType_ne_none (names.exists_find? hs _ ht).choose_spec
  · exact typeDefinition_ne_none (names.exists_find? hs _ ht).choose_spec
  · exact term_ne_none (names.exists_find? hs _ ht).choose_spec

theorem actions_load (id : Identifier) (overloads : List Action)
    (h : (actionFamily.load ⟨declared.space, id⟩).result s = .ok overloads) :
    overloads = (declared.actions.filter (·.name == id)).map (s.action ⟨declared.space, id⟩) := by
  rw [actions_eq h, names.findAll_eq hs]

theorem functions_load (id : Identifier) (overloads : List Function)
    (h : (functionFamily.load ⟨declared.space, id⟩).result s = .ok overloads) :
    overloads =
      (declared.functions.filter (·.name == id)).map (s.function ⟨declared.space, id⟩) := by
  rw [functions_eq h, names.findAll_eq hs]

/-- A schema that is resolved lists all that is declared, and nothing of it fails. -/
theorem listsElements_of_resolved (hd : d.Consistent s) {listed : Schema}
    (h : resolvedSchema s declared = .ok listed) :
    ListsElements s d declared listed ∧ ¬ElementFails d declared := by
  obtain ⟨hentity, hcomplex, henum, hdefinition, hterm⟩ := elements_present names hs
  have hactionGroups := namedGroups_eq_ok (actionFamily_lawful s) (actions_load names hs)
  have hfunctionGroups := namedGroups_eq_ok (functionFamily_lawful s) (functions_load names hs)
  unfold resolvedSchema at h
  simp only [except_bind_eq_ok] at h
  obtain ⟨entityTypes, hentityTypes, complexTypes, hcomplexTypes, enumTypes, henumTypes,
    typeDefinitions, htypeDefinitions, terms, hterms, actions, hactions, functions, hfunctions,
    container, hcontainer, annotations, -, ⟨⟩⟩ := h
  have hentityTypes := (listsEach_iff hd entityType_settled hentity).mpr hentityTypes
  have hcomplexTypes := (listsEach_iff hd complexType_settled hcomplex).mpr hcomplexTypes
  have henumTypes := (listsEach_iff hd enumType_settled henum).mpr henumTypes
  have htypeDefinitions := (listsEach_iff hd typeDefinition_settled hdefinition).mpr htypeDefinitions
  have hterms := (listsEach_iff hd term_settled hterm).mpr hterms
  refine ⟨⟨rfl, rfl, hentityTypes, hcomplexTypes, henumTypes, htypeDefinitions, hterms, ?_, ?_,
    ⟨_, inGroups_grouped _ _, hactionGroups.2 actions hactions⟩,
    ⟨_, inGroups_grouped _ _, hfunctionGroups.2 functions hfunctions⟩⟩, ?_⟩
  · intro hnone
    rw [declaredContainer, hnone] at hcontainer
    cases hcontainer
    rfl
  · intro c hc
    have hnamed := containerNamed_of_declared names hs hc
    rw [declaredContainer, hc] at hcontainer
    cases hnamed.result_eq.symm.trans hcontainer
    have hrun : (ODataRequest.container (some ⟨declared.space, c.name⟩)).runOn d =
      (containerNamed ⟨declared.space, c.name⟩).runOn d := rfl
    exact ⟨rfl, (congrArg Prod.fst hrun).trans (hnamed d hd).1⟩
  · intro hfails
    cases hfails with
    | entityType ht fails => exact hentityTypes.not_fails ht _ fails
    | complexType ht fails => exact hcomplexTypes.not_fails ht _ fails
    | enumType ht fails => exact henumTypes.not_fails ht _ fails
    | typeDefinition ht fails => exact htypeDefinitions.not_fails ht _ fails
    | term ht fails => exact hterms.not_fails ht _ fails
    | actions ha fails =>
      obtain ⟨overloads, hnamed⟩ := hactionGroups.1.mpr ⟨actions, hactions⟩ _ ha
      rw [(OperationFamily.named_settled (actionFamily_lawful s) _ d hd).1, hnamed] at fails
      cases fails
    | functions hf fails =>
      obtain ⟨overloads, hnamed⟩ := hfunctionGroups.1.mpr ⟨functions, hfunctions⟩ _ hf
      rw [(OperationFamily.named_settled (functionFamily_lawful s) _ d hd).1, hnamed] at fails
      cases fails

/-- A schema of which no element fails is resolved. -/
theorem exists_resolved (hd : d.Consistent s) (h : ¬ElementFails d declared) :
    ∃ listed, resolvedSchema s declared = .ok listed := by
  obtain ⟨hentity, hcomplex, henum, hdefinition, hterm⟩ := elements_present names hs
  obtain ⟨entityTypes, hentityTypes⟩ := exists_listsEach hd entityType_settled hentity
    fun ⟨_, ht, _, fails⟩ => h (.entityType ht fails)
  obtain ⟨complexTypes, hcomplexTypes⟩ := exists_listsEach hd complexType_settled hcomplex
    fun ⟨_, ht, _, fails⟩ => h (.complexType ht fails)
  obtain ⟨enumTypes, henumTypes⟩ := exists_listsEach hd enumType_settled henum
    fun ⟨_, ht, _, fails⟩ => h (.enumType ht fails)
  obtain ⟨typeDefinitions, htypeDefinitions⟩ := exists_listsEach hd typeDefinition_settled
    hdefinition fun ⟨_, ht, _, fails⟩ => h (.typeDefinition ht fails)
  obtain ⟨terms, hterms⟩ := exists_listsEach hd term_settled hterm
    fun ⟨_, ht, _, fails⟩ => h (.term ht fails)
  have hnamed {α : Type} {family : OperationFamily α} (lawful : family.Lawful s)
      (name : QualifiedName) (hno : ∀ e, ((family.named name).runOn d).1 ≠ .error e) :
      ∃ overloads, (family.named name).result s = .ok overloads := by
    rw [← (OperationFamily.named_settled lawful name d hd).1]
    match hrun : ((family.named name).runOn d).1 with
    | .error e => exact absurd hrun (hno e)
    | .ok overloads => exact ⟨overloads, rfl⟩
  obtain ⟨actions, hactions⟩ := (namedGroups_eq_ok (actionFamily_lawful s)
    (actions_load names hs)).1.mp fun a ha =>
      hnamed (actionFamily_lawful s) _ fun _ fails => h (.actions ha fails)
  obtain ⟨functions, hfunctions⟩ := (namedGroups_eq_ok (functionFamily_lawful s)
    (functions_load names hs)).1.mp fun f hf =>
      hnamed (functionFamily_lawful s) _ fun _ fails => h (.functions hf fails)
  rw [listsEach_iff hd entityType_settled hentity] at hentityTypes
  rw [listsEach_iff hd complexType_settled hcomplex] at hcomplexTypes
  rw [listsEach_iff hd enumType_settled henum] at henumTypes
  rw [listsEach_iff hd typeDefinition_settled hdefinition] at htypeDefinitions
  rw [listsEach_iff hd term_settled hterm] at hterms
  have hcontainer := (declaredContainer_settles names hs).result_eq
  have hannotations := (annotationGroups_settles (s := s)
    (namedTargets declared.annotations)).result_eq
  unfold resolvedSchema
  simp only [hentityTypes, hcomplexTypes, henumTypes, htypeDefinitions, hterms, hactions,
    hfunctions, hcontainer, hannotations, except_ok_bind]
  exact ⟨_, rfl⟩

end Schemas

/-! ### Directories -/

/-- A schema is answered with unless one of its elements has a defect that looking it up by itself
shows as well, and then it lists all of them, each as it is found by itself, and all overloads of
its operations by name. -/
theorem schema_loses_nothing (names : s.WellNamed) {d : Directory} (reachable : d.Reachable s)
    {declared : Csdl.Schema} (hs : declared ∈ s.schemas) {space : Namespace}
    (hspace : space = declared.space ∨ declared.aliasSpace? = some space) :
    ((∃ e, ((schema space).runOn d).1 = .error e) ↔ ElementFails d declared) ∧
      (¬ElementFails d declared → ∃ listed, ((schema space).runOn d).1 = .ok (some listed) ∧
        ListsElements s d declared listed) := by
  have hd := reachable.consistent names
  have hanswer := (schema_settles names hs hspace d hd).1
  have hlists (h : ¬ElementFails d declared) : ∃ listed,
      ((schema space).runOn d).1 = .ok (some listed) ∧ ListsElements s d declared listed := by
    obtain ⟨listed, hresolved⟩ := exists_resolved names hs hd h
    refine ⟨listed, ?_, (listsElements_of_resolved names hs hd hresolved).1⟩
    rw [hanswer, hresolved]
    rfl
  refine ⟨⟨?_, fun hfails => ?_⟩, hlists⟩
  · rintro ⟨e, he⟩
    by_contra hno
    obtain ⟨listed, hlisted, -⟩ := hlists hno
    rw [hlisted] at he
    cases he
  · cases hresolved : resolvedSchema s declared with
    | error e =>
      rw [hanswer, hresolved]
      exact ⟨e, rfl⟩
    | ok listed => exact absurd hfails (listsElements_of_resolved names hs hd hresolved).2

section Orchestra

private def orchestraSpace : Namespace := ⟨⟨"Orchestra", by decide⟩, []⟩
private def orchestraAlias : Identifier := ⟨"O", by decide⟩
private def player : Identifier := ⟨"Player", by decide⟩
private def soloist : Identifier := ⟨"Soloist", by decide⟩
private def tune : Identifier := ⟨"Tune", by decide⟩
private def rehearse : Identifier := ⟨"Rehearse", by decide⟩
private def hall : Identifier := ⟨"Hall", by decide⟩

private def playerType (name : Identifier) (baseType : Option QualifiedName) : Csdl.EntityType :=
  { name, baseType, isAbstract := false, isOpen := false, properties := [],
    navigationProperties := [], hasStream := false, key := [] }

private def inOrchestra (name : Identifier) : QualifiedName := ⟨⟨orchestraAlias, []⟩, name⟩
private def bindingPlayer : Csdl.Parameter := ⟨player, ⟨inOrchestra player, false⟩, false⟩

private def orchestraSchema : Csdl.Schema :=
  { space := orchestraSpace
    aliasName := some orchestraAlias
    entityTypes := [playerType soloist (some (inOrchestra player)), playerType player none]
    complexTypes := []
    enumTypes := []
    typeDefinitions := []
    actions :=
      [⟨⟨tune, true, none, [bindingPlayer]⟩, none⟩, ⟨⟨rehearse, false, none, []⟩, none⟩,
        ⟨⟨tune, false, none, []⟩, none⟩]
    functions := []
    terms := []
    container := some ⟨hall, [], [], [], []⟩
    annotations := [] }

/-- A model in which overloads of one name stand apart and a type stands in front of its base. -/
def orchestra : Source :=
  { basicOnly := false, schemas := [orchestraSchema] }

/-- The schema is listed under its alias, after the directory has been asked for a type of it. -/
theorem schema_loses_nothing_orchestra :
    let d := DirectoryCall.after [.entityType (inOrchestra soloist)] (Directory.ofSource orchestra)
    ∃ listed, ((schema ⟨orchestraAlias, []⟩).runOn d).1 = .ok (some listed) ∧
      ListsElements orchestra d orchestraSchema listed := by
  intro d
  have names : orchestra.WellNamed := ⟨by decide, by decide⟩
  have reachable : d.Reachable orchestra := Directory.Reachable.fresh.after _
  have htypes : ∀ t ∈ orchestraSchema.entityTypes,
      ((entityType ⟨orchestraSchema.space, t.name⟩).runOn d).1.isOk = true := by
    decide +kernel
  have hactions : ∀ a ∈ orchestraSchema.actions,
      ((actionFamily.named ⟨orchestraSchema.space, a.name⟩).runOn d).1.isOk = true := by
    decide +kernel
  refine (schema_loses_nothing names reachable List.mem_cons_self (Or.inr rfl)).2 fun hfails => ?_
  cases hfails with
  | entityType ht fails =>
    have hok := htypes _ ht
    rw [fails] at hok
    cases hok
  | actions ha fails =>
    have hok := hactions _ ha
    rw [fails] at hok
    cases hok
  | complexType ht | enumType ht | typeDefinition ht | term ht | functions ht => cases ht

end Orchestra

end ODataRequest
