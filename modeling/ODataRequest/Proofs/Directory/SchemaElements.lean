import ODataRequest.Proofs.Directory.BaseChains
import ODataRequest.Proofs.Directory.Schemas
import ODataRequest.Proofs.Grouping
import ODataRequest.Proofs.Lookup

/-!
# ODataRequest.Proofs.Directory.SchemaElements

What a whole schema is resolved to, list by list. A schema is found under its namespace and under
its alias. An element that a schema declares is never absent: looking it up gives an element or a
defect, so nothing is left out of the lists. The overloads of a name are the declared ones with
their aliases replaced, unless they have a defect. Containers and annotations have no defects.
-/

namespace ODataRequest

open InDirectory

variable {s : Source}

/-! ### Schemas under their names -/

namespace Source

theorem map_fst_aliasPairs : s.aliasPairs.map (·.1) = s.aliasSpaces := by
  unfold aliasPairs aliasSpaces
  rw [List.map_filterMap]
  refine congrArg (s.schemas.filterMap ·) (funext fun schema => ?_)
  simp [Function.comp_def]

namespace WellNamed

/-- An alias stands for the namespace of the schema that has it. -/
theorem realSpace_of_alias (names : s.WellNamed) {schema : Csdl.Schema} (hs : schema ∈ s.schemas)
    {space : Namespace} (h : schema.aliasSpace? = some space) :
    s.realSpace space = schema.space := by
  have hpair : (space, schema.space) ∈ s.aliasPairs := mem_aliasPairs.mpr ⟨schema, hs, h, rfl⟩
  have hdistinct : (s.aliasPairs.map (·.1)).Nodup := by
    rw [map_fst_aliasPairs]
    exact (List.nodup_append.mp names.distinct).2.1
  unfold realSpace lookupAlias?
  cases hlookup : s.aliasPairs.reverse.lookup space with
  | none =>
    have hsome := isSome_lookup.mpr (List.mem_map_of_mem (f := (·.1)) (List.mem_reverse.mpr hpair))
    rw [hlookup] at hsome
    cases hsome
  | some real =>
    have hmem := List.mem_reverse.mp (mem_of_lookup hlookup)
    exact congrArg Prod.snd (List.inj_on_of_nodup_map hdistinct hmem hpair rfl)

theorem realSpace_of_name (names : s.WellNamed) {schema : Csdl.Schema} (hs : schema ∈ s.schemas)
    {space : Namespace} (h : space = schema.space ∨ schema.aliasSpace? = some space) :
    s.realSpace space = schema.space := by
  rcases h with rfl | h
  · exact names.realSpace_of_mem (mem_spaces hs)
  · exact names.realSpace_of_alias hs h

theorem declaredSchema?_of_mem (names : s.WellNamed) {schema : Csdl.Schema}
    (hs : schema ∈ s.schemas) : s.declaredSchema? schema.space = some schema := by
  have hspaces : s.spaces.Nodup := (List.nodup_append.mp names.distinct).1
  unfold declaredSchema?
  split
  · exact (find?_key_eq_some hspaces).mpr ⟨hs, rfl⟩
  · exact names.schema?_eq_some hs

/-- An element of a schema, or an earlier one of its name, is found under the name. -/
theorem exists_find? (names : s.WellNamed) {schema : Csdl.Schema} (hs : schema ∈ s.schemas)
    {α : Type} {items : Csdl.Schema → List α} (nameOf : α → Identifier) {item : α}
    (h : item ∈ items schema) :
    ∃ found, s.find? items nameOf (s.actualName ⟨schema.space, nameOf item⟩) = some found := by
  rw [names.actualName_of_mem hs]
  unfold find?
  rw [names.schema?_eq_some hs, Option.bind_some, ← Option.isSome_iff_exists, List.find?_isSome]
  exact ⟨item, h, beq_self_eq_true _⟩

end WellNamed

end Source

/-! ### Whole schemas -/

/-- A directory answers with the schema that declares a namespace or an alias, resolved. -/
theorem schema_settles (names : s.WellNamed) {declared : Csdl.Schema} (hs : declared ∈ s.schemas)
    {space : Namespace} (hspace : space = declared.space ∨ declared.aliasSpace? = some space) :
    Settles s (schema space) (do return some (← resolvedSchema s declared)) := by
  have hload : Settles s (loadSchema declared.space)
      (do return some (← resolvedSchema s declared)) := by
    refine (askSchema_settles declared.space).bind_ok ?_
    rw [names.declaredSchema?_of_mem hs]
    exact (resolveSchema_settles declared).bind fun made _ => .pure (some made)
  refine (resolveNamespace_settles space).bind_ok ?_
  rw [names.realSpace_of_name hs hspace, ← hload.result_eq]
  exact remembered_settles (schemaStore_keeps s) hload.settled fun _ => Iff.rfl

/-! ### Declared elements are not absent -/

/-- If something is found and what follows gives something for it, the whole does. -/
theorem InDirectory.Settles.bind_ne_none {α δ : Type} {x : InDirectory (Option δ)}
    {f : Option δ → InDirectory (Option α)} {declared : δ} (hx : Settles s x (.ok (some declared)))
    (hf : Ensures (f (some declared)) fun o => o.isSome = true) :
    (x >>= f).result s ≠ .ok none := by
  intro hnone
  unfold result at hnone
  rw [hx.runOn_bind_ok (.ofSource s)] at hnone
  cases hf _ _ hnone

theorem TypeFamily.resolve_ne_none {α δ : Type} {family : TypeFamily δ α}
    {declared? : QualifiedName → Option δ} (lawful : family.Lawful s)
    (declares : ∀ name, (family.declared name).result s = .ok (declared? name))
    {name : QualifiedName} {declared : δ} (found : declared? (s.actualName name) = some declared) :
    (family.resolve name).result s ≠ .ok none := by
  rw [(resolve_settles lawful name).result_eq]
  exact resolveFrom_ne_none lawful declares .start (Nat.le_refl _) List.not_mem_nil found

section Declared

variable {name : QualifiedName}

theorem entityType_ne_none {t : Csdl.EntityType}
    (found : s.find? (·.entityTypes) (·.name) (s.actualName name) = some t) :
    (entityType name).result s ≠ .ok none :=
  TypeFamily.resolve_ne_none (entityTypeFamily_lawful s)
    (fun name => (askSource_settles (.entityType name)).result_eq) found

theorem complexType_ne_none {t : Csdl.StructuredType}
    (found : s.find? (·.complexTypes) (·.name) (s.actualName name) = some t) :
    (complexType name).result s ≠ .ok none :=
  TypeFamily.resolve_ne_none (complexTypeFamily_lawful s)
    (fun name => (askSource_settles (.complexType name)).result_eq) found

/-- What is remembered of a load that gives something is not absent. -/
theorem remembered_ne_none {α : Type} {store : StoreIn QualifiedName α}
    {load : QualifiedName → InDirectory (Option α)}
    (keeps : store.Keeps s fun key value => (load key).result s = .ok (some value))
    (hload : Settled s (load (s.actualName name)))
    (present : (load (s.actualName name)).result s ≠ .ok none) :
    (resolveAlias name >>= fun name => store.remembered name (load name)).result s ≠ .ok none := by
  have hremembered := remembered_settles keeps hload fun _ => Iff.rfl
  rw [((resolveAlias_settles name).bind_ok hremembered).result_eq]
  exact present

theorem enumType_ne_none {t : Csdl.EnumType}
    (found : s.find? (·.enumTypes) (·.name) (s.actualName name) = some t) :
    (enumType name).result s ≠ .ok none := by
  have hask := askSource_settles (s := s) (.enumType (s.actualName name))
  rw [show s.answer (.enumType (s.actualName name)) = some t from found] at hask
  refine remembered_ne_none (enumTypeStore_keeps s) (loadEnumType_settled _)
    (hask.bind_ne_none ?_)
  dsimp only
  split <;> exact .after fun _ => .pure rfl

theorem typeDefinition_ne_none {t : Csdl.TypeDefinition}
    (found : s.find? (·.typeDefinitions) (·.name) (s.actualName name) = some t) :
    (typeDefinition name).result s ≠ .ok none := by
  have hask := askSource_settles (s := s) (.typeDefinition (s.actualName name))
  rw [show s.answer (.typeDefinition (s.actualName name)) = some t from found] at hask
  exact remembered_ne_none (typeDefinitionStore_keeps s) (loadTypeDefinition_settled _)
    (hask.bind_ne_none (.after fun _ => .pure rfl))

theorem term_ne_none {t : Csdl.Term}
    (found : s.find? (·.terms) (·.name) (s.actualName name) = some t) :
    (term name).result s ≠ .ok none := by
  have hask := askSource_settles (s := s) (.term (s.actualName name))
  rw [show s.answer (.term (s.actualName name)) = some t from found] at hask
  exact remembered_ne_none (termStore_keeps s) (loadTerm_settled _)
    (hask.bind_ne_none (.after fun _ => .pure rfl))

end Declared

/-! ### Lists of elements -/

/-- A look-up of each element of a list succeeds and finds the element of another list. -/
def FindsEach {α β : Type} (s : Source) (find : β → InDirectory (Option α)) (keys : List β)
    (made : List α) : Prop :=
  List.Forall₂ (fun key a => (find key).result s = .ok (some a)) keys made

/-- Elements that are not absent are listed one by one. -/
theorem elementsOf_eq_ok {α β : Type} {find : β → InDirectory (Option α)} {keys : List β}
    {made : List α} (hfind : ∀ key, Settled s (find key))
    (present : ∀ key ∈ keys, (find key).result s ≠ .ok none) :
    (elementsOf find keys).result s = .ok made ↔ FindsEach s find keys made := by
  unfold elementsOf
  rw [Settled.bind_eq_ok (.mapM fun key _ => hfind key) fun _ _ => .pure _]
  simp only [Settled.mapM_eq_ok fun key _ => hfind key]
  constructor
  · rintro ⟨found, hfound, hmade⟩
    cases hmade
    clear hfind
    induction hfound with
    | nil => exact .nil
    | @cons key o keys found hkey _ ih =>
      obtain ⟨hhere, hrest⟩ := List.forall_mem_cons.mp present
      cases o with
      | none => exact absurd hkey hhere
      | some a => exact .cons hkey (ih hrest)
  · intro h
    refine ⟨made.map some, List.forall₂_map_right_iff.mpr h, ?_⟩
    simp [(Settles.pure _).result_eq]

/-! ### Overloads -/

/-- Overloads that are loaded are the declared ones, each as it is resolved. -/
theorem loadOverloads_eq {α δ : Type} {keyOf : α → OverloadKey} {ask : InDirectory (List δ)}
    {resolve : δ → InDirectory α} {declared : List δ} {resolved : δ → α} {name : QualifiedName}
    (hask : Settles s ask (.ok declared)) (hresolve : ∀ o, Settled s (resolve o))
    (heq : ∀ o made, (resolve o).result s = .ok made → made = resolved o) {overloads : List α}
    (h : (loadOverloads keyOf ask resolve name).result s = .ok overloads) :
    overloads = declared.map resolved := by
  have hmade : Settled s (declared.mapM resolve) := .mapM fun o _ => hresolve o
  have hdistinct (made : List α) := distinctOverloads_settled (s := s) keyOf made
  have hall : (declared.mapM resolve >>= distinctOverloads keyOf).result s = .ok overloads := by
    have hsettled : Settled s (declared.mapM resolve >>= distinctOverloads keyOf) :=
      hmade.bind fun made _ => hdistinct made
    unfold loadOverloads result at h
    rw [hask.runOn_bind_ok (.ofSource s), runOn_inContext, except_mapError_eq_ok] at h
    exact (hsettled _ (hask _ (.ofSource s)).2).1.symm.trans h
  obtain ⟨made, hmap, haccepted⟩ := (hmade.bind_eq_ok fun made _ => hdistinct made).mp hall
  obtain ⟨rfl, -⟩ := distinctOverloads_ensures keyOf made _ _ haccepted
  have heach := ((Settled.mapM_eq_ok fun o _ => hresolve o).mp hmap).imp fun o made h =>
    (heq o made h).symm
  rw [← List.forall₂_map_left_iff (R := (· = ·)), List.forall₂_eq_eq_eq] at heach
  exact heach.symm

theorem actions_eq {name : QualifiedName} {overloads : List Action}
    (h : (actionFamily.load name).result s = .ok overloads) :
    overloads = (s.findAll (·.actions) (·.name) name).map (s.action name) := by
  refine loadOverloads_eq (askSource_settles (.actions name)) (resolveAction_settled name) ?_ h
  intro a made hmade
  rw [(resolveAction_checks name a).result_eq] at hmade
  obtain ⟨_, -, ⟨⟩⟩ := except_bind_eq_ok.mp hmade
  rfl

theorem functions_eq {name : QualifiedName} {overloads : List Function}
    (h : (functionFamily.load name).result s = .ok overloads) :
    overloads = (s.findAll (·.functions) (·.name) name).map (s.function name) := by
  refine loadOverloads_eq (askSource_settles (.functions name)) (resolveFunction_settled name) ?_ h
  intro f made hmade
  rw [(resolveFunction_checks name f).result_eq] at hmade
  obtain ⟨_, -, ⟨⟩⟩ := except_bind_eq_ok.mp hmade
  rfl

/-- All operations of a name that a schema declares. -/
theorem Source.WellNamed.findAll_eq (names : s.WellNamed) {schema : Csdl.Schema}
    (hs : schema ∈ s.schemas) {δ : Type} (items : Csdl.Schema → List δ) (nameOf : δ → Identifier)
    (id : Identifier) :
    s.findAll items nameOf ⟨schema.space, id⟩ = (items schema).filter (nameOf · == id) := by
  unfold findAll
  rw [names.schema?_eq_some hs]

/-- The overloads of all names can be listed exactly if those of each name can, and are listed
group by group then. -/
theorem namedGroups_eq_ok {α δ : Type} {family : OperationFamily α} (lawful : family.Lawful s)
    {space : Namespace} {items : List δ} {nameOf : δ → Identifier} {made : QualifiedName → δ → α}
    (hload : ∀ id overloads, (family.load ⟨space, id⟩).result s = .ok overloads →
      overloads = (items.filter (nameOf · == id)).map (made ⟨space, id⟩)) :
    ((∀ item ∈ items, ∃ overloads,
        (family.named ⟨space, nameOf item⟩).result s = .ok overloads) ↔
      ∃ groups, ((distinctAscending (items.map nameOf)).mapM fun id =>
        family.named ⟨space, id⟩).result s = .ok groups) ∧
    ∀ groups, ((distinctAscending (items.map nameOf)).mapM fun id =>
        family.named ⟨space, id⟩).result s = .ok groups →
      groups.flatten = (inGroups nameOf items).map fun item => made ⟨space, nameOf item⟩ item := by
  simp only [Settled.mapM_eq_ok fun id _ => OperationFamily.named_settled lawful ⟨space, id⟩]
  refine ⟨⟨fun h => exists_forall₂ fun id hid => ?_, ?_⟩, fun groups hgroups => ?_⟩
  · obtain ⟨item, hitem, rfl⟩ := List.mem_map.mp (mem_distinctAscending.mp hid)
    exact h item hitem
  · rintro ⟨groups, hgroups⟩ item hitem
    have hid := mem_distinctAscending.mpr (List.mem_map_of_mem (f := nameOf) hitem)
    obtain ⟨overloads, -, hnamed⟩ := exists_right_of_forall₂ hgroups hid
    exact ⟨overloads, hnamed⟩
  · have heach := hgroups.imp fun id overloads hnamed => by
      rw [(OperationFamily.named_settles lawful _).result_eq] at hnamed
      exact (hload id overloads hnamed).symm
    rw [← List.forall₂_map_left_iff (R := (· = ·)), List.forall₂_eq_eq_eq] at heach
    rw [← heach, inGroups, List.map_flatMap, List.flatMap_def]
    refine congrArg List.flatten (List.map_congr_left fun id _ => List.map_congr_left ?_)
    intro item hitem
    rw [beq_iff_eq.mp (List.mem_filter.mp hitem).2]

/-! ### Containers -/

/-- The container that a schema declares is found by its name. -/
theorem containerNamed_of_declared (names : s.WellNamed) {declared : Csdl.Schema}
    (hs : declared ∈ s.schemas) {c : Csdl.Container} (hc : declared.container = some c) :
    Settles s (containerNamed ⟨declared.space, c.name⟩)
      (.ok (some (s.containerAs ⟨declared.space, c.name⟩ c))) := by
  have hfound :
      s.container? (some ⟨declared.space, c.name⟩) = some (⟨declared.space, c.name⟩, c) := by
    simp [Source.container?, names.schema?_eq_some hs, Source.containerOf?, hc]
  have hnamed := containerNamed_settles (s := s) ⟨declared.space, c.name⟩
  rw [names.actualName_of_mem hs, resolvedContainer, hfound] at hnamed
  simp only [(resolveContainer_settles _ c).result_eq, except_ok_bind] at hnamed
  exact hnamed

theorem declaredContainer_settles (names : s.WellNamed) {declared : Csdl.Schema}
    (hs : declared ∈ s.schemas) : Settles s (declaredContainer declared)
      (.ok (declared.container.map fun c => s.containerAs ⟨declared.space, c.name⟩ c)) := by
  unfold declaredContainer
  cases hc : declared.container with
  | none => exact .pure none
  | some c => exact containerNamed_of_declared names hs hc

/-! ### Annotations -/

theorem annotationGroups_settles (keys : List (QualifiedName × Option String)) :
    Settles s (elementsOf (fun t => annotationGroup t.1 t.2) keys)
      (.ok (keys.filterMap fun t => s.annotationGroup? (s.actualName t.1) t.2)) := by
  have hall : Settles s (keys.mapM fun t => annotationGroup t.1 t.2)
      (.ok (keys.map fun t => s.annotationGroup? (s.actualName t.1) t.2)) :=
    Settles.mapM fun t _ => annotationGroup_settles t.1 t.2
  have hlisted := hall.bind_ok (f := fun found => pure (found.filterMap id)) (.pure _)
  rw [List.filterMap_map, Function.id_comp] at hlisted
  exact hlisted

end ODataRequest
