import ODataRequest.Proofs.Directory.Answers

/-!
# ODataRequest.Proofs.Directory.ActualNames

Names in questions to a directory. A name that uses an alias and the name that it is replaced by get
the same answers, and the types and operations that are found have the replaced name
(`answers_namedBy`). What a request refers to can therefore be referred to by its own name as well.
-/

namespace ODataRequest

open InDirectory

variable {s : Source}

/-- Names stand for what their actual names stand for, and what is found has the actual name. -/
structure Answers.NamedBy (answers : Answers) (actual : QualifiedName → QualifiedName) : Prop where
  type : ∀ {name found}, answers (.type name) found →
    answers (.type (actual name)) found ∧ ∀ type ∈ found, type.name = actual name
  unboundAction : ∀ {name a}, answers (.unboundAction name) (some a) →
    answers (.unboundAction (actual name)) (some a) ∧ a.name = actual name
  unboundFunction : ∀ {name parameters f}, answers (.unboundFunction name parameters) (some f) →
    answers (.unboundFunction (actual name) parameters) (some f) ∧ f.name = actual name
  boundAction : ∀ {name binding a}, answers (.boundAction name binding) (some a) →
    answers (.boundAction (actual name) binding) (some a) ∧ a.name = actual name
  boundFunction : ∀ {name binding parameters f},
    answers (.boundFunction name binding parameters) (some f) →
      answers (.boundFunction (actual name) binding parameters) (some f) ∧ f.name = actual name

/-! ### Types -/

theorem PrimitiveKind.qualifiedName_of_ofName? {name : QualifiedName} {kind : PrimitiveKind}
    (h : ofName? name = some kind) : kind.qualifiedName = name := by
  unfold ofName? at h
  split at h
  · rename_i hedm
    obtain ⟨⟨first, rest⟩, id⟩ := name
    have hname : kind.name = id.text := by simpa using List.find?_some h
    have hspace : first.text = "Edm" ∧ rest = [] := by
      simpa [QualifiedName.isEdm, Namespace.isEdm] using hedm
    obtain ⟨hfirst, rfl⟩ := hspace
    have hid : Identifier.mk kind.name (isIdentifier_name kind) = id :=
      Identifier.eq_of_text_eq hname
    have hedm : Identifier.mk "Edm" isIdentifier_edm = first := Identifier.eq_of_text_eq hfirst.symm
    rw [qualifiedName, hid, hedm]
  · cases h

theorem resolveLevel_ensures (name : QualifiedName) (hasStream : Bool) (t : Csdl.StructuredType) :
    Ensures (resolveLevel name hasStream t) fun own => own.name = name :=
  .after fun _ => .after fun _ => .pure rfl

theorem completeComplexType_ensures (name : QualifiedName) (declared : Csdl.StructuredType)
    (base : Option StructuredType) :
    Ensures (completeComplexType name declared base) fun t => t.name = name :=
  (resolveLevel_ensures name false declared).bind fun _ hown => .pure hown

theorem completeEntityType_ensures (name : QualifiedName) (declared : Csdl.EntityType)
    (base : Option EntityType) :
    Ensures (completeEntityType name declared base) fun t => t.name = name := by
  refine (resolveLevel_ensures name declared.hasStream _).bind fun own hown => ?_
  by_cases hkey : declared.key.isEmpty = true
  · simp only [hkey, if_true]
    exact .after fun _ => .pure hown
  · simp only [hkey]
    exact .after fun _ => .pure hown

/-- A type of a chain has the name that the chain starts from. -/
theorem TypeFamily.Chain.name_eq {δ α : Type} {family : TypeFamily δ α} (nameOf : α → QualifiedName)
    (hcomplete : ∀ name declared base,
      Ensures (family.complete name declared base) fun t => nameOf t = name)
    {n : Nat} {name : QualifiedName} {t : α} (h : family.Chain s n name t) : nameOf t = name := by
  cases h with
  | root _ _ completed => exact hcomplete _ _ _ _ _ completed
  | derived _ _ _ completed => exact hcomplete _ _ _ _ _ completed

theorem entityType_name {name : QualifiedName} {t : EntityType}
    (h : (entityType name).result s = .ok (some t)) : t.name = s.actualName name := by
  have hresolve := (TypeFamily.resolve_settled (entityTypeFamily_lawful s) name).2 t
  obtain ⟨n, chain⟩ := hresolve.mp h
  exact chain.name_eq (fun t => t.name) completeEntityType_ensures

theorem complexType_name {name : QualifiedName} {t : StructuredType}
    (h : (complexType name).result s = .ok (some t)) : t.name = s.actualName name := by
  have hresolve := (TypeFamily.resolve_settled (complexTypeFamily_lawful s) name).2 t
  obtain ⟨n, chain⟩ := hresolve.mp h
  exact chain.name_eq (fun t => t.name) completeComplexType_ensures

theorem loadEnumType_ensures (name : QualifiedName) :
    Ensures (loadEnumType name) fun found => ∀ t ∈ found, t.name = name := by
  refine .after fun declared => ?_
  cases declared with
  | none => exact .pure (by simp)
  | some declared =>
    dsimp only
    split
    · exact .after fun _ => .pure (by simp)
    · exact .after fun _ => .pure (by simp)

theorem loadTypeDefinition_ensures (name : QualifiedName) :
    Ensures (loadTypeDefinition name) fun found => ∀ t ∈ found, t.name = name := by
  refine .after fun declared => ?_
  cases declared with
  | none => exact .pure (by simp)
  | some declared => exact .after fun _ => .pure (by simp)

theorem enumType_name {name : QualifiedName} {t : EnumType}
    (h : (enumType name).result s = .ok (some t)) : t.name = s.actualName name := by
  have hsettles : Settles s (enumType name) ((loadEnumType (s.actualName name)).result s) :=
    (resolveAlias_settles name).bind_ok
      (remembered_settles (enumTypeStore_keeps s) (loadEnumType_settled _) fun _ => Iff.rfl)
  rw [hsettles.result_eq] at h
  exact loadEnumType_ensures _ _ _ h t rfl

theorem typeDefinition_name {name : QualifiedName} {t : TypeDefinition}
    (h : (typeDefinition name).result s = .ok (some t)) : t.name = s.actualName name := by
  have hsettles :
      Settles s (typeDefinition name) ((loadTypeDefinition (s.actualName name)).result s) :=
    (resolveAlias_settles name).bind_ok
      (remembered_settles (typeDefinitionStore_keeps s) (loadTypeDefinition_settled _)
        fun _ => Iff.rfl)
  rw [hsettles.result_eq] at h
  exact loadTypeDefinition_ensures _ _ _ h t rfl

/-- A type of any sort is found among the types of its sort. -/
theorem eq_of_resolvedType {name : QualifiedName} {t : ModelType}
    (h : resolvedType s name = .ok (some t)) :
    match t with
    | .primitive kind => PrimitiveKind.ofName? name = some kind
    | .entity t => (entityType name).result s = .ok (some t)
    | .complex t => (complexType name).result s = .ok (some t)
    | .enumeration t => (enumType name).result s = .ok (some t)
    | .definition t => (typeDefinition name).result s = .ok (some t) := by
  unfold resolvedType at h
  split at h
  · rw [Except.ok.injEq, Option.map_eq_some_iff] at h
    obtain ⟨kind, hkind, rfl⟩ := h
    exact hkind
  obtain ⟨entity, hentity, h⟩ := except_bind_eq_ok.mp h
  cases entity with
  | some entity =>
    cases h
    exact hentity
  | none =>
    obtain ⟨complex, hcomplex, h⟩ := except_bind_eq_ok.mp h
    cases complex with
    | some complex =>
      cases h
      exact hcomplex
    | none =>
      obtain ⟨enumeration, henumeration, h⟩ := except_bind_eq_ok.mp h
      cases enumeration with
      | some enumeration =>
        cases h
        exact henumeration
      | none =>
        obtain ⟨definition, hdefinition, h⟩ := except_bind_eq_ok.mp h
        cases definition with
        | none => cases h
        | some definition =>
          cases h
          exact hdefinition

/-- A type that is found by its real name has this name. -/
theorem name_of_resolvedType {name : QualifiedName}
    (real : s.actualName name = name) {t : ModelType} (h : resolvedType s name = .ok (some t)) :
    t.name = name := by
  have hfound := eq_of_resolvedType h
  cases t with
  | primitive kind => exact PrimitiveKind.qualifiedName_of_ofName? hfound
  | entity t => exact (entityType_name hfound).trans real
  | complex t => exact (complexType_name hfound).trans real
  | enumeration t => exact (enumType_name hfound).trans real
  | definition t => exact (typeDefinition_name hfound).trans real

/-! ### Operations -/

/-- An overload that is found has the key that it is looked for with. -/
theorem OperationFamily.key_of_ofKey {α : Type} {family : OperationFamily α}
    (lawful : family.Lawful s) {key : OverloadKey} {o : α}
    (h : (family.ofKey key).result s = .ok (some o)) : family.keyOf o = key := by
  rw [(ofKey_settles lawful key).result_eq] at h
  obtain ⟨overloads, -, h⟩ := except_bind_eq_ok.mp h
  rw [Except.ok.injEq] at h
  simpa using List.find?_some h

theorem OperationFamily.name_of_ofKey {α : Type} {family : OperationFamily α}
    (lawful : family.Lawful s) {key : OverloadKey} {o : α}
    (h : (family.ofKey key).result s = .ok (some o)) : (family.keyOf o).name = key.name := by
  rw [key_of_ofKey lawful h]

/-- Going up the base types of a binding changes nothing but the binding. -/
theorem OperationFamily.key_of_nearestOverload {α : Type} {family : OperationFamily α}
    (lawful : family.Lawful s) {key : OverloadKey} {o : α}
    (h : (nearestOverload family.ofKey s.chainBound key).result s = .ok (some o)) :
    ∃ binding, family.keyOf o = { key with binding } := by
  have hfound := (nearestOverload_found (ofKey_settled lawful) s.chainBound key).2
  obtain ⟨binding, hkey⟩ := hfound _ h o rfl
  exact ⟨binding, key_of_ofKey lawful hkey⟩

theorem OperationFamily.name_of_nearestOverload {α : Type} {family : OperationFamily α}
    (lawful : family.Lawful s) {key : OverloadKey} {o : α}
    (h : (nearestOverload family.ofKey s.chainBound key).result s = .ok (some o)) :
    (family.keyOf o).name = key.name := by
  obtain ⟨binding, hkey⟩ := key_of_nearestOverload lawful h
  rw [hkey]

/-! ### Answers -/

/-- A directory replaces names by their actual ones. -/
theorem answers_namedBy (names : s.WellNamed) : s.answers.NamedBy s.actualName where
  type := by
    intro name found h
    have hfound : resolvedType s (s.actualName name) = .ok found := by
      rw [← (resolveType_settles name).result_eq]
      exact h
    have hreal := names.actualName_actualName name
    refine ⟨?_, ?_⟩
    · show (resolveType (s.actualName name)).result s = .ok found
      rw [(resolveType_settles _).result_eq, hreal, hfound]
    · rintro type rfl
      exact name_of_resolvedType hreal hfound
  unboundAction := by
    intro name a h
    have h : (unboundAction name).result s = .ok (some a) := h
    rw [(unboundAction_settles name).result_eq] at h
    refine ⟨?_, OperationFamily.name_of_ofKey (actionFamily_lawful s) h⟩
    show (unboundAction (s.actualName name)).result s = .ok (some a)
    rw [(unboundAction_settles _).result_eq, names.actualName_actualName, h]
  unboundFunction := by
    intro name parameters f h
    have h : (unboundFunction name parameters).result s = .ok (some f) := h
    rw [(unboundFunction_settles name parameters).result_eq] at h
    refine ⟨?_, OperationFamily.name_of_ofKey (functionFamily_lawful s) h⟩
    show (unboundFunction (s.actualName name) parameters).result s = .ok (some f)
    rw [(unboundFunction_settles _ parameters).result_eq, names.actualName_actualName, h]
  boundAction := by
    intro name binding a h
    have h : (boundAction name binding).result s = .ok (some a) := h
    rw [(boundAction_settles name binding).result_eq] at h
    refine ⟨?_, OperationFamily.name_of_nearestOverload (actionFamily_lawful s) h⟩
    show (boundAction (s.actualName name) binding).result s = .ok (some a)
    rw [(boundAction_settles _ binding).result_eq, names.actualName_actualName, h]
  boundFunction := by
    intro name binding parameters f h
    have h : (boundFunction name binding parameters).result s = .ok (some f) := h
    rw [(boundFunction_settles name binding parameters).result_eq] at h
    refine ⟨?_, OperationFamily.name_of_nearestOverload (functionFamily_lawful s) h⟩
    show (boundFunction (s.actualName name) binding parameters).result s = .ok (some f)
    rw [(boundFunction_settles _ binding parameters).result_eq,
      names.actualName_actualName, h]

end ODataRequest
