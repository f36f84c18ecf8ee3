import ODataRequest.Proofs.Directory.Inheritance

/-!
# ODataRequest.Proofs.Directory.Types

All look-ups of types are settled. Complex types come first, since the keys of entity types lead
through them; both are families in the sense of `ODataRequest.Proofs.Directory.Inheritance`, whose
types are found by finitely many names.
-/

namespace ODataRequest

open InDirectory

variable {s : Source}

/-! ### Declared types -/

namespace Source

/-- The names that the elements of a sort can be asked for by: their own, in every namespace and in every
alias. -/
def knownNames {α : Type} (s : Source) (items : Csdl.Schema → List α) (nameOf : α → Identifier) :
    List QualifiedName :=
  (s.spaces ++ s.aliasSpaces).flatMap fun space =>
    (s.schemas.flatMap items).map fun item => ⟨space, nameOf item⟩

/-- An element is found under a name in a namespace or in an alias. -/
theorem mem_knownNames {α : Type} {items : Csdl.Schema → List α} {nameOf : α → Identifier}
    {name : QualifiedName} {item : α} (h : s.find? items nameOf name = some item) :
    name ∈ s.knownNames items nameOf := by
  obtain ⟨schema, hschema, hitem, hname⟩ := mem_of_find? h
  obtain ⟨hspace, hid⟩ := QualifiedName.mk.inj hname
  have hknown : name.space ∈ s.spaces ++ s.aliasSpaces := by
    by_cases halias : name.space ∈ s.aliasSpaces
    · exact List.mem_append_right _ halias
    · rw [realSpace_eq_self halias] at hspace
      rw [hspace]
      exact List.mem_append_left _ (mem_spaces hschema)
  refine List.mem_flatMap.mpr ⟨name.space, hknown, List.mem_map.mpr ⟨item, ?_, ?_⟩⟩
  · exact List.mem_flatMap.mpr ⟨schema, hschema, hitem⟩
  · rw [← hid]

theorem length_knownNames_lt {α : Type} (s : Source) {items : Csdl.Schema → List α}
    (nameOf : α → Identifier)
    (hitems : ∀ schema, (items schema).length ≤
      schema.entityTypes.length + schema.complexTypes.length) :
    (s.knownNames items nameOf).length < s.chainBound := by
  have htypes : ∀ schemas : List Csdl.Schema, (schemas.flatMap items).length ≤
      schemas.foldr (fun schema n => schema.entityTypes.length + schema.complexTypes.length + n) 0 := by
    intro schemas
    induction schemas with
    | nil => simp
    | cons schema schemas ih =>
      have hschema := hitems schema
      simp only [List.flatMap_cons, List.length_append, List.foldr_cons]
      omega
  have hspaces : (s.spaces ++ s.aliasSpaces).length ≤ 2 * s.schemas.length := by
    have halias : s.aliasSpaces.length ≤ s.schemas.length := List.length_filterMap_le _ _
    rw [List.length_append, spaces, List.length_map]
    omega
  have hlength : (s.knownNames items nameOf).length =
      (s.spaces ++ s.aliasSpaces).length * (s.schemas.flatMap items).length := by
    simp [knownNames, List.length_flatMap, Nat.add_mul]
  rw [hlength, chainBound, Nat.mul_comm]
  exact Nat.mul_lt_mul_of_lt_of_le (Nat.lt_succ_of_le (htypes s.schemas)) (Nat.le_succ_of_le hspaces)
    (Nat.succ_pos _)

/-- The bound on chains is above the number of names that types of either sort are found by. -/
theorem length_lt_chainBound (s : Source) :
    (s.knownNames (·.entityTypes) (·.name)).length < s.chainBound ∧
      (s.knownNames (·.complexTypes) (·.name)).length < s.chainBound :=
  ⟨s.length_knownNames_lt _ fun _ => Nat.le_add_right _ _,
    s.length_knownNames_lt _ fun _ => Nat.le_add_left _ _⟩

end Source

/-! ### Structured types -/

theorem resolveProperty_settles (p : Csdl.Property) :
    Settles s (resolveProperty p)
      (.ok { p with type := s.actualReference p.type }) :=
  (resolveReference_settles p.type).bind_ok (.pure _)

theorem resolveNavigationProperty_settles (p : Csdl.NavigationProperty) :
    Settles s (resolveNavigationProperty p)
      (.ok { p with type := s.actualReference p.type }) :=
  (resolveReference_settles p.type).bind_ok (.pure _)

theorem resolveLevel_settled (name : QualifiedName) (hasStream : Bool) (t : Csdl.StructuredType) :
    Settled s (resolveLevel name hasStream t) := by
  refine Settled.bind (.mapM fun p _ => (resolveProperty_settles p).settled) fun _ _ => ?_
  refine Settled.bind (.mapM fun p _ => (resolveNavigationProperty_settles p).settled) fun _ _ => ?_
  exact .pure _

theorem completeComplexType_settled (name : QualifiedName) (declared : Csdl.StructuredType)
    (base : Option StructuredType) : Settled s (completeComplexType name declared base) :=
  (resolveLevel_settled name false declared).bind fun _ _ => .pure _

theorem complexTypeFamily_lawful (s : Source) : complexTypeFamily.Lawful s where
  keeps := complexTypeStore_keeps s
  declared name := (askSource_settles (.complexType name)).settled
  complete := completeComplexType_settled
  finite := by
    refine ⟨_, s.length_lt_chainBound.2, fun name declared found => ?_⟩
    rw [show complexTypeFamily.declared name = askSource (.complexType name) from rfl,
      (askSource_settles _).result_eq] at found
    exact Source.mem_knownNames (Except.ok.inj found)

theorem complexType_settled (name : QualifiedName) :
    Settled s (complexType name) :=
  (TypeFamily.resolve_settled (complexTypeFamily_lawful s) name).1

/-! ### Keys -/

theorem followPath_settled (unresolved : DirectoryError) (p : Csdl.Property)
    (ids : List Identifier) : Settled s (followPath unresolved p ids) := by
  induction ids generalizing p with
  | nil => exact .pure p
  | cons id ids ih =>
    unfold followPath
    refine (complexType_settled p.type.name).bind fun type _ => ?_
    split
    · exact ih _
    · exact .throw unresolved

theorem resolveKey_settled (t : StructuredType) (key : Csdl.KeyReference) :
    Settled s (resolveKey t key) := by
  unfold resolveKey
  split
  · exact .throw _
  · exact .throw _
  · split
    · exact .throw _
    · exact (followPath_settled _ _ _).bind fun _ _ => .pure _

theorem completeEntityType_settled (name : QualifiedName)
    (declared : Csdl.EntityType) (base : Option EntityType) :
    Settled s (completeEntityType name declared base) := by
  refine (resolveLevel_settled name declared.hasStream _).bind fun own _ => ?_
  by_cases hkey : declared.key.isEmpty = true
  · simp only [hkey, if_true]
    exact Settled.bind (.pure _) fun _ _ => .pure _
  · simp only [hkey]
    exact Settled.bind (.mapM fun key _ => resolveKey_settled _ key) fun _ _ => .pure _

theorem entityTypeFamily_lawful (s : Source) : entityTypeFamily.Lawful s where
  keeps := entityTypeStore_keeps s
  declared name := (askSource_settles (.entityType name)).settled
  complete := completeEntityType_settled
  finite := by
    refine ⟨_, s.length_lt_chainBound.1, fun name declared found => ?_⟩
    rw [show entityTypeFamily.declared name = askSource (.entityType name) from rfl,
      (askSource_settles _).result_eq] at found
    exact Source.mem_knownNames (Except.ok.inj found)

theorem entityType_settled (name : QualifiedName) :
    Settled s (entityType name) :=
  (TypeFamily.resolve_settled (entityTypeFamily_lawful s) name).1

/-! ### Enumerations and type definitions -/

theorem underlyingKind_settled (name : QualifiedName) : Settled s (underlyingKind name) := by
  unfold underlyingKind
  split
  · exact .pure _
  · exact .throw _

theorem loadEnumType_settled (name : QualifiedName) : Settled s (loadEnumType name) := by
  refine (askSource_settles (.enumType name)).settled.bind fun o _ => ?_
  cases o with
  | none => exact .pure none
  | some declared =>
    dsimp only
    split
    · exact Settled.bind (.pure _) fun _ _ => .pure _
    · exact (underlyingKind_settled _).bind fun _ _ => .pure _

/-- A store that holds what is loaded remembers what is loaded. -/
theorem remembered_load_settled {κ α : Type} [DecidableEq κ] {store : StoreIn κ α} {key : κ}
    {load : κ → InDirectory (Option α)}
    (keeps : store.Keeps s fun key value => (load key).result s = .ok (some value))
    (hload : Settled s (load key)) : Settled s (store.remembered key (load key)) :=
  (remembered_settles keeps hload fun _ => Iff.rfl).settled

theorem enumType_settled (name : QualifiedName) : Settled s (enumType name) :=
  (resolveAlias_settles name).bind_settled
    (remembered_load_settled (enumTypeStore_keeps s) (loadEnumType_settled _))

theorem loadTypeDefinition_settled (name : QualifiedName) :
    Settled s (loadTypeDefinition name) := by
  refine (askSource_settles (.typeDefinition name)).settled.bind fun o _ => ?_
  cases o with
  | none => exact .pure none
  | some declared => exact (underlyingKind_settled _).bind fun _ _ => .pure _

theorem typeDefinition_settled (name : QualifiedName) : Settled s (typeDefinition name) :=
  (resolveAlias_settles name).bind_settled
    (remembered_load_settled (typeDefinitionStore_keeps s) (loadTypeDefinition_settled _))

/-! ### Any type -/

/-- What looking up a type by its real name gives. -/
def resolvedType (s : Source) (name : QualifiedName) : Except DirectoryError (Option ModelType) :=
  if name.isEdm then .ok ((PrimitiveKind.ofName? name).map .primitive)
  else do
    match ← (entityType name).result s with
    | some t => .ok (some (.entity t))
    | none =>
      match ← (complexType name).result s with
      | some t => .ok (some (.complex t))
      | none =>
        match ← (enumType name).result s with
        | some t => .ok (some (.enumeration t))
        | none => do return (← (typeDefinition name).result s).map .definition

theorem resolveType_settles (name : QualifiedName) :
    Settles s (resolveType name) (resolvedType s (s.actualName name)) := by
  refine (resolveAlias_settles name).bind_ok ?_
  unfold resolvedType
  by_cases hedm : (s.actualName name).isEdm = true
  · rw [if_pos hedm, if_pos hedm]
    exact .pure _
  · rw [if_neg hedm, if_neg hedm]
    refine Settles.bind (entityType_settled _) fun entity _ => ?_
    cases entity with
    | some t => exact .pure _
    | none =>
      refine Settles.bind (complexType_settled _) fun complex _ => ?_
      cases complex with
      | some t => exact .pure _
      | none =>
        refine Settles.bind (enumType_settled _) fun enumeration _ => ?_
        cases enumeration with
        | some t => exact .pure _
        | none => exact Settles.bind (typeDefinition_settled _) fun _ _ => .pure _

theorem resolveType_settled (name : QualifiedName) :
    Settled s (resolveType name) :=
  (resolveType_settles name).settled

theorem askDerivedTypes_settles (name : QualifiedName) :
    Settles s (askDerivedTypes name)
      (.ok (if s.basicOnly then [] else s.derivedTypes name)) := by
  refine Settles.readDirectory fun d hd => ?_
  rw [hd.source]
  split
  · exact .pure []
  · exact askSource_settles (.derivedTypes name)

theorem derivedTypes_settled (name : QualifiedName) : Settled s (derivedTypes name) := by
  refine (resolveAlias_settles name).bind_settled ?_
  refine (askDerivedTypes_settles _).settled.bind fun names _ => ?_
  exact .mapM fun name _ => (resolveAlias_settles name).settled

end ODataRequest
