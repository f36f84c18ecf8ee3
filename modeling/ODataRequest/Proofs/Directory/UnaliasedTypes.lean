import ODataRequest.Proofs.Directory.BaseTypes
import ODataRequest.Proofs.Directory.SameResult
import ODataRequest.Proofs.Directory.Unaliased

/-!
# ODataRequest.Proofs.Directory.UnaliasedTypes

Types of a source with and without aliases in its references. All look-ups of types come to the same
on both; the name that is looked up may be written with an alias on one side and with the namespace
on the other. For types with base types this is an induction along the chain: what stands under a
type is resolved for the same list of types, and redirecting a base type does not change the type
that comes next.
-/

namespace ODataRequest

open InDirectory

variable {s : Source}

/-! ### Names -/

theorem resolveNamespace_unaliased {space space' : Namespace}
    (h : s.realSpace space = s.realSpace space') :
    SameResult s s.unaliased (resolveNamespace space) (resolveNamespace space') :=
  .of_settles (resolveNamespace_settles space) (resolveNamespace_settles space')
    (by rw [Source.realSpace_unaliased, h])

theorem resolveAlias_unaliased {name name' : QualifiedName}
    (h : s.actualName name = s.actualName name') :
    SameResult s s.unaliased (resolveAlias name) (resolveAlias name') :=
  .of_settles (resolveAlias_settles name) (resolveAlias_settles name')
    (by rw [Source.actualName_unaliased, h])

/-- A reference is the same after it has been redirected. -/
theorem Source.WellNamed.actualReference_redirect (names : s.WellNamed) (t : TypeReference) :
    s.actualReference (t.redirect s.actualName) = s.actualReference t := by
  simp [actualReference, TypeReference.redirect, names.actualName_actualName]

@[simp] theorem Source.actualReference_unaliased :
    s.unaliased.actualReference = s.actualReference := by
  funext t
  simp [actualReference]

theorem resolveReference_unaliased (names : s.WellNamed) (t : TypeReference) :
    SameResult s s.unaliased (resolveReference t) (resolveReference (t.redirect s.actualName)) :=
  .of_settles (resolveReference_settles t) (resolveReference_settles _)
    (by rw [Source.actualReference_unaliased, names.actualReference_redirect])

/-! ### Requests -/

/-- Asking goes on with the same elements, up to their references. -/
theorem InDirectory.SameResult.bind_ask (names : s.WellNamed) (r : SourceRequest) {β : Type}
    {f f' : r.Answer → InDirectory β}
    (hf : SameResult s s.unaliased (f (s.answer r)) (f' (r.redirect s.actualName (s.answer r)))) :
    SameResult s s.unaliased (askSource r >>= f) (askSource r >>= f') := by
  refine .bind_settles (askSource_settles r) (askSource_settles r) ?_
  rwa [Source.answer_unaliased names]

/-! ### Types with base types -/

namespace TypeFamily

variable {δ α : Type} {family : TypeFamily δ α} {declared? : QualifiedName → Option δ}
variable {redirect : δ → δ}

/-- A type of the family is declared by both sources in the same way, up to its references. -/
structure Unaliases (family : TypeFamily δ α) (s : Source) (declared? : QualifiedName → Option δ)
    (redirect : δ → δ) : Prop where
  lawful : family.Lawful s
  lawful' : family.Lawful s.unaliased
  declares : ∀ name, (family.declared name).result s = .ok (declared? name)
  declares' : ∀ name, (family.declared name).result s.unaliased =
    .ok ((declared? name).map redirect)
  baseType : ∀ declared, family.baseType (redirect declared) =
    (family.baseType declared).map s.actualName
  complete : ∀ name declared base, (family.complete name (redirect declared) base).result s.unaliased =
    (family.complete name declared base).result s

/-- Resolving a type while others are being resolved comes to the same. -/
theorem resolveFrom_unaliased (names : s.WellNamed) (unaliases : family.Unaliases s declared? redirect)
    {visiting : List QualifiedName} {name : QualifiedName} {bound bound' : Nat}
    (path : family.Path s visiting name) (path' : family.Path s.unaliased visiting name)
    (enough : s.chainBound ≤ bound + visiting.length)
    (enough' : s.unaliased.chainBound ≤ bound' + visiting.length) :
    (family.resolveFrom bound visiting name).result s =
      (family.resolveFrom bound' visiting name).result s.unaliased := by
  obtain ⟨lawful, lawful', declares, declares', baseType, complete⟩ := unaliases
  by_cases hmem : name ∈ visiting
  · rw [resolveFrom_of_mem hmem, resolveFrom_of_mem hmem]
  cases found : declared? name with
  | none =>
    rw [resolveFrom_of_unknown lawful declares path found,
      resolveFrom_of_unknown lawful' declares' path' (by rw [found]; rfl)]
  | some type =>
    have found' : (declared? name).map redirect = some (redirect type) := by rw [found]; rfl
    have hdeclared : (family.declared name).result s = .ok (some type) := by rw [declares, found]
    have hdeclared' : (family.declared name).result s.unaliased = .ok (some (redirect type)) := by
      rw [declares', found']
    have hlt := path.length_lt lawful hmem hdeclared
    obtain ⟨below, hbelow, hresult⟩ :=
      resolveFrom_of_declared lawful declares path enough hmem found
    obtain ⟨below', hbelow', hresult'⟩ :=
      resolveFrom_of_declared lawful' declares' path' enough' hmem found'
    rw [hresult, hresult', baseType]
    simp only [complete]
    cases hbase : family.baseType type with
    | none => rfl
    | some base =>
      have hbase' : family.baseType (redirect type) = some (s.actualName base) := by
        rw [baseType, hbase]
        rfl
      have hup := path.up hmem hdeclared hbase
      have hup' := path'.up hmem hdeclared' hbase'
      rw [Source.actualName_unaliased, names.actualName_actualName] at hup'
      rw [Option.map_some, baseResult, baseResult, Source.actualName_unaliased,
        names.actualName_actualName,
        resolveFrom_unaliased names ⟨lawful, lawful', declares, declares', baseType, complete⟩ hup hup'
          hbelow hbelow']
termination_by s.chainBound - visiting.length
decreasing_by
  rw [List.length_cons]
  omega

theorem resolve_unaliased (names : s.WellNamed) (unaliases : family.Unaliases s declared? redirect)
    {name name' : QualifiedName} (h : s.actualName name = s.actualName name') :
    SameResult s s.unaliased (family.resolve name) (family.resolve name') := by
  refine .of_settles (resolve_settles unaliases.lawful name)
    (resolve_settles unaliases.lawful' name') ?_
  rw [Source.actualName_unaliased, h]
  exact resolveFrom_unaliased names unaliases .start .start (Nat.le_refl _) (Nat.le_refl _)

end TypeFamily

/-! ### Complex types -/

section Structured

variable (names : s.WellNamed)
include names

/-- Redirecting the references of a declared type does not change its level. -/
theorem level_redirect (name : QualifiedName) (hasStream : Bool) (t : Csdl.StructuredType) :
    s.unaliased.level name hasStream (t.redirect s.actualName) = s.level name hasStream t := by
  have hreference := names.actualReference_redirect
  simp [Source.level, Csdl.StructuredType.redirect, Csdl.Property.redirect,
    Csdl.NavigationProperty.redirect, hreference]

theorem complexTypeFamily_unaliases : complexTypeFamily.Unaliases s
    (fun name => s.answer (.complexType name)) (·.redirect s.actualName) where
  lawful := complexTypeFamily_lawful s
  lawful' := complexTypeFamily_lawful _
  declares name := (askSource_settles (.complexType name)).result_eq
  declares' name := (askSource_settles (.complexType name)).result_eq.trans
    (congrArg Except.ok (Source.answer_unaliased names (.complexType name)))
  baseType _ := rfl
  complete name declared base := by
    refine (completeComplexType_settles name _ base).result_eq.trans ?_
    rw [Source.complexLevel, level_redirect names]
    exact (completeComplexType_settles name declared base).result_eq.symm

theorem complexType_unaliased {name name' : QualifiedName}
    (h : s.actualName name = s.actualName name') :
    SameResult s s.unaliased (complexType name) (complexType name') :=
  TypeFamily.resolve_unaliased names (complexTypeFamily_unaliases names) h

/-! ### Entity types -/

theorem followPath_unaliased (unresolved : DirectoryError) (p : Csdl.Property)
    (ids : List Identifier) :
    SameResult s s.unaliased (followPath unresolved p ids) (followPath unresolved p ids) := by
  induction ids generalizing p with
  | nil => exact .pure p
  | cons id ids ih =>
    unfold followPath
    refine (complexType_unaliased names rfl).bind fun type => ?_
    split
    · exact ih _
    · exact .throw unresolved

theorem resolveKey_unaliased (t : StructuredType) (key : Csdl.KeyReference) :
    SameResult s s.unaliased (resolveKey t key) (resolveKey t key) := by
  unfold resolveKey
  split
  · exact .throw _
  · exact .throw _
  · split
    · exact .throw _
    · exact (followPath_unaliased names _ _ _).bind fun _ => .pure _

theorem completeEntityType_unaliased (name : QualifiedName) (declared : Csdl.EntityType)
    (base : Option EntityType) :
    SameResult s s.unaliased (completeEntityType name declared base)
      (completeEntityType name (declared.redirect s.actualName) base) := by
  have hlevel := resolveLevel_settles (s := s.unaliased) name declared.hasStream
    (declared.toStructuredType.redirect s.actualName)
  rw [level_redirect names] at hlevel
  refine .bind_settles (resolveLevel_settles name declared.hasStream _) hlevel ?_
  show SameResult s s.unaliased (if declared.key.isEmpty = true then _ else _)
    (if declared.key.isEmpty = true then _ else _)
  split
  · exact .pure _
  · exact (SameResult.mapM (fun key => resolveKey_unaliased names _ key) declared.key).bind
      fun keys => .pure _

theorem entityTypeFamily_unaliases : entityTypeFamily.Unaliases s
    (fun name => s.answer (.entityType name)) (·.redirect s.actualName) where
  lawful := entityTypeFamily_lawful s
  lawful' := entityTypeFamily_lawful _
  declares name := (askSource_settles (.entityType name)).result_eq
  declares' name := (askSource_settles (.entityType name)).result_eq.trans
    (congrArg Except.ok (Source.answer_unaliased names (.entityType name)))
  baseType _ := rfl
  complete name declared base := (completeEntityType_unaliased names name declared base).result_eq.symm

theorem entityType_unaliased {name name' : QualifiedName}
    (h : s.actualName name = s.actualName name') :
    SameResult s s.unaliased (entityType name) (entityType name') :=
  TypeFamily.resolve_unaliased names (entityTypeFamily_unaliases names) h

end Structured

/-! ### Other types -/

theorem underlyingKind_unaliased (name : QualifiedName) :
    SameResult s s.unaliased (underlyingKind name) (underlyingKind name) :=
  .of_settled (underlyingKind_settled name) (underlyingKind_settled name) (by
    unfold underlyingKind
    split <;> rfl)

theorem loadEnumType_unaliased (names : s.WellNamed) (name : QualifiedName) :
    SameResult s s.unaliased (loadEnumType name) (loadEnumType name) := by
  refine .bind_ask names (.enumType name) ?_
  dsimp only [SourceRequest.redirect]
  cases s.answer (.enumType name) with
  | none => exact .pure none
  | some declared =>
    dsimp only
    split
    · exact (SameResult.pure _).bind fun _ => .pure _
    · exact (underlyingKind_unaliased _).bind fun _ => .pure _

theorem enumType_unaliased (names : s.WellNamed) {name name' : QualifiedName}
    (h : s.actualName name = s.actualName name') :
    SameResult s s.unaliased (enumType name) (enumType name') := by
  refine (resolveAlias_unaliased h).bind fun real => ?_
  exact .remembered (enumTypeStore_keeps s) (enumTypeStore_keeps _) (fun _ => Iff.rfl)
    (fun _ => Iff.rfl) (loadEnumType_unaliased names real)

theorem loadTypeDefinition_unaliased (names : s.WellNamed) (name : QualifiedName) :
    SameResult s s.unaliased (loadTypeDefinition name) (loadTypeDefinition name) := by
  refine .bind_ask names (.typeDefinition name) ?_
  dsimp only [SourceRequest.redirect]
  cases s.answer (.typeDefinition name) with
  | none => exact .pure none
  | some declared => exact (underlyingKind_unaliased _).bind fun _ => .pure _

theorem typeDefinition_unaliased (names : s.WellNamed) {name name' : QualifiedName}
    (h : s.actualName name = s.actualName name') :
    SameResult s s.unaliased (typeDefinition name) (typeDefinition name') := by
  refine (resolveAlias_unaliased h).bind fun real => ?_
  exact .remembered (typeDefinitionStore_keeps s) (typeDefinitionStore_keeps _) (fun _ => Iff.rfl)
    (fun _ => Iff.rfl) (loadTypeDefinition_unaliased names real)

/-! ### Any type -/

theorem resolveType_unaliased (names : s.WellNamed) {name name' : QualifiedName}
    (h : s.actualName name = s.actualName name') :
    SameResult s s.unaliased (resolveType name) (resolveType name') := by
  refine (resolveAlias_unaliased h).bind fun real => ?_
  split
  · exact .pure _
  refine (entityType_unaliased names rfl).bind fun entity => ?_
  cases entity with
  | some t => exact .pure _
  | none =>
    refine (complexType_unaliased names rfl).bind fun complex => ?_
    cases complex with
    | some t => exact .pure _
    | none =>
      refine (enumType_unaliased names rfl).bind fun enumeration => ?_
      cases enumeration with
      | some t => exact .pure _
      | none => exact (typeDefinition_unaliased names rfl).bind fun _ => .pure _

theorem derivedTypes_unaliased (names : s.WellNamed) {name name' : QualifiedName}
    (h : s.actualName name = s.actualName name') :
    SameResult s s.unaliased (derivedTypes name) (derivedTypes name') := by
  refine (resolveAlias_unaliased h).bind fun real => ?_
  have hask : SameResult s s.unaliased (askDerivedTypes real) (askDerivedTypes real) :=
    .of_settles (askDerivedTypes_settles real) (askDerivedTypes_settles real)
      (by rw [Source.derivedTypes_unaliased names]; rfl)
  exact hask.bind fun types => .mapM (fun type => resolveAlias_unaliased rfl) types

end ODataRequest
