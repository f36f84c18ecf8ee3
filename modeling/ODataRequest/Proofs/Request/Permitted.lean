import ODataRequest.Proofs.Path.Resolved
import ODataRequest.Proofs.Request.Reader
import ODataRequest.Request.Validation

/-!
# ODataRequest.Proofs.Request.Permitted

What a request that is read and validated may carry (`Request.Permitted`): which options belong to
collections and which to structured types, where an `$id` may stand, which methods come with options
at all, and which methods the addresses that are no paths have.

The table of shapes does not look at the path again: that the number of members is asked of a
collection only, say, is known from the shape of paths. Both together give the theorem.
-/

namespace ODataRequest

/-! ### Shapes of requests -/

namespace RequestShape

/-- Is it a collection, or the number of its members, or references to them? -/
def ofCollection : RequestShape → Bool
  | .entitySet | .entitySetCount | .references | .complexCollection | .complexCollectionCount
  | .primitiveCollection | .primitiveCollectionCount => true
  | _ => false

/-- Is it the shape of a path? -/
def isOfPath : RequestShape → Bool
  | .all | .batch | .crossJoin | .entityId | .metadata | .service => false
  | _ => true

/-- Is it a value or a collection of a structured type? -/
def ofStructured : RequestShape → Bool
  | .entitySet | .entity | .complexCollection | .complex => true
  | _ => false

end RequestShape

/-- The options that choose or arrange the members of a collection. -/
def OptionKind.forCollections : List OptionKind :=
  [.filter, .orderBy, .top, .skip, .skipToken, .count, .search]

/-- The options that choose parts of structured values. -/
def OptionKind.forStructured : List OptionKind :=
  [.select, .expand]

namespace RequestShape

variable {shape : RequestShape} {kind : OptionKind}

theorem of_allows_forCollections (hkind : kind ∈ OptionKind.forCollections)
    (h : shape.allows kind = true) :
    shape = .all ∨ shape = .crossJoin ∨ shape.ofCollection = true := by
  cases shape with
  | all => exact Or.inl rfl
  | crossJoin => exact Or.inr (Or.inl rfl)
  | entitySet | entitySetCount | references | complexCollection | complexCollectionCount
  | primitiveCollection | primitiveCollectionCount => exact Or.inr (Or.inr rfl)
  | _ =>
    simp only [OptionKind.forCollections, List.mem_cons, List.not_mem_nil, or_false] at hkind
    rcases hkind with rfl | rfl | rfl | rfl | rfl | rfl | rfl <;> cases h

theorem of_allows_forStructured (hkind : kind ∈ OptionKind.forStructured)
    (h : shape.allows kind = true) :
    shape = .all ∨ shape = .crossJoin ∨ shape = .entityId ∨ shape.ofStructured = true := by
  cases shape with
  | all => exact Or.inl rfl
  | crossJoin => exact Or.inr (Or.inl rfl)
  | entityId => exact Or.inr (Or.inr (Or.inl rfl))
  | entitySet | entity | complexCollection | complex => exact Or.inr (Or.inr (Or.inr rfl))
  | _ =>
    simp only [OptionKind.forStructured, List.mem_cons, List.not_mem_nil, or_false] at hkind
    rcases hkind with rfl | rfl <;> cases h

theorem of_allows_id (h : shape.allows .id = true) : shape = .entityId ∨ shape = .references := by
  cases shape with
  | entityId => exact Or.inl rfl
  | references => exact Or.inr rfl
  | _ => cases h

theorem ofType_ofCollection {type : Option ModelType} {isCollection : Bool}
    (h : (ofType type isCollection).ofCollection = true) : isCollection = true := by
  cases isCollection with
  | true => rfl
  | false => rcases type with _ | ⟨_ | _ | _ | _ | _⟩ <;> cases h

theorem ofType_ofStructured {type : Option ModelType} {isCollection : Bool}
    (h : (ofType type isCollection).ofStructured = true) :
    (∃ entity, type = some (.entity entity)) ∨ ∃ complex, type = some (.complex complex) := by
  rcases type with _ | ⟨_ | entity | complex | _ | _⟩
  · cases h
  · cases isCollection <;> cases h
  · exact Or.inl ⟨entity, rfl⟩
  · exact Or.inr ⟨complex, rfl⟩
  · cases isCollection <;> cases h
  · cases isCollection <;> cases h

theorem ofType_ne_references (type : Option ModelType) (isCollection : Bool) :
    ofType type isCollection ≠ .references := by
  rcases type with _ | ⟨_ | _ | _ | _ | _⟩ <;> cases isCollection <;> exact nofun

theorem ofCount_ofStructured (type : Option ModelType) : (ofCount type).ofStructured = false := by
  rcases type with _ | ⟨_ | _ | _ | _ | _⟩ <;> rfl

theorem ofCount_ne_references (type : Option ModelType) : ofCount type ≠ .references := by
  rcases type with _ | ⟨_ | _ | _ | _ | _⟩ <;> exact nofun

theorem ofCount_isCount (type : ModelType) : (ofCount (some type)).isCount = true := by
  cases type <;> rfl

theorem isOfPath_ofType (type : Option ModelType) (isCollection : Bool) :
    (ofType type isCollection).isOfPath = true := by
  rcases type with _ | ⟨_ | _ | _ | _ | _⟩ <;> cases isCollection <;> rfl

theorem isOfPath_ofCount (type : Option ModelType) : (ofCount type).isOfPath = true := by
  rcases type with _ | ⟨_ | _ | _ | _ | _⟩ <;> rfl

theorem isOfPath_ofPath (resources : List Resource) : (ofPath resources).isOfPath = true := by
  cases resources with
  | nil => rfl
  | cons last earlier =>
    cases last with
    | count => exact isOfPath_ofCount _
    | ref =>
      simp only [ofPath]
      split <;> rfl
    | value =>
      simp only [ofPath]
      split <;> rfl
    | it | lambdaVariable | lambda | notEmpty => rfl
    | _ => exact isOfPath_ofType _ _

/-- The type of the last resource decides if this is no aspect of the one before it. -/
theorem ofPath_cons {r : Resource} {earlier : List Resource} (haspect : Address.isAspect r = false)
    (hexpression : r.ofExpression = false) :
    ofPath (r :: earlier) = ofType r.type? r.isCollection := by
  cases r with
  | count | value | ref => cases haspect
  | it | lambdaVariable | lambda | notEmpty => cases hexpression
  | _ => rfl

end RequestShape

/-! ### The target of a path -/

/-- The target of a path: its last resource that is no number, reference or value. -/
def targetOf? (path : List Resource) : Option Resource :=
  path.reverse.find? (!Address.isAspect ·)

/-- A path ends in its target, or in a number, a reference or the value of it. -/
inductive EndsIn (target : Resource) : List Resource → Prop
  | proper {before : List Resource} (expression : target.ofExpression = false) :
      EndsIn target (before ++ [target])
  | aspect {before : List Resource} {aspect : Resource} (isAspect : Address.isAspect aspect = true)
      (goesOn : target.endsPath = false) (fits : target.Fits aspect) :
      EndsIn target (before ++ [target, aspect])

namespace PathShape

variable {path : List Resource}

/-- Every path has a target. -/
theorem exists_target (h : PathShape path) :
    ∃ target, targetOf? path = some target ∧ Address.isAspect target = false ∧
      EndsIn target path := by
  obtain ⟨first, rest, hpath, hstarts⟩ := h.first
  rcases List.eq_nil_or_concat path with rfl | ⟨before, last, rfl⟩
  · cases hpath
  rw [List.concat_eq_append] at *
  cases haspect : Address.isAspect last with
  | false =>
    refine ⟨last, by simp [targetOf?, haspect], haspect, .proper ?_⟩
    exact h.noExpression last (by simp)
  | true =>
    rcases List.eq_nil_or_concat before with rfl | ⟨before, target, rfl⟩
    · -- an aspect cannot be the first resource
      cases hpath
      rcases Resource.eq_of_isAspect haspect with rfl | rfl | rfl <;> cases hstarts
    · rw [List.concat_eq_append, List.append_assoc] at *
      have hgoesOn : target.endsPath = false := by
        by_contra hends
        have hlast := h.last before target [last] rfl (by simpa using hends)
        cases hlast
      have htarget : Address.isAspect target = false := by
        by_contra htarget
        have hends := Resource.endsPath_of_isAspect (by simpa using htarget)
        rw [hgoesOn] at hends
        cases hends
      exact ⟨target, by simp [targetOf?, haspect, htarget], htarget,
        .aspect haspect hgoesOn (h.steps before target last [] rfl)⟩

end PathShape

/-! ### Shapes of paths -/

namespace EndsIn

variable {target : Resource} {path : List Resource}

/-- The shape of a path that ends in its target. -/
theorem ofPath_proper {before : List Resource} (htarget : Address.isAspect target = false)
    (expression : target.ofExpression = false) :
    RequestShape.ofPath (before ++ [target]).reverse =
      .ofType target.type? target.isCollection := by
  rw [List.reverse_append, List.reverse_singleton, List.singleton_append]
  exact RequestShape.ofPath_cons htarget expression

theorem reverse_aspect (before : List Resource) (target aspect : Resource) :
    (before ++ [target, aspect]).reverse = aspect :: target :: before.reverse := by
  simp

theorem isCollection_of_shape (h : EndsIn target path) (htarget : Address.isAspect target = false)
    (hshape : (RequestShape.ofPath path.reverse).ofCollection = true) :
    target.isCollection = true := by
  cases h with
  | proper expression =>
    rw [ofPath_proper htarget expression] at hshape
    exact RequestShape.ofType_ofCollection hshape
  | aspect isAspect _ fits =>
    rw [reverse_aspect] at hshape
    rcases Resource.eq_of_isAspect isAspect with rfl | rfl | rfl
    · exact fits
    · by_cases hcollection : target.isCollection = true
      · exact hcollection
      · simp [RequestShape.ofPath, hcollection, RequestShape.ofCollection] at hshape
    · simp only [RequestShape.ofPath] at hshape
      split at hshape <;> cases hshape

theorem structured_of_shape (h : EndsIn target path) (htarget : Address.isAspect target = false)
    (hshape : (RequestShape.ofPath path.reverse).ofStructured = true) :
    path.getLast? = some target ∧ ((∃ entity, target.type? = some (.entity entity)) ∨
      ∃ complex, target.type? = some (.complex complex)) := by
  cases h with
  | proper expression =>
    rw [ofPath_proper htarget expression] at hshape
    exact ⟨List.getLast?_concat, RequestShape.ofType_ofStructured hshape⟩
  | aspect isAspect _ _ =>
    rw [reverse_aspect] at hshape
    rcases Resource.eq_of_isAspect isAspect with rfl | rfl | rfl
    · simp [RequestShape.ofPath, RequestShape.ofCount_ofStructured] at hshape
    · simp only [RequestShape.ofPath] at hshape
      split at hshape <;> cases hshape
    · simp only [RequestShape.ofPath] at hshape
      split at hshape <;> cases hshape

theorem references_of_shape (h : EndsIn target path) (htarget : Address.isAspect target = false)
    (hshape : RequestShape.ofPath path.reverse = .references) :
    target.isCollection = true ∧ ∃ before, path = before ++ [target, .ref] := by
  have hcollection := h.isCollection_of_shape htarget (by rw [hshape]; rfl)
  cases h with
  | proper expression =>
    rw [ofPath_proper htarget expression] at hshape
    exact absurd hshape (RequestShape.ofType_ne_references _ _)
  | @aspect before _ isAspect _ _ =>
    rw [reverse_aspect] at hshape
    rcases Resource.eq_of_isAspect isAspect with rfl | rfl | rfl
    · exact absurd hshape (RequestShape.ofCount_ne_references _)
    · exact ⟨hcollection, before, rfl⟩
    · simp only [RequestShape.ofPath] at hshape
      split at hshape <;> cases hshape

end EndsIn

/-- A collection that does not end its path has a type. -/
theorem Resource.exists_type_of_isCollection {r : Resource} (h : r.isCollection = true)
    (hgoesOn : r.endsPath = false) : ∃ type, r.type? = some type := by
  cases r with
  | action => cases hgoesOn
  | entitySet | navigation | property | function => exact ⟨_, rfl⟩
  | _ => cases h

/-- What is counted is a collection of values of some type. -/
theorem PathShape.isCount_of_count {before : List Resource}
    (h : PathShape (before ++ [Resource.count])) :
    (RequestShape.ofPath (before ++ [Resource.count]).reverse).isCount = true := by
  obtain ⟨target, -, htarget, hends⟩ := h.exists_target
  generalize hpath : before ++ [Resource.count] = path at hends ⊢
  cases hends with
  | proper _ =>
    obtain ⟨-, hlast⟩ := List.append_inj' hpath rfl
    cases hlast
    cases htarget
  | @aspect earlier aspect isAspect goesOn fits =>
    have hlast : aspect = .count := by
      simpa using (congrArg List.getLast? hpath).symm
    subst hlast
    obtain ⟨type, htype⟩ := Resource.exists_type_of_isCollection fits goesOn
    rw [EndsIn.reverse_aspect, RequestShape.ofPath, List.head?_cons, Option.bind_some, htype]
    exact RequestShape.ofCount_isCount type

theorem RequestShape.isOfPath_of_ofCollection {shape : RequestShape}
    (h : shape.ofCollection = true) : shape.isOfPath = true := by
  cases shape <;> first | rfl | cases h

theorem RequestShape.isOfPath_of_ofStructured {shape : RequestShape}
    (h : shape.ofStructured = true) : shape.isOfPath = true := by
  cases shape <;> first | rfl | cases h

/-! ### Validated requests -/

namespace Request

variable {r : Request} {method : HttpMethod}

/-- An option of the kind is set. -/
def Has (r : Request) (kind : OptionKind) : Prop :=
  kind ∈ r.options.map SystemOption.kind

theorem mem_optionKinds {kind : OptionKind} :
    kind ∈ r.optionKinds ↔ r.Has kind ∧ kind ≠ .levels := by
  have hall : kind ∈ OptionKind.all := by cases kind <;> decide
  unfold optionKinds SystemOption.kinds SystemOption.find? Has
  simp [hall, List.find?_isSome, and_comm]

/-- A request is valid with a method that can be applied and comes with the options, if its shape has
all of them. -/
theorem validate_eq_ok :
    r.validate method = .ok () ↔ r.supports method = true ∧
      r.optionAgainstMethod? method = none ∧
      ∀ kind ∈ r.optionKinds, r.shape.allows kind = true := by
  unfold validate
  cases hsupports : r.supports method with
  | false => simp
  | true =>
    cases hagainst : r.optionAgainstMethod? method with
    | some option => simp
    | none =>
      cases hfind : r.optionKinds.find? (!r.shape.allows ·) with
      | some option =>
        have hmem := List.mem_of_find?_eq_some hfind
        have hrefused := List.find?_some hfind
        simp at hrefused ⊢
        exact ⟨option, hmem, hrefused⟩
      | none => simpa using hfind

/-- What methods come with options: an `$id` for references stands with no reading, an action takes
all of them, references are deleted by their `$id`, and nothing else comes with a method that does
not read. -/
theorem optionAgainstMethod?_eq_none (h : r.optionAgainstMethod? method = none) :
    (method = .get ∧ (r.shape = .references → .id ∉ r.optionKinds)) ∨
      (method = .post ∧ r.invokesAction = true) ∨
      (method = .delete ∧ r.shape = .references ∧ r.optionKinds = [.id]) ∨ r.optionKinds = [] := by
  unfold optionAgainstMethod? at h
  simp only at h
  split at h
  · rename_i hget
    refine Or.inl ⟨hget, fun hshape hmem => ?_⟩
    simp [hshape, hmem] at h
  split at h
  · rename_i hpost
    exact Or.inr (Or.inl hpost)
  split at h
  · rename_i hdelete
    exact Or.inr (Or.inr (Or.inl hdelete))
  · exact Or.inr (Or.inr (Or.inr (List.head?_eq_none_iff.mp h)))

/-- Only the number of something, the model, entities of all kinds and cross joins are read alone, and
a batch is posted. -/
theorem method_of_supports (h : r.supports method = true) :
    (r.address = .batch → method = .post) ∧ (r.onlyRead = true → method = .get) := by
  unfold supports at h
  cases method with
  | other text => cases h
  | get => exact ⟨fun hbatch => by simp [hbatch] at h, fun _ => rfl⟩
  | post => exact ⟨fun _ => rfl, fun hread => by simp [hread] at h⟩
  | _ => exact ⟨fun hbatch => by simp [hbatch] at h, fun hread => by simp [hread] at h⟩

/-! ### Permitted requests -/

/-- References to the members of a collection are deleted, with an `$id` and no other option. -/
structure DeletesReference (r : Request) (method : HttpMethod) : Prop where
  method : method = .delete
  alone : r.options.map SystemOption.kind = [.id]
  references : ∃ before previous, r.address = .resource (before ++ [previous, .ref]) ∧
    previous.isCollection = true

/-- What a request carries that is read and validated. -/
structure Permitted (r : Request) (method : HttpMethod) : Prop where
  /-- Members are chosen and arranged where there is a collection. -/
  collection : ∀ kind ∈ OptionKind.forCollections, r.Has kind →
    (∃ cast, r.address = .all cast) ∨ (∃ sets, r.address = .crossJoin sets) ∨
      ∃ path target, r.address = .resource path ∧ targetOf? path = some target ∧
        target.isCollection = true
  /-- Parts are chosen of structured values, and not of aspects of them. -/
  structured : ∀ kind ∈ OptionKind.forStructured, r.Has kind →
    (∃ cast, r.address = .all cast) ∨ (∃ sets, r.address = .crossJoin sets) ∨
      (∃ cast, r.address = .entityId cast) ∨
      ∃ path target, r.address = .resource path ∧ targetOf? path = some target ∧
        path.getLast? = some target ∧ ((∃ entity, target.type? = some (.entity entity)) ∨
          ∃ complex, target.type? = some (.complex complex))
  /-- An entity is named by its id to be read, or to delete a reference to it. -/
  id : r.Has .id →
    (method = .get ∧ ∃ cast, r.address = .entityId cast) ∨ r.DeletesReference method
  /-- Other methods than `GET` have options only there and for actions. -/
  options : method ≠ .get → r.options ≠ [] → r.DeletesReference method ∨
    (method = .post ∧ ∃ before action byImport returnType,
      r.address = .resource (before ++ [.action action byImport returnType]))
  batch : r.address = .batch → method = .post
  /-- What is only read. -/
  read : (r.address = .metadata ∨ (∃ cast, r.address = .all cast) ∨
      (∃ sets, r.address = .crossJoin sets) ∨ (∃ cast, r.address = .entityId cast) ∨
      ∃ before, r.address = .resource (before ++ [.count])) → method = .get

theorem exists_path_of_shape (h : r.shape.isOfPath = true) : ∃ path, r.address = .resource path := by
  unfold shape at h
  cases haddress : r.address with
  | resource path => exact ⟨path, rfl⟩
  | _ =>
    rw [haddress] at h
    cases h

theorem shape_resource {path : List Resource} (h : r.address = .resource path) :
    r.shape = RequestShape.ofPath path.reverse := by
  unfold shape
  rw [h]
  rfl

/-- The shape of a request that addresses no path tells what it addresses. -/
theorem address_of_shape :
    (r.shape = .all → ∃ cast, r.address = .all cast) ∧
      (r.shape = .crossJoin → ∃ sets, r.address = .crossJoin sets) ∧
      (r.shape = .entityId → ∃ cast, r.address = .entityId cast) := by
  cases haddress : r.address with
  | resource path =>
    have hpath := RequestShape.isOfPath_ofPath path.reverse
    rw [← shape_resource haddress] at hpath
    refine ⟨fun h => ?_, fun h => ?_, fun h => ?_⟩
    all_goals
      rw [h] at hpath
      cases hpath
  | _ => simp [shape, haddress, RequestShape.ofAddress]

/-- An action that is invoked ends the path. -/
theorem exists_action (hinvokes : r.invokesAction = true) :
    ∃ before action byImport returnType,
      r.address = .resource (before ++ [.action action byImport returnType]) := by
  unfold invokesAction lastResource? at hinvokes
  split at hinvokes
  · rename_i action byImport returnType hlast
    cases haddress : r.address with
    | resource path =>
      rw [haddress] at hlast
      obtain ⟨before, hpath⟩ := List.getLast?_eq_some_iff.mp hlast
      exact ⟨before, action, byImport, returnType, by rw [← hpath]; rfl⟩
    | _ =>
      rw [haddress] at hlast
      cases hlast
  · cases hinvokes

/-- The result of an action is no reference, and an action is no entity that is given by its id. -/
theorem not_allows_id_of_invokesAction (hinvokes : r.invokesAction = true) :
    r.shape.allows .id = false := by
  obtain ⟨before, action, byImport, returnType, haddress⟩ := exists_action hinvokes
  have hshape : r.shape =
      .ofType returnType (Resource.action action byImport returnType).isCollection := by
    rw [shape_resource haddress]
    exact EndsIn.ofPath_proper rfl rfl
  by_contra hallows
  rcases RequestShape.of_allows_id (by simpa using hallows) with hid | hreferences
  · have hpath : r.shape.isOfPath = true := by
      rw [shape_resource haddress]
      exact RequestShape.isOfPath_ofPath _
    rw [hid] at hpath
    cases hpath
  · rw [hreferences] at hshape
    exact RequestShape.ofType_ne_references _ _ hshape.symm

/-! ### Accepted requests -/

/-- What is known of every request that is read. -/
structure WellRead (r : Request) : Prop where
  paths : ∀ path, r.address = .resource path → PathShape path
  distinct : (r.options.map SystemOption.kind).Nodup
  noLevels : .levels ∉ r.options.map SystemOption.kind

theorem wellRead_of_gives_read {answers : Answers} {config : Config} {path : String}
    {query fragment : Option String} (h : (read config path query fragment).Gives answers r) :
    r.WellRead := by
  obtain ⟨hdistinct, hlevels⟩ := kinds_of_gives_read h
  refine ⟨fun path hpath => ?_, hdistinct, hlevels⟩
  obtain ⟨_, _, -, -, -, haddress, -⟩ := gives_read.mp h
  rw [hpath] at haddress
  obtain ⟨first, rest, hresolved⟩ := gives_addressOf haddress
  exact gives_resourcePath hresolved

namespace WellRead

theorem mem_optionKinds (h : r.WellRead) {kind : OptionKind} :
    kind ∈ r.optionKinds ↔ r.Has kind := by
  rw [Request.mem_optionKinds]
  exact ⟨fun hkind => hkind.1, fun hkind => ⟨hkind, fun hlevels => h.noLevels (hlevels ▸ hkind)⟩⟩

/-- A request whose shape is that of a path has a target, which ends the path. -/
theorem exists_target (h : r.WellRead) (hshape : r.shape.isOfPath = true) :
    ∃ path target, r.address = .resource path ∧ r.shape = RequestShape.ofPath path.reverse ∧
      targetOf? path = some target ∧ Address.isAspect target = false ∧ EndsIn target path := by
  obtain ⟨path, hpath⟩ := exists_path_of_shape hshape
  obtain ⟨target, htarget, haspect, hends⟩ := (h.paths path hpath).exists_target
  exact ⟨path, target, hpath, shape_resource hpath, htarget, haspect, hends⟩

theorem collection (h : r.WellRead) {kind : OptionKind} (hkind : kind ∈ OptionKind.forCollections)
    (hallows : r.shape.allows kind = true) :
    (∃ cast, r.address = .all cast) ∨ (∃ sets, r.address = .crossJoin sets) ∨
      ∃ path target, r.address = .resource path ∧ targetOf? path = some target ∧
        target.isCollection = true := by
  obtain ⟨hall, hcrossJoin, -⟩ := address_of_shape (r := r)
  rcases RequestShape.of_allows_forCollections hkind hallows with hshape | hshape | hshape
  · exact Or.inl (hall hshape)
  · exact Or.inr (Or.inl (hcrossJoin hshape))
  · obtain ⟨path, target, hpath, heq, htarget, haspect, hends⟩ :=
      h.exists_target (RequestShape.isOfPath_of_ofCollection hshape)
    rw [heq] at hshape
    exact Or.inr (Or.inr ⟨path, target, hpath, htarget,
      hends.isCollection_of_shape haspect hshape⟩)

theorem structured (h : r.WellRead) {kind : OptionKind} (hkind : kind ∈ OptionKind.forStructured)
    (hallows : r.shape.allows kind = true) :
    (∃ cast, r.address = .all cast) ∨ (∃ sets, r.address = .crossJoin sets) ∨
      (∃ cast, r.address = .entityId cast) ∨
      ∃ path target, r.address = .resource path ∧ targetOf? path = some target ∧
        path.getLast? = some target ∧ ((∃ entity, target.type? = some (.entity entity)) ∨
          ∃ complex, target.type? = some (.complex complex)) := by
  obtain ⟨hall, hcrossJoin, hentityId⟩ := address_of_shape (r := r)
  rcases RequestShape.of_allows_forStructured hkind hallows with hshape | hshape | hshape | hshape
  · exact Or.inl (hall hshape)
  · exact Or.inr (Or.inl (hcrossJoin hshape))
  · exact Or.inr (Or.inr (Or.inl (hentityId hshape)))
  · obtain ⟨path, target, hpath, heq, htarget, haspect, hends⟩ :=
      h.exists_target (RequestShape.isOfPath_of_ofStructured hshape)
    rw [heq] at hshape
    obtain ⟨hlast, htype⟩ := hends.structured_of_shape haspect hshape
    exact Or.inr (Or.inr (Or.inr ⟨path, target, hpath, htarget, hlast, htype⟩))

/-- References that are addressed without any other option than the `$id` can be deleted. -/
theorem deletesReference (h : r.WellRead) (hmethod : method = .delete)
    (hshape : r.shape = .references) (halone : r.optionKinds = [.id]) :
    r.DeletesReference method := by
  obtain ⟨path, target, hpath, heq, -, haspect, hends⟩ :=
    h.exists_target (by rw [hshape]; rfl)
  rw [heq] at hshape
  obtain ⟨hcollection, before, hbefore⟩ := hends.references_of_shape haspect hshape
  refine ⟨hmethod, ?_, before, target, by rw [hpath, hbefore], hcollection⟩
  -- no option is given twice, so the only kind is given once
  have hsame : (r.options.map SystemOption.kind).Perm [.id] := by
    refine (List.perm_ext_iff_of_nodup h.distinct (List.pairwise_singleton _ _)).mpr fun kind => ?_
    rw [← halone, h.mem_optionKinds]
    rfl
  exact List.perm_singleton.mp hsame

/-- What is only read. -/
theorem onlyRead (h : r.WellRead)
    (haddress : r.address = .metadata ∨ (∃ cast, r.address = .all cast) ∨
      (∃ sets, r.address = .crossJoin sets) ∨ (∃ cast, r.address = .entityId cast) ∨
      ∃ before, r.address = .resource (before ++ [.count])) : r.onlyRead = true := by
  unfold Request.onlyRead
  rcases haddress with haddress | ⟨_, haddress⟩ | ⟨_, haddress⟩ | ⟨_, haddress⟩ | ⟨_, haddress⟩
  · rw [haddress]
  · rw [haddress]
  · rw [haddress]
  · rw [haddress]
  · rw [haddress, shape_resource haddress]
    exact (h.paths _ haddress).isCount_of_count

end WellRead

/-- Every request that is read, on any directory, and that is valid with a method carries only what
it may. -/
theorem read_permitted {config : Config} {path : String} {query fragment : Option String}
    {d : Directory} {r : Request} {method : HttpMethod}
    (h : ((read config path query fragment).runOn d).1 = .ok r)
    (hvalid : r.validate method = .ok ()) : r.Permitted method := by
  have hread := wellRead_of_gives_read (Resolution.gives_of_runOn h)
  obtain ⟨hsupports, hagainst, hallowed⟩ := validate_eq_ok.mp hvalid
  obtain ⟨hbatch, honlyRead⟩ := method_of_supports hsupports
  have hallows : ∀ kind, r.Has kind → r.shape.allows kind = true := fun kind hkind =>
    hallowed kind (hread.mem_optionKinds.mpr hkind)
  have hmethod := optionAgainstMethod?_eq_none hagainst
  constructor
  · intro kind hkind hhas
    exact hread.collection hkind (hallows kind hhas)
  · intro kind hkind hhas
    exact hread.structured hkind (hallows kind hhas)
  · intro hid
    have hmem := hread.mem_optionKinds.mpr hid
    rcases hmethod with ⟨hget, hnot⟩ | ⟨-, hinvokes⟩ | ⟨hdelete, hshape, halone⟩ | hnone
    · rcases RequestShape.of_allows_id (hallows .id hid) with hshape | hshape
      · exact Or.inl ⟨hget, address_of_shape.2.2 hshape⟩
      · exact absurd hmem (hnot hshape)
    · have hallowed := hallows .id hid
      rw [not_allows_id_of_invokesAction hinvokes] at hallowed
      cases hallowed
    · exact Or.inr (hread.deletesReference hdelete hshape halone)
    · rw [hnone] at hmem
      cases hmem
  · intro hget hoptions
    rcases hmethod with ⟨hget', -⟩ | ⟨hpost, hinvokes⟩ | ⟨hdelete, hshape, halone⟩ | hnone
    · exact absurd hget' hget
    · exact Or.inr ⟨hpost, exists_action hinvokes⟩
    · exact Or.inl (hread.deletesReference hdelete hshape halone)
    · obtain ⟨o, hmem⟩ := List.exists_mem_of_ne_nil _ hoptions
      have hkind := hread.mem_optionKinds.mpr (List.mem_map_of_mem hmem)
      rw [hnone] at hkind
      cases hkind
  · exact hbatch
  · intro haddress
    exact honlyRead (hread.onlyRead haddress)

/-- Is a request accepted and valid with a method? -/
def accepts (answer : Except RequestError Request) (method : HttpMethod) : Bool :=
  match answer with
  | .ok r => r.validate method == .ok ()
  | .error _ => false

/-- A reference to a track is deleted from an album. -/
theorem read_permitted_tracks :
    ∃ r, ((read .standard "Albums('A/B')/Tracks/$ref" (some "$id=Tracks(3)") none).runOn
        (.ofSource music)).1 = .ok r ∧
      r.validate .delete = .ok () ∧ r.Permitted .delete := by
  have haccepts : accepts ((read .standard "Albums('A/B')/Tracks/$ref" (some "$id=Tracks(3)")
      none).runOn (.ofSource music)).1 .delete = true := by
    decide +kernel
  cases hread : ((read .standard "Albums('A/B')/Tracks/$ref" (some "$id=Tracks(3)") none).runOn
      (.ofSource music)).1 with
  | error e =>
    rw [hread] at haccepts
    cases haccepts
  | ok r =>
    rw [hread] at haccepts
    have hvalid : r.validate .delete = .ok () := by simpa [accepts] using haccepts
    exact ⟨r, rfl, hvalid, read_permitted hread hvalid⟩

end Request

end ODataRequest
