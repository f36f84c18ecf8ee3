import ODataRequest.Path.Resource
import ODataRequest.Proofs.Path.Shape
import ODataRequest.Proofs.Token.Reader

/-!
# ODataRequest.Proofs.Path.Segments

What the segments of a path may lead to. There is one theorem for each form of a segment: the first
one starts a path (`firstSegment_starts`), and each further one narrows the last resource or adds
one that may stand behind it (`nextSegment_follows`).

The answers to questions about the model are any answers here, so nothing depends on the model or on
what has been resolved before.
-/

namespace ODataRequest

open TokenReader

variable {answers : Answers} {aliases : AliasTable} {source : String} {ts rest : List Token}

/-! ### Keys -/

/-- A predicate has the path and the name of its key property. -/
theorem path_of_gives_keyPredicate {k : KeyProperty} {t : Token} {p : KeyPredicate}
    (h : (keyPredicate aliases k t).Gives answers p) : p.path = k.pathText ∧ p.name = k.name := by
  unfold keyPredicate at h
  obtain ⟨kind, -, h⟩ := Resolution.gives_bind.mp h
  have hname : (if k.name = k.pathText then none else some k.name).getD k.pathText = k.name := by
    by_cases hname : k.name = k.pathText <;> simp [hname]
  -- the alias name is set apart, so that the only split is that of the kinds of tokens
  generalize (if k.name = k.pathText then none else some k.name) = aliasName at h hname
  have hform : ∃ value, KeyPredicate.mk k.pathText aliasName value = p := by
    split at h
    all_goals
      simp only [Resolution.gives_bind, Resolution.gives_pure, Resolution.not_gives_refuse,
        false_and, exists_false] at h
    · obtain ⟨-, -, -, -, value, -, h⟩ := h
      exact ⟨value, h⟩
    all_goals
      obtain ⟨-, -, value, -, h⟩ := h
      exact ⟨value, h⟩
  obtain ⟨value, rfl⟩ := hform
  exact ⟨rfl, hname⟩

/-- The predicates of named values belong to key properties. -/
theorem reads_namedKey_declared {keys : List KeyProperty} {read read' : List KeyPredicate}
    (hread : ∀ p ∈ read, ∃ k ∈ keys, p.path = k.pathText ∧ p.name = k.name)
    (h : Reads answers (namedKey aliases keys read) source ts read' rest) :
    ∀ p ∈ read', ∃ k ∈ keys, p.path = k.pathText ∧ p.name = k.name := by
  unfold namedKey at h
  simp only [reads_bind] at h
  obtain ⟨name, _, -, _, _, -, h⟩ := h
  cases hfind : keys.find? fun k => k.name == name.text || k.pathText == name.text with
  | none =>
    rw [hfind] at h
    exact absurd (reads_lift.mp h).1 Resolution.not_gives_reject
  | some k =>
    rw [hfind] at h
    rcases reads_ite.mp h with ⟨-, h⟩ | ⟨-, h⟩
    · exact absurd (reads_lift.mp h).1 Resolution.not_gives_reject
    · simp only [reads_bind, reads_lift, reads_pure] at h
      obtain ⟨t, _, -, p, _, ⟨hp, -⟩, rfl, -⟩ := h
      intro q hq
      rcases List.mem_append.mp hq with hq | hq
      · exact hread q hq
      · rw [List.mem_singleton] at hq
        subst hq
        exact ⟨k, List.mem_of_find?_eq_some hfind, path_of_gives_keyPredicate hp⟩

/-- Each path is found among the predicates, so the predicates in order have these paths. -/
theorem map_path_filterMap {predicates : List KeyPredicate} {paths : List String}
    (h : ∀ path ∈ paths, ∃ p ∈ predicates, p.path = path) :
    (paths.filterMap fun path => predicates.find? (·.path == path)).map (·.path) = paths := by
  induction paths with
  | nil => rfl
  | cons path paths ih =>
    obtain ⟨p, hp, hpath⟩ := h path List.mem_cons_self
    cases hfind : predicates.find? (·.path == path) with
    | none =>
      have hnone := List.find?_eq_none.mp hfind p hp
      simp [hpath] at hnone
    | some q =>
      have hq : q.path = path := by simpa using List.find?_some hfind
      have ih := ih fun path' hpath' => h path' (List.mem_cons_of_mem path hpath')
      simp [hfind, hq, ih]

/-- What is read as named values is a key of the type. -/
theorem hasKey_of_reads_namedKeys {type : EntityType} {keys : List KeyPredicate}
    (h : Reads answers (namedKeys aliases type.keys) source ts keys rest) : type.HasKey keys := by
  unfold namedKeys at h
  obtain ⟨read, between, hread, h⟩ := reads_bind.mp h
  have hdeclared : ∀ p ∈ read, ∃ k ∈ type.keys, p.path = k.pathText ∧ p.name = k.name :=
    hread.foldSeparated_rule _ (fun _ _ _ _ => reads_namedKey_declared) (by simp)
  cases hmissing : type.keys.find? fun k => !read.any (·.path == k.pathText) with
  | some k =>
    rw [hmissing] at h
    exact absurd (reads_lift.mp h).1 Resolution.not_gives_reject
  | none =>
    rw [hmissing] at h
    obtain ⟨rfl, -⟩ := reads_pure.mp h
    have hall : ∀ path ∈ (type.keys.map KeyProperty.pathText).eraseDups,
        ∃ p ∈ read, p.path = path := by
      intro path hpath
      rw [List.mem_eraseDups, List.mem_map] at hpath
      obtain ⟨k, hk, rfl⟩ := hpath
      simpa using List.find?_eq_none.mp hmissing k hk
    refine ⟨map_path_filterMap hall, fun p hp => ?_⟩
    obtain ⟨path, -, hfind⟩ := List.mem_filterMap.mp hp
    exact hdeclared p (List.mem_of_find?_eq_some hfind)

/-- What is read as a key is a key of the type. -/
theorem hasKey_of_reads_key {type : EntityType} {keys : List KeyPredicate}
    (h : Reads answers (key aliases type) source ts keys rest) : type.HasKey keys := by
  unfold key at h
  simp only [reads_bind, reads_ite, reads_lift, Resolution.not_gives_reject, false_and,
    exists_false, and_false, false_or] at h
  obtain ⟨_, _, -, _, _, -, -, _, _, -, _, _, -, h⟩ := h
  rcases h with ⟨-, predicates, _, hnamed, _, _, -, h⟩ | ⟨-, h⟩
  · obtain ⟨rfl, -⟩ := reads_pure.mp h
    exact hasKey_of_reads_namedKeys hnamed
  · split at h
    · rename_i only honly
      simp only [reads_bind, reads_lift, reads_pure] at h
      obtain ⟨t, _, -, p, _, ⟨hp, -⟩, _, _, ⟨rfl, -⟩, _, _, -, rfl, -⟩ := h
      obtain ⟨hpath, hname⟩ := path_of_gives_keyPredicate hp
      refine ⟨?_, ?_⟩
      · simp [honly, hpath, List.eraseDups_cons]
      · simp [honly, hpath, hname]
    · simp only [reads_bind, reads_lift, Resolution.not_gives_reject, false_and, exists_false] at h

/-! ### Operations -/

/-- A resource without keys and casts is sound. -/
theorem Resource.Sound.of_plain {r : Resource} (hkeys : r.keys = [])
    (hcasts : r.casts.onEntry = none) : r.Sound :=
  ⟨fun h => absurd hkeys h, fun _ => hcasts⟩

/-- The resource is a call of an operation. -/
def Resource.isOperation : Resource → Bool
  | .action _ _ _ | .function _ _ _ _ _ _ => true
  | _ => false

theorem gives_actionResource {a : Action} {byImport : Option Csdl.ActionImport} {r : Resource}
    (h : (actionResource a byImport).Gives answers r) : r.isOperation = true ∧ r.Sound := by
  unfold actionResource at h
  obtain ⟨returnType, -, h⟩ := Resolution.gives_bind.mp h
  cases Resolution.gives_pure.mp h
  exact ⟨rfl, .of_plain rfl rfl⟩

theorem reads_functionResource {f : Function} {byImport : Option Csdl.FunctionImport}
    {raw : List (String × Token)} {r : Resource}
    (h : Reads answers (functionResource aliases f byImport raw) source ts r rest) :
    r.isOperation = true ∧ r.Sound := by
  unfold functionResource at h
  simp only [reads_bind] at h
  obtain ⟨arguments, _, -, returnType, _, -, b, _, -, h⟩ := h
  rcases reads_ite.mp h with ⟨-, h⟩ | ⟨-, h⟩
  · -- a key behind the arguments
    cases returnType with
    | entity type =>
      simp only [reads_ite, reads_bind, reads_lift, reads_pure, Resolution.not_gives_reject,
        false_and, exists_false, and_false, or_false] at h
      obtain ⟨hcollection, keys, _, hkeys, rfl, -⟩ := h
      exact ⟨rfl, fun _ => ⟨hcollection, rfl, type, rfl, hasKey_of_reads_key hkeys⟩, fun _ => rfl⟩
    | _ =>
      simp only [reads_bind, reads_lift, Resolution.not_gives_reject, false_and,
        exists_false] at h
  · simp only [reads_bind, reads_pure] at h
    obtain ⟨_, _, ⟨rfl, -⟩, rfl, -⟩ := h
    exact ⟨rfl, .of_plain rfl rfl⟩

theorem reads_unboundOperation {text : String} {r : Resource}
    (h : Reads answers (unboundOperation aliases text) source ts r rest) :
    r.isOperation = true ∧ r.Sound := by
  unfold unboundOperation at h
  simp only [reads_bind, reads_ite, reads_lift] at h
  obtain ⟨_, _, -, _, _, -, ⟨-, _, _, -, _, _, -, _, _, -, h⟩ | ⟨-, _, _, -, _, _, -, h, -⟩⟩ := h
  · exact reads_functionResource h
  · exact gives_actionResource h

theorem reads_boundOperation {name : QualifiedName} {binding : Binding} {r : Resource}
    (h : Reads answers (boundOperation aliases name binding) source ts r rest) :
    r.isOperation = true ∧ r.Sound := by
  unfold boundOperation at h
  simp only [reads_bind, reads_ite, reads_lift] at h
  obtain ⟨_, _, -, ⟨-, _, _, -, _, _, -, _, _, -, h⟩ | ⟨-, _, _, -, _, _, -, h, -⟩⟩ := h
  · exact reads_functionResource h
  · exact gives_actionResource h

theorem Resource.startsPath_of_isOperation {r : Resource} (h : r.isOperation = true) :
    r.startsPath = true := by
  cases r with
  | action | function => rfl
  | _ => cases h

theorem Resource.fits_of_isOperation {r : Resource} (h : r.isOperation = true)
    (previous : Resource) : previous.Fits r := by
  cases r with
  | action | function => trivial
  | _ => cases h

/-! ### First segment -/

theorem reads_entitySetResource_starts {set : EntitySet} {r : Resource}
    (h : Reads answers (entitySetResource aliases set) source ts r rest) :
    r.startsPath = true ∧ r.Sound := by
  unfold entitySetResource at h
  simp only [reads_bind, reads_ite, reads_pure] at h
  obtain ⟨type, _, -, _, _, -, ⟨-, keys, _, hkeys, rfl, -⟩ | ⟨-, _, _, ⟨rfl, -⟩, rfl, -⟩⟩ := h
  · exact ⟨rfl, fun _ => ⟨type, rfl, hasKey_of_reads_key hkeys⟩, fun _ => rfl⟩
  · exact ⟨rfl, .of_plain rfl rfl⟩

theorem reads_containerResource {container : Container} {name : String} {r : Resource}
    (h : Reads answers (containerResource aliases container name) source ts r rest) :
    r.startsPath = true ∧ r.Sound := by
  unfold containerResource at h
  split at h
  · exact reads_entitySetResource_starts h
  split at h
  · simp only [reads_bind, reads_ite, reads_lift, Resolution.not_gives_reject, false_and,
      and_false, false_or] at h
    obtain ⟨_, _, -, -, h, -⟩ := h
    unfold singletonResource at h
    obtain ⟨type, -, h⟩ := Resolution.gives_bind.mp h
    cases Resolution.gives_pure.mp h
    exact ⟨rfl, .of_plain rfl rfl⟩
  split at h
  · simp only [reads_bind, reads_ite, reads_lift] at h
    have hgives : ∃ a byImport, (actionResource a byImport).Gives answers r := by
      obtain ⟨_, _, -, a, _, -, _, _, -, ⟨-, _, _, -, h, -⟩ | ⟨-, h, -⟩⟩ := h <;> exact ⟨a, _, h⟩
    obtain ⟨a, byImport, h⟩ := hgives
    obtain ⟨hoperation, hsound⟩ := gives_actionResource h
    exact ⟨Resource.startsPath_of_isOperation hoperation, hsound⟩
  split at h
  · simp only [reads_bind] at h
    obtain ⟨_, _, -, _, _, -, _, _, -, h⟩ := h
    obtain ⟨hoperation, hsound⟩ := reads_functionResource h
    exact ⟨Resource.startsPath_of_isOperation hoperation, hsound⟩
  · exact absurd (reads_lift.mp h).1 Resolution.not_gives_reject

/-- The first segment leads to a resource that a path may start with. -/
theorem firstSegment_starts {r : Resource}
    (h : Reads answers (firstSegment aliases) source ts r rest) :
    r.startsPath = true ∧ r.Sound := by
  unfold firstSegment at h
  simp only [reads_bind, reads_ite] at h
  obtain ⟨_, _, -, ⟨-, h⟩ | ⟨-, _, _, -, h⟩⟩ := h
  · obtain ⟨hoperation, hsound⟩ := reads_unboundOperation h
    exact ⟨Resource.startsPath_of_isOperation hoperation, hsound⟩
  · exact reads_containerResource h

/-! ### Casts -/

/-- What a cast does: it fills the slot of a collection or of a single value, which was empty, with a
type that is derived from the one there was. -/
theorem cast_eq_ok {r r' : Resource} {type : ModelType} (h : r.cast type = .ok r') :
    r' = r.withCasts (r.casts.add r.isCollection type) ∧ r.takesCast = true ∧
      r.casts.slot r.isCollection = none ∧
        ∃ current, r.type? = some current ∧ type.isEntity = current.isEntity ∧
          derivesFrom type current = true := by
  unfold Resource.cast at h
  split at h
  · cases h
  · rename_i current hcurrent
    split at h
    · cases h
    split at h
    · cases h
    split at h
    · cases h
    split at h
    · cases h
    rename_i hcompatible htakes hslot
    cases h
    simp only [Bool.not_eq_true, Bool.not_eq_true', Bool.not_eq_false, Bool.and_eq_true,
      beq_iff_eq, Option.isSome_eq_false_iff, Option.isNone_iff_eq_none] at hcompatible htakes hslot
    exact ⟨rfl, htakes, hslot, current, hcurrent, hcompatible⟩

/-- A cast of a sound resource is sound. -/
theorem Resource.Sound.cast {r r' : Resource} {type : ModelType} (hsound : r.Sound)
    (h : r.cast type = .ok r') : r'.Sound := by
  obtain ⟨rfl, htakes, -, -⟩ := cast_eq_ok h
  constructor
  · intro hkeys
    rw [Resource.keys_withCasts] at hkeys
    -- a resource with a key is a single value, so the cast of the collection stays
    have hsingle := Resource.isCollection_of_keys_ne_nil hkeys
    refine (Resource.wellKeyed_withCasts ?_).mpr (hsound.keyed hkeys)
    rw [hsingle]
    rfl
  · intro hcollection
    rw [Resource.isCollection_withCasts] at hcollection
    rw [Resource.onEntry_withCasts _ htakes, hcollection]
    exact hsound.uncast hcollection

/-- A key behind the cast of a collection belongs to the type of the cast. -/
theorem Resource.Sound.withKeys {r r' : Resource} {type : EntityType} {keys : List KeyPredicate}
    (hsound : r.Sound) (h : r.cast (.entity type) = .ok r') (hcollection : r.isCollection = true)
    (htakesKey : r.takesKey = true) (hkeys : type.HasKey keys) : (r'.withKeys keys).Sound := by
  obtain ⟨rfl, htakes, hslot, current, hcurrent, hentity, -⟩ := cast_eq_ok h
  have hentry := hsound.uncast hcollection
  rw [hcollection] at hslot ⊢
  -- neither slot is filled yet, so the current type is the declared one
  cases r with
  | entitySet set declared keys' casts =>
    exact ⟨fun _ => ⟨type, rfl, hkeys⟩, fun _ => hentry⟩
  | navigation p target keys' casts =>
    have hdeclared : p.type.isCollection = true := (Bool.and_eq_true_iff.mp hcollection).2
    exact ⟨fun _ => ⟨hdeclared, type, rfl, hkeys⟩, fun _ => hentry⟩
  | function f byImport arguments returnType keys' casts =>
    have hdeclared : f.returnType.type.isCollection = true :=
      (Bool.and_eq_true_iff.mp hcollection).2
    have htype : returnType = current := by
      have hnone : casts.onEntry = none ∧ casts.onCollection = none := ⟨hentry, hslot⟩
      simpa [Resource.type?, Casts.narrow, hnone] using hcurrent
    rw [← htype] at hentity
    exact ⟨fun _ => ⟨hdeclared, hentity.symm, type, rfl, hkeys⟩, fun _ => hentry⟩
  | _ => cases htakesKey

/-- A cast narrows the last resource. -/
theorem castSegment_narrows {previous r : Resource} {name : String} {type : ModelType}
    (hsound : previous.Sound)
    (h : Reads answers (castSegment aliases previous name type) source ts r rest) :
    previous.Narrows r ∧ r.Sound := by
  unfold castSegment at h
  simp only [reads_bind, reads_lift, Resolution.gives_ofSemantic] at h
  obtain ⟨narrowed, _, ⟨hcast, -⟩, b, _, -, h⟩ := h
  obtain ⟨hnarrowed, -⟩ := cast_eq_ok hcast
  rcases reads_ite.mp h with ⟨-, h⟩ | ⟨-, h⟩
  · cases type with
    | entity entity =>
      simp only [reads_ite, reads_bind, reads_lift, reads_pure, Resolution.not_gives_reject,
        false_and, and_false, or_false, Bool.and_eq_true] at h
      obtain ⟨⟨hcollection, htakesKey⟩, keys, _, hkeys, rfl, -⟩ := h
      refine ⟨⟨_, keys, by rw [hnarrowed]⟩, ?_⟩
      exact hsound.withKeys hcast hcollection htakesKey (hasKey_of_reads_key hkeys)
    | _ => exact absurd (reads_lift.mp h).1 Resolution.not_gives_reject
  · obtain ⟨rfl, -⟩ := reads_pure.mp h
    refine ⟨?_, hsound.cast hcast⟩
    rw [hnarrowed]
    exact .of_withCasts _

/-! ### Further segments -/

/-- What a segment may do to a path that ends with a sound resource: it narrows this resource, or
adds one that may stand behind it. -/
def SegmentEffect.Follows (previous : Resource) : SegmentEffect → Prop
  | .narrow last => previous.Narrows last ∧ last.Sound
  | .add next => previous.endsPath = false ∧ previous.Fits next ∧
      (previous.isClosed = true → Address.isAspect next = true) ∧ next.Sound

theorem exists_of_isEntity {type : ModelType} (h : type.isEntity = true) :
    ∃ entity, type = .entity entity := by
  cases type with
  | entity entity => exact ⟨entity, rfl⟩
  | _ => cases h

/-- A segment with a dollar sign. -/
theorem gives_dollarSegment {previous next : Resource} {name : String}
    (h : (dollarSegment previous name).Gives answers next) :
    previous.Fits next ∧ Address.isAspect next = true ∧ next.Sound := by
  unfold dollarSegment at h
  split at h
  · split at h
    · rename_i hcollection
      cases Resolution.gives_pure.mp h
      exact ⟨hcollection, rfl, .of_plain rfl rfl⟩
    · exact absurd h Resolution.not_gives_reject
  split at h
  · split at h
    · rename_i hentity
      cases Resolution.gives_pure.mp h
      obtain ⟨type, htype, hentity⟩ := (Option.any_eq_true _ _).mp hentity
      obtain ⟨entity, rfl⟩ := exists_of_isEntity hentity
      exact ⟨⟨entity, htype⟩, rfl, .of_plain rfl rfl⟩
    · exact absurd h Resolution.not_gives_reject
  split at h
  · -- a media entity, or a value of a type that is not structured
    split at h
    · rename_i entity hsingle htype
      split at h
      · rename_i hstream
        cases Resolution.gives_pure.mp h
        exact ⟨⟨hsingle, by rw [htype]; exact hstream⟩, rfl, .of_plain rfl rfl⟩
      · exact absurd h Resolution.not_gives_reject
    · rename_i hsingle htype
      cases Resolution.gives_pure.mp h
      exact ⟨⟨hsingle, by rw [htype]; trivial⟩, rfl, .of_plain rfl rfl⟩
    · rename_i hsingle htype
      cases Resolution.gives_pure.mp h
      exact ⟨⟨hsingle, by rw [htype]; trivial⟩, rfl, .of_plain rfl rfl⟩
    · rename_i hsingle htype
      cases Resolution.gives_pure.mp h
      exact ⟨⟨hsingle, by rw [htype]; trivial⟩, rfl, .of_plain rfl rfl⟩
    · exact absurd h Resolution.not_gives_reject
  · exact absurd h Resolution.not_gives_refuse

/-- The resource of a name: a structural property with its type, or else a navigation property with its
target. -/
theorem gives_propertyResource_iff {owner : StructuredType} {name : String} {r : Resource} :
    (propertyResource owner name).Gives answers (some r) ↔
      (∃ p type, r = .property p type Casts.none ∧ owner.property? name = some p ∧
        answers (.type p.type.name) (some type)) ∨
      ∃ p target, r = .navigation p target [] Casts.none ∧ owner.property? name = none ∧
        owner.navigationProperty? name = some p ∧ answers (.entityType p.type.name) (some target) := by
  unfold propertyResource
  cases hproperty : owner.property? name with
  | some p =>
    simp only [Resolution.gives_bind, Resolution.gives_pure, Resolution.gives_requireType]
    constructor
    · rintro ⟨type, htype, heq⟩
      cases heq
      exact Or.inl ⟨p, type, rfl, rfl, htype⟩
    · rintro (⟨_, type, rfl, heq, htype⟩ | ⟨_, _, -, heq, -⟩)
      · cases heq
        exact ⟨type, htype, rfl⟩
      · cases heq
  | none =>
    cases hnavigation : owner.navigationProperty? name with
    | some p =>
      simp only [Resolution.gives_bind, Resolution.gives_pure, Resolution.gives_requireEntityType]
      constructor
      · rintro ⟨target, htarget, heq⟩
        cases heq
        exact Or.inr ⟨p, target, rfl, trivial, rfl, htarget⟩
      · rintro (⟨_, _, -, heq, -⟩ | ⟨_, target, rfl, -, heq, htarget⟩)
        · cases heq
        · cases heq
          exact ⟨target, htarget, rfl⟩
    | none => simp

/-- The property of a name, with its resource. -/
theorem gives_propertyResource {owner : StructuredType} {name : String} {r : Resource}
    (h : (propertyResource owner name).Gives answers (some r)) :
    (∃ p type, r = .property p type Casts.none ∧ owner.property? name = some p) ∨
      ∃ p target, r = .navigation p target [] Casts.none ∧
        owner.navigationProperty? name = some p ∧
        answers (.entityType p.type.name) (some target) := by
  rcases gives_propertyResource_iff.mp h with ⟨p, type, rfl, hp, -⟩ | ⟨p, target, rfl, -, hp, htarget⟩
  · exact Or.inl ⟨p, type, rfl, hp⟩
  · exact Or.inr ⟨p, target, rfl, hp, htarget⟩

theorem property?_name {owner : StructuredType} {name : String} {p : Csdl.Property}
    (h : owner.property? name = some p) : p.name.text = name := by
  obtain ⟨level, -, hfind⟩ := List.exists_of_findSome?_eq_some h
  simpa using List.find?_some hfind

theorem navigationProperty?_name {owner : StructuredType} {name : String}
    {p : Csdl.NavigationProperty} (h : owner.navigationProperty? name = some p) :
    p.name.text = name := by
  obtain ⟨level, -, hfind⟩ := List.exists_of_findSome?_eq_some h
  simpa using List.find?_some hfind

/-- A segment with the name of a property. -/
theorem reads_propertySegment {previous next : Resource} {name : String}
    (h : Reads answers (propertySegment aliases previous name) source ts next rest) :
    previous.Fits next ∧ next.Sound := by
  unfold propertySegment at h
  simp only [reads_bind, reads_lift, Resolution.gives_require] at h
  obtain ⟨type, _, ⟨htype, -⟩, owner, _, ⟨howner, -⟩, h⟩ := h
  have hstructured : previous.type?.bind ModelType.structured? = some owner := by
    rw [htype]
    exact howner
  rcases reads_ite.mp h with ⟨-, h⟩ | ⟨hcollection, h⟩
  · simp only [reads_bind, reads_lift, Resolution.not_gives_reject, false_and, exists_false] at h
  · rw [Bool.not_eq_true] at hcollection
    simp only [reads_bind, reads_lift, Resolution.gives_require] at h
    obtain ⟨found, _, ⟨hfound, -⟩, resource, _, ⟨rfl, -⟩, b, _, -, h⟩ := h
    rcases gives_propertyResource hfound with ⟨p, declared, rfl, hp⟩ | ⟨p, target, rfl, hp, -⟩
    · have hfits : owner.property? p.name.text = some p := by rw [property?_name hp, hp]
      rcases reads_ite.mp h with ⟨-, h⟩ | ⟨-, h⟩
      · exact absurd (reads_lift.mp h).1 Resolution.not_gives_reject
      · obtain ⟨rfl, -⟩ := reads_pure.mp h
        exact ⟨⟨hcollection, owner, hstructured, hfits⟩, .of_plain rfl rfl⟩
    · have hfits : owner.navigationProperty? p.name.text = some p := by
        rw [navigationProperty?_name hp, hp]
      rcases reads_ite.mp h with ⟨-, h⟩ | ⟨-, h⟩
      · rcases reads_ite.mp h with ⟨hdeclared, h⟩ | ⟨-, h⟩
        · simp only [reads_bind, reads_pure] at h
          obtain ⟨keys, _, hkeys, rfl, -⟩ := h
          refine ⟨⟨hcollection, owner, hstructured, hfits⟩, fun _ => ?_, fun _ => rfl⟩
          exact ⟨hdeclared, target, rfl, hasKey_of_reads_key hkeys⟩
        · exact absurd (reads_lift.mp h).1 Resolution.not_gives_reject
      · obtain ⟨rfl, -⟩ := reads_pure.mp h
        exact ⟨⟨hcollection, owner, hstructured, hfits⟩, .of_plain rfl rfl⟩

/-- A segment with a qualified name. -/
theorem reads_qualifiedSegment {previous : Resource} {text : String} {effect : SegmentEffect}
    (hsound : previous.Sound)
    (h : Reads answers (qualifiedSegment aliases previous text) source ts effect rest) :
    (∃ last, effect = .narrow last ∧ previous.Narrows last ∧ last.Sound) ∨
      ∃ next, effect = .add next ∧ next.isOperation = true ∧ next.Sound := by
  unfold qualifiedSegment at h
  simp only [reads_bind] at h
  obtain ⟨name, _, -, owner, _, -, type?, _, -, h⟩ := h
  cases type? with
  | some type =>
    simp only [reads_bind, reads_pure] at h
    obtain ⟨last, _, hcast, rfl, -⟩ := h
    exact Or.inl ⟨last, rfl, castSegment_narrows hsound hcast⟩
  | none =>
    simp only [reads_bind, reads_pure] at h
    obtain ⟨next, _, hoperation, rfl, -⟩ := h
    exact Or.inr ⟨next, rfl, reads_boundOperation hoperation⟩

theorem endsPath_of_mayFollow {previous : Resource} {kind : TokenKind}
    (h : mayFollow previous kind = true) : previous.endsPath = false := by
  cases previous with
  | count | value | ref | action => cases h
  | _ => rfl

/-- Only a segment with a dollar sign follows a closed function. -/
theorem isClosed_of_mayFollow {previous : Resource} {kind : TokenKind}
    (h : mayFollow previous kind = true) (hkind : kind ≠ .dollar) : previous.isClosed = false := by
  cases previous with
  | function f _ _ _ _ _ => simpa [mayFollow, Resource.isClosed, hkind] using h
  | _ => rfl

/-- What may follow a resource, by the first token of the segment. -/
theorem nextSegment_follows {previous : Resource} {effect : SegmentEffect}
    (hsound : previous.Sound)
    (h : Reads answers (nextSegment aliases previous) source ts effect rest) :
    effect.Follows previous := by
  unfold nextSegment at h
  simp only [reads_bind, reads_ite, reads_lift, Resolution.not_gives_refuse, false_and,
    exists_false, and_false, false_or] at h
  obtain ⟨t, between, -, hmay, h⟩ := h
  have hmay : mayFollow previous t.kind = true := by simpa using hmay
  have hends := endsPath_of_mayFollow hmay
  split at h
  · simp only [reads_bind, reads_lift, reads_pure] at h
    obtain ⟨next, _, ⟨hnext, -⟩, rfl, -⟩ := h
    obtain ⟨hfits, haspect, hnextSound⟩ := gives_dollarSegment hnext
    exact ⟨hends, hfits, fun _ => haspect, hnextSound⟩
  · rename_i hkind
    have hclosed : previous.isClosed = true → False := by
      intro hclosed
      rw [isClosed_of_mayFollow hmay (by rw [hkind]; decide)] at hclosed
      cases hclosed
    split at h
    · rcases reads_qualifiedSegment hsound h with
        ⟨last, rfl, hnarrows, hlast⟩ | ⟨next, rfl, hoperation, hnext⟩
      · exact ⟨hnarrows, hlast⟩
      · exact ⟨hends, Resource.fits_of_isOperation hoperation previous,
          fun hclosed' => (hclosed hclosed').elim, hnext⟩
    · simp only [reads_bind, reads_pure] at h
      obtain ⟨next, _, hnext, rfl, -⟩ := h
      obtain ⟨hfits, hnextSound⟩ := reads_propertySegment hnext
      exact ⟨hends, hfits, fun hclosed' => (hclosed hclosed').elim, hnextSound⟩
  · exact absurd h not_reads_malformed

end ODataRequest
