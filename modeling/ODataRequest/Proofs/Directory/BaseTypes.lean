import ODataRequest.Proofs.CallHistory
import ODataRequest.Proofs.Directory.BaseChains
import ODataRequest.Proofs.Lookup

/-!
# ODataRequest.Proofs.Directory.BaseTypes

Entity types and complex types as their chains of base types make them. A chain with an end is a type
with one level for each of its types (`Source.level`). The key of an entity type is the one of the
nearest type that declares one, and each of its references leads along a path of complex types
(`KeyPath`) to a property. What a directory answers when it is asked for a type is decided by the
chain alone, whatever it has been asked before (`baseTypes_decide`).
-/

namespace ODataRequest

open InDirectory

variable {s : Source}

/-! ### Levels -/

namespace Source

/-- What a declared type contributes itself to its chain. -/
def level (s : Source) (name : QualifiedName) (hasStream : Bool) (t : Csdl.StructuredType) :
    TypeLevel :=
  { name
    isAbstract := t.isAbstract
    isOpen := t.isOpen
    hasStream
    properties := t.properties.map fun p => { p with type := s.actualReference p.type }
    navigationProperties :=
      t.navigationProperties.map fun p => { p with type := s.actualReference p.type } }

/-- The level of a declared entity type. -/
def entityLevel (s : Source) (level : QualifiedName × Csdl.EntityType) : TypeLevel :=
  s.level level.1 level.2.hasStream level.2.toStructuredType

/-- The level of a declared complex type. -/
def complexLevel (s : Source) (level : QualifiedName × Csdl.StructuredType) : TypeLevel :=
  s.level level.1 false level.2

end Source

theorem resolveLevel_settles (name : QualifiedName) (hasStream : Bool) (t : Csdl.StructuredType) :
    Settles s (resolveLevel name hasStream t) (.ok (s.level name hasStream t)) :=
  (Settles.mapM fun p _ => resolveProperty_settles p).bind_ok
    ((Settles.mapM fun p _ => resolveNavigationProperty_settles p).bind_ok (.pure _))

/-! ### Keys -/

/-- The path leads from a property through the complex types of properties to a property. -/
inductive KeyPath (s : Source) : Csdl.Property → List Identifier → Csdl.Property → Prop
  | here {p : Csdl.Property} : KeyPath s p [] p
  | into {p next last : Csdl.Property} {type : StructuredType} {id : Identifier}
      {ids : List Identifier} (complex : (complexType p.type.name).result s = .ok (some type))
      (has : type.property? id.text = some next) (further : KeyPath s next ids last) :
      KeyPath s p (id :: ids) last

/-- One step into a property leads to a property of its type, if it has one. -/
theorem followStep_eq_ok {unresolved : DirectoryError} {type : Option StructuredType}
    {id : Identifier} {ids : List Identifier} {q : Csdl.Property}
    (ih : ∀ {p}, (followPath unresolved p ids).result s = .ok q ↔ KeyPath s p ids q) :
    (match type.bind (·.property? id.text) with
      | some next => followPath unresolved next ids
      | none => throw unresolved).result s = .ok q ↔
      ∃ type' next, type = some type' ∧ type'.property? id.text = some next ∧
        KeyPath s next ids q := by
  cases type with
  | none =>
    rw [Option.bind_none]
    constructor
    · intro h
      cases h
    · rintro ⟨type', next, h, -⟩
      cases h
  | some type =>
    rw [Option.bind_some]
    cases hnext : type.property? id.text with
    | none =>
      constructor
      · intro h
        cases h
      · rintro ⟨type', next, ⟨⟩, hnext', -⟩
        simp [hnext] at hnext'
    | some next =>
      rw [ih]
      constructor
      · intro h
        exact ⟨type, next, rfl, hnext, h⟩
      · rintro ⟨type', next', ⟨⟩, hnext', h⟩
        cases hnext.symm.trans hnext'
        exact h

theorem followPath_eq_ok (unresolved : DirectoryError) {p q : Csdl.Property}
    {ids : List Identifier} :
    (followPath unresolved p ids).result s = .ok q ↔ KeyPath s p ids q := by
  induction ids generalizing p with
  | nil =>
    constructor
    · rintro ⟨⟩
      exact .here
    · rintro ⟨⟩
      rfl
  | cons id ids ih =>
    rw [followPath, (complexType_settled p.type.name).bind_eq_ok fun type _ => by
      split
      · exact followPath_settled _ _ _
      · exact .throw unresolved]
    constructor
    · rintro ⟨type, htype, h⟩
      obtain ⟨type, next, rfl, hnext, h⟩ := (followStep_eq_ok ih).mp h
      exact .into htype hnext h
    · intro h
      cases h with
      | into complex has further =>
        exact ⟨_, complex, (followStep_eq_ok ih).mpr ⟨_, _, rfl, has, further⟩⟩

/-- The key reference leads from the type to the key property, which is named by the alias of the
reference or else by its path. -/
structure ResolvesKey (s : Source) (t : StructuredType) (key : Csdl.KeyReference)
    (k : KeyProperty) : Prop where
  name : k.name = key.aliasName.getD key.path
  path : pathIdentifiers key.path = .ok k.path
  leads : ∃ first rest p, k.path = first :: rest ∧ t.property? first.text = some p ∧
    KeyPath s p rest k.property

theorem resolveKey_eq_ok {t : StructuredType} {key : Csdl.KeyReference}
    {k : KeyProperty} : (resolveKey t key).result s = .ok k ↔ ResolvesKey s t key k := by
  unfold resolveKey
  cases hpath : pathIdentifiers key.path with
  | error e => exact ⟨nofun, fun h => by simpa [hpath] using h.path⟩
  | ok ids =>
    cases ids with
    | nil =>
      refine ⟨nofun, fun h => ?_⟩
      obtain ⟨first, rest, p, hk, -, -⟩ := h.leads
      have hids := h.path
      rw [hpath, hk] at hids
      cases hids
    | cons first rest =>
      cases hp : t.property? first.text with
      | none =>
        refine ⟨fun h => ?_, fun h => ?_⟩
        · simp only [hp] at h
          cases h
        · obtain ⟨first', rest', p, hk, hp', -⟩ := h.leads
          have hids := h.path
          rw [hpath, hk] at hids
          cases hids
          simp [hp] at hp'
      | some p =>
        simp only [hp]
        rw [(followPath_settled _ p rest).bind_eq_ok fun _ _ => .pure _]
        simp only [followPath_eq_ok]
        constructor
        · rintro ⟨property, hproperty, ⟨⟩⟩
          exact ⟨rfl, hpath, first, rest, p, rfl, hp, hproperty⟩
        · intro h
          obtain ⟨first', rest', p', hk, hp', hproperty⟩ := h.leads
          have hids := h.path
          rw [hpath, hk] at hids
          cases hids
          cases hp.symm.trans hp'
          refine ⟨k.property, hproperty, ?_⟩
          rw [← h.name, ← hk]
          rfl

/-! ### Complex types -/

/-- The complex type has the levels of the chain. -/
def IsComplexType (s : Source) (chain : List (QualifiedName × Csdl.StructuredType))
    (t : StructuredType) : Prop :=
  t.levels = chain.map s.complexLevel

theorem completeComplexType_settles (name : QualifiedName) (declared : Csdl.StructuredType)
    (base : Option StructuredType) : Settles s (completeComplexType name declared base)
      (.ok ⟨s.complexLevel (name, declared), (base.map StructuredType.levels).getD []⟩) :=
  (resolveLevel_settles name false declared).bind_ok (.pure _)

theorem complexTypeFamily_completes :
    complexTypeFamily.Completes s (fun _ => True) (IsComplexType s) where
  above _ _ _ := trivial
  root name declared _ :=
    ⟨_, (completeComplexType_settles name declared none).result_eq, rfl⟩
  up name declared chain base _ hbase _ := by
    refine ⟨_, (completeComplexType_settles name declared (some base)).result_eq, ?_⟩
    exact congrArg (s.complexLevel (name, declared) :: ·) hbase
  rootOnly _ _ _ _ := trivial
  upOnly _ _ _ _ _ _ _ _ := trivial

/-! ### Entity types -/

/-- The structured type that a declared type is on top of the rest of its chain. -/
def chainType (s : Source) (level : QualifiedName × Csdl.EntityType)
    (above : List (QualifiedName × Csdl.EntityType)) : StructuredType :=
  ⟨s.entityLevel level, above.map s.entityLevel⟩

/-- Each key reference of the types of a chain leads to a property. -/
def KeysResolve (s : Source) (chain : List (QualifiedName × Csdl.EntityType)) : Prop :=
  ∀ below level above, chain = below ++ level :: above →
    ∀ key ∈ level.2.key, ∃ k, ResolvesKey s (chainType s level above) key k

/-- The levels and the keys of a chain: the keys are those that the nearest type that declares some
resolves its references to. -/
structure ChainMakes (s : Source) (chain : List (QualifiedName × Csdl.EntityType))
    (levels : List TypeLevel) (keys : List KeyProperty) : Prop where
  eachLevel : levels = chain.map s.entityLevel
  nearestKey : ∀ below level above, chain = below ++ level :: above → (∀ l ∈ below, l.2.key = []) →
    level.2.key ≠ [] → List.Forall₂ (ResolvesKey s (chainType s level above)) level.2.key keys
  noKey : (∀ level ∈ chain, level.2.key = []) → keys = []

/-- The entity type is the one of the chain. -/
def IsEntityType (s : Source) (chain : List (QualifiedName × Csdl.EntityType)) (t : EntityType) :
    Prop :=
  ChainMakes s chain t.levels t.keys

theorem completeEntityType_eq_ok {name : QualifiedName}
    {declared : Csdl.EntityType} {base : Option EntityType} {t : EntityType} :
    (completeEntityType name declared base).result s = .ok t ↔
      t.toStructuredType = ⟨s.entityLevel (name, declared), (base.map (·.levels)).getD []⟩ ∧
        (declared.key = [] ∧ t.keys = (base.map (·.keys)).getD [] ∨ declared.key ≠ [] ∧
          List.Forall₂ (ResolvesKey s t.toStructuredType) declared.key t.keys) := by
  have hlevel := resolveLevel_settles (s := s) name declared.hasStream declared.toStructuredType
  unfold completeEntityType
  rw [hlevel.settled.bind_eq_ok fun own _ => by
    split
    · exact Settled.bind (.pure _) fun _ _ => .pure _
    · exact Settled.bind (.mapM fun key _ => resolveKey_settled _ key) fun _ _ => .pure _]
  rw [hlevel.result_eq]
  simp only [Except.ok.injEq, exists_eq_left']
  by_cases hkey : declared.key = []
  · simp only [hkey, List.isEmpty_nil, if_true, pure_bind, ne_eq, not_true_eq_false, false_and,
      or_false, true_and]
    constructor
    · rintro ⟨⟩
      exact ⟨rfl, rfl⟩
    · rintro ⟨hchain, hkeys⟩
      rw [show t = ⟨t.toStructuredType, t.keys⟩ from rfl, hchain, hkeys]
      rfl
  · have hnotEmpty : declared.key.isEmpty = false := by simpa using hkey
    simp only [hnotEmpty, Bool.false_eq_true, if_false, hkey, false_and, false_or, ne_eq,
      not_false_eq_true, true_and]
    have hkeys (chain : StructuredType) : ∀ key ∈ declared.key, Settled s (resolveKey chain key) :=
      fun key _ => resolveKey_settled chain key
    rw [(Settled.mapM (hkeys _)).bind_eq_ok fun _ _ => .pure _]
    simp only [Settled.mapM_eq_ok (hkeys _), resolveKey_eq_ok]
    constructor
    · rintro ⟨keys, hkeys, ⟨⟩⟩
      exact ⟨rfl, hkeys⟩
    · rintro ⟨hchain, hkeys⟩
      refine ⟨t.keys, ?_, ?_⟩
      · rw [hchain] at hkeys
        exact hkeys
      · rw [show t = ⟨t.toStructuredType, t.keys⟩ from rfl, hchain]
        rfl

section Keys

variable {level : QualifiedName × Csdl.EntityType} {chain : List (QualifiedName × Csdl.EntityType)}
variable {levels : List TypeLevel} {keys own : List KeyProperty}

theorem KeysResolve.above (h : KeysResolve s (level :: chain)) : KeysResolve s chain :=
  fun below other above hchain => h (level :: below) other above (congrArg (level :: ·) hchain)

theorem KeysResolve.nil : KeysResolve s [] := by
  intro below level above hchain
  simp at hchain

theorem KeysResolve.cons (habove : KeysResolve s chain)
    (hhere : ∀ key ∈ level.2.key, ∃ k, ResolvesKey s (chainType s level chain) key k) :
    KeysResolve s (level :: chain) := by
  intro below other above hchain
  cases below with
  | nil =>
    cases hchain
    exact hhere
  | cons first below =>
    obtain ⟨-, hchain⟩ := List.cons.inj hchain
    exact habove below other above hchain

theorem ChainMakes.nil : ChainMakes s [] [] [] where
  eachLevel := rfl
  nearestKey below level above h := by simp at h
  noKey _ := rfl

/-- A type that declares a key has it, whatever its base types have. -/
theorem ChainMakes.declared (habove : ChainMakes s chain levels keys) (hkey : level.2.key ≠ [])
    (hown : List.Forall₂ (ResolvesKey s (chainType s level chain)) level.2.key own) :
    ChainMakes s (level :: chain) (s.entityLevel level :: levels) own where
  eachLevel := by rw [habove.eachLevel, List.map_cons]
  nearestKey below other above hchain hbelow _ := by
    cases below with
    | nil =>
      cases hchain
      exact hown
    | cons first below =>
      cases hchain
      exact absurd (hbelow level List.mem_cons_self) hkey
  noKey h := absurd (h level List.mem_cons_self) hkey

/-- A type that declares no key has the one of its base type. -/
theorem ChainMakes.inherited (habove : ChainMakes s chain levels keys) (hkey : level.2.key = []) :
    ChainMakes s (level :: chain) (s.entityLevel level :: levels) keys where
  eachLevel := by rw [habove.eachLevel, List.map_cons]
  nearestKey below other above hchain hbelow hother := by
    cases below with
    | nil =>
      cases hchain
      exact absurd hkey hother
    | cons first below =>
      obtain ⟨-, hchain⟩ := List.cons.inj hchain
      exact habove.nearestKey below other above hchain
        (fun l hl => hbelow l (List.mem_cons_of_mem _ hl)) hother
  noKey h := habove.noKey fun l hl => h l (List.mem_cons_of_mem _ hl)

variable (level) (base : Option EntityType)

/-- A type is completed on top of its base type if its own key references resolve. -/
theorem exists_completed
    (habove : ChainMakes s chain ((base.map (·.levels)).getD []) ((base.map (·.keys)).getD []))
    (h : KeysResolve s (level :: chain)) :
    ∃ t, (completeEntityType level.1 level.2 base).result s = .ok t ∧
      IsEntityType s (level :: chain) t := by
  by_cases hkey : level.2.key = []
  · refine ⟨⟨⟨s.entityLevel level, (base.map (·.levels)).getD []⟩, (base.map (·.keys)).getD []⟩,
      completeEntityType_eq_ok.mpr ?_, ?_⟩
    · exact ⟨rfl, Or.inl ⟨hkey, rfl⟩⟩
    · exact habove.inherited hkey
  · obtain ⟨own, hown⟩ := exists_forall₂ (h [] level chain rfl)
    refine ⟨⟨chainType s level chain, own⟩, completeEntityType_eq_ok.mpr ?_, ?_⟩
    · exact ⟨by rw [habove.eachLevel]; rfl, Or.inr ⟨hkey, hown⟩⟩
    · have hmakes := habove.declared hkey hown
      rw [habove.eachLevel] at hmakes
      exact hmakes

/-- The key references of a type resolve if it has been completed. -/
theorem keysResolve_of_completed {t : EntityType}
    (habove : ChainMakes s chain ((base.map (·.levels)).getD []) ((base.map (·.keys)).getD []))
    (hresolve : KeysResolve s chain)
    (h : (completeEntityType level.1 level.2 base).result s = .ok t) :
    KeysResolve s (level :: chain) := by
  obtain ⟨htype, ⟨hkey, -⟩ | ⟨-, hkeys⟩⟩ := completeEntityType_eq_ok.mp h
  · exact hresolve.cons fun key hmem => by simp [hkey] at hmem
  · refine hresolve.cons fun key hmem => ?_
    rw [htype, habove.eachLevel] at hkeys
    obtain ⟨k, -, hk⟩ := exists_right_of_forall₂ hkeys hmem
    exact ⟨k, hk⟩

end Keys

theorem entityTypeFamily_completes :
    entityTypeFamily.Completes s (KeysResolve s) (IsEntityType s) where
  above _ _ h := h.above
  root name declared h := exists_completed (name, declared) none .nil h
  up name declared _ base _ hbase h :=
    exists_completed (name, declared) (some base) hbase h
  rootOnly name declared _ h :=
    keysResolve_of_completed (name, declared) none .nil .nil h
  upOnly name declared _ base _ habove hbase h :=
    keysResolve_of_completed (name, declared) (some base) hbase habove h

/-! ### Directories -/

/-- What a directory answers when it is asked for a type is what the chain of base types of the name
says, whatever the directory has been asked before. More room for the recursion changes nothing. -/
theorem baseTypes_decide (names : s.WellNamed) {d : Directory} (reachable : d.Reachable s)
    (n : QualifiedName) :
    (BaseChain.Decides s (fun name => s.answer (.entityType name)) (·.baseType) .inEntityType
        (KeysResolve s) (IsEntityType s) (s.actualName n) ((entityType n).runOn d).1 ∧
      ∀ bound, s.chainBound ≤ bound →
        ((entityTypeFamily.resolveFrom bound [] (s.actualName n)).runOn d).1 =
          ((entityType n).runOn d).1) ∧
    (BaseChain.Decides s (fun name => s.answer (.complexType name)) (·.baseType) .inComplexType
        (fun _ => True) (IsComplexType s) (s.actualName n) ((complexType n).runOn d).1 ∧
      ∀ bound, s.chainBound ≤ bound →
        ((complexTypeFamily.resolveFrom bound [] (s.actualName n)).runOn d).1 =
          ((complexType n).runOn d).1) := by
  have hd := reachable.consistent names
  constructor
  · exact TypeFamily.resolve_decides (entityTypeFamily_lawful s)
      (fun name => (askSource_settles (.entityType name)).result_eq)
      entityTypeFamily_completes hd n
  · exact TypeFamily.resolve_decides (complexTypeFamily_lawful s)
      (fun name => (askSource_settles (.complexType name)).result_eq)
      complexTypeFamily_completes hd n

section Farm

private def farmSpace : Namespace := ⟨⟨"Farm", by decide⟩, []⟩
private def farmAlias : Identifier := ⟨"F", by decide⟩
private def animal : Identifier := ⟨"Animal", by decide⟩
private def cow : Identifier := ⟨"Cow", by decide⟩
private def chick : Identifier := ⟨"Chick", by decide⟩
private def hen : Identifier := ⟨"Hen", by decide⟩
private def egg : Identifier := ⟨"Egg", by decide⟩
private def fox : Identifier := ⟨"Fox", by decide⟩
private def wolf : Identifier := ⟨"Wolf", by decide⟩
private def earTag : Identifier := ⟨"EarTag", by decide⟩

private def byAlias (name : Identifier) : QualifiedName := ⟨⟨farmAlias, []⟩, name⟩
private def onFarm (name : Identifier) : QualifiedName := ⟨farmSpace, name⟩

private def farmType (name : Identifier) (baseType : Option QualifiedName)
    (properties : List Csdl.Property) (key : List Csdl.KeyReference) : Csdl.EntityType :=
  { name, baseType, isAbstract := false, isOpen := false, properties, navigationProperties := [],
    hasStream := false, key }

private def earTagProperty : Csdl.Property :=
  ⟨earTag, ⟨PrimitiveKind.string.qualifiedName, false⟩, false, none, none, none, none⟩

private def animalType : Csdl.EntityType := farmType animal none [earTagProperty] [⟨"EarTag", none⟩]
private def cowType : Csdl.EntityType := farmType cow (some (byAlias animal)) [] []
private def chickType : Csdl.EntityType := farmType chick (some (onFarm hen)) [] []
private def henType : Csdl.EntityType := farmType hen (some (byAlias egg)) [] []
private def eggType : Csdl.EntityType := farmType egg (some (onFarm hen)) [] []
private def foxType : Csdl.EntityType := farmType fox (some (byAlias wolf)) [] []

/-- A model with cows, which are animals, with hens and eggs, which come from each other, and with a
fox, whose base type is missing. -/
def farm : Source :=
  { basicOnly := false
    schemas :=
      [{ space := farmSpace
         aliasName := some farmAlias
         entityTypes := [animalType, cowType, chickType, henType, eggType, foxType]
         complexTypes := []
         enumTypes := []
         typeDefinitions := []
         actions := []
         functions := []
         terms := []
         container := none
         annotations := [] }] }

/-- A circle that is reached from outside, a missing base type, and an inherited key, all of them
under an alias and after the directory has been asked for other types. -/
theorem baseTypes_decide_farm :
    let answer (name : Identifier) :=
      ((entityType (byAlias name)).runOn (DirectoryCall.after [.entityType (onFarm egg),
        .entityType (byAlias animal)] (Directory.ofSource farm))).1
    answer chick = .error (.inEntityType (onFarm chick) (.inEntityType (onFarm hen)
        (.inEntityType (onFarm egg) (.cyclicBaseType (onFarm hen))))) ∧
      answer fox = .error (.inEntityType (onFarm fox) (.unresolvedType (onFarm wolf))) ∧
      answer wolf = .ok none ∧
      ∃ type, answer cow = .ok (some type) ∧
        type.levels.map TypeLevel.name = [onFarm cow, onFarm animal] ∧
        type.keys.map KeyProperty.name = ["EarTag"] := by
  have names : farm.WellNamed := ⟨by decide, by decide⟩
  have reachable := (Directory.Reachable.fresh : (Directory.ofSource farm).Reachable farm).after [.entityType (onFarm egg),
    .entityType (byAlias animal)]
  have decides (name : Identifier) := (baseTypes_decide names reachable (byAlias name)).1.1
  refine ⟨?_, ?_, ?_, ?_⟩
  · exact (decides chick).cyclic
      [(onFarm chick, chickType), (onFarm hen, henType), (onFarm egg, eggType)] (onFarm hen)
      (.up rfl rfl (.up rfl rfl (.up rfl rfl .stop))) (by decide) (by decide)
  · exact (decides fox).unresolved [(onFarm fox, foxType)] (onFarm wolf) (.up rfl rfl .stop)
      (by decide) rfl
  · exact (decides wolf).unknown rfl
  · have hkey : ResolvesKey farm (chainType farm (onFarm animal, animalType) [])
        ⟨"EarTag", none⟩ ⟨"EarTag", [earTag], earTagProperty⟩ :=
      ⟨rfl, rfl, earTag, [], earTagProperty, rfl, rfl, .here⟩
    have hcomplete : KeysResolve farm [(onFarm cow, cowType), (onFarm animal, animalType)] :=
      (KeysResolve.nil.cons (List.forall_mem_singleton.mpr ⟨_, hkey⟩)).cons nofun
    obtain ⟨type, hanswer, htype⟩ := (decides cow).resolved _ (.up rfl rfl (.root rfl rfl)) hcomplete
    refine ⟨type, hanswer, ?_, ?_⟩
    · rw [htype.eachLevel]
      rfl
    · have hkeys := htype.nearestKey [(onFarm cow, cowType)] (onFarm animal, animalType) [] rfl
        (List.forall_mem_singleton.mpr rfl) (List.cons_ne_nil _ _)
      generalize type.keys = keys at hkeys ⊢
      cases hkeys with
      | cons hkey hrest =>
        cases hrest
        exact congrArg (fun name => [name]) hkey.name

end Farm

end ODataRequest
