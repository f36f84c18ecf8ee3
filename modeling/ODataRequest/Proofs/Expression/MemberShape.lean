import ODataRequest.Proofs.Expression.WellTyped
import ODataRequest.Proofs.Path.PropertyPath

/-!
# ODataRequest.Proofs.Expression.MemberShape

The shape of paths in expressions (`MemberShape`): what may stand first, and what each resource has to
have in front of it. A step checks this against the position that the path has got to, and a position
knows its last resource, the cast in front of the path, and whether the path starts with an entity set
of a cross join. The paths of an accepted expression are all made by such steps, those in the bodies
of quantifiers included (`membersRule`), so what the steps keep holds of every one of them.
-/

namespace ODataRequest

open TokenReader Expression

variable {answers : Answers} {scope : Scope} {source : String} {ts rest : List Token}

/-! ### All paths in an expression -/

/-- All paths in the expression have the property, wherever they stand. -/
def Expression.Members (Q : Option ModelType → List Resource → Prop) (e : Expression) : Prop :=
  ∀ start path, .member start path ∈ e.nodes → Q start path

theorem Expression.members_iff {Q : Option ModelType → List Resource → Prop} {e : Expression} :
    e.Members Q ↔ ∀ n ∈ e.nodes, ∀ start path, n = .member start path → Q start path := by
  constructor
  · rintro h _ hn start path rfl
    exact h start path hn
  · exact fun h start path hn => h _ hn start path rfl

/-- What the steps of a path make true of it holds of all paths in an accepted expression. A quantifier
changes neither what `$it` stands for nor the cross join. -/
theorem membersRule {Q : List String → Option ModelType → Option ModelType → List Resource → Prop}
    (member : ∀ {Body : Scope → Expression → Prop} {scope : Scope} {p : MemberPosition},
      MemberTrail answers Body scope p → Q scope.joined scope.it p.start p.path) :
    ReadingRule answers (fun _ => True) fun scope e => e.Members (Q scope.joined scope.it) := by
  have rule : ReadingRule answers (fun _ => True) fun scope n =>
      ∀ start path, n = .member start path → Q scope.joined scope.it start path := {
    literal := fun _ _ _ => nofun
    enumeration := fun _ _ _ => nofun
    parameterAlias := fun _ _ => nofun
    typeName := fun _ _ => nofun
    boundVariable := fun _ _ _ _ => nofun
    unary := fun _ _ _ _ _ _ => nofun
    call := fun _ _ _ _ _ => nofun
    list := fun _ _ _ => nofun
    binary := fun _ _ _ _ _ _ _ _ _ => nofun
    member := by
      rintro scope p h start path ⟨⟩
      exact member h }
  simpa only [members_iff] using rule.nodes id

/-! ### The shape of a path -/

/-- The path is an entity set of the cross join. -/
def IsJoinedSet (joined : List String) (path : List Resource) : Prop :=
  ∃ set type keys casts, path = [.entitySet set type keys casts] ∧ set.name.text ∈ joined

/-- What a resource has to have in front of it in a path with a cast `start` in front.
* `$it`, entity sets, singletons and variables stand first, without a cast in front.
* A property is one of the type that has been reached, behind a single value. An entity set of a cross
  join stands for one of its entities.
* What is said of a collection as a whole stands behind a collection. -/
def Resource.StandsBehind (joined : List String) (it start : Option ModelType)
    (before : List Resource) : Resource → Prop
  | .it type => before = [] ∧ start = none ∧ it = some type
  | .entitySet _ _ _ _ | .singleton _ _ _ | .lambdaVariable _ _ => before = [] ∧ start = none
  | r@(.property _ _ _) | r@(.navigation _ _ _ _) =>
    (∃ type, reachedType (start.or it) before = some type ∧ r.IsPropertyOf type) ∧
      ∀ previous, before.getLast? = some previous →
        previous.isCollection = false ∨ IsJoinedSet joined before
  | .count | .notEmpty | .lambda _ _ _ =>
    ∃ previous, before.getLast? = some previous ∧ previous.isCollection = true
  | .function _ _ _ _ _ _ => True
  | .value | .ref | .action _ _ _ => False

/-- The shape of a path in an expression that is evaluated on a value of type `it`. A path without
steps is a cast of that value. -/
structure MemberShape (joined : List String) (it start : Option ModelType)
    (path : List Resource) : Prop where
  startCast : ∀ cast, start = some cast → ∃ type, it = some type ∧ derivesFrom cast type = true
  goesOn : path = [] → start ≠ none
  steps : ∀ before r after, path = before ++ r :: after → r.StandsBehind joined it start before

namespace MemberPosition

/-- In front of all steps there is no cast either. -/
theorem of_atStart {p : MemberPosition} (h : p.atStart = true) : p.steps = [] ∧ p.start = none := by
  simpa [atStart] using h

theorem path_push {p : MemberPosition} {r : Resource} : (p.push r).path = p.path ++ [r] :=
  List.reverse_cons

theorem getLast?_path {p : MemberPosition} : p.path.getLast? = p.steps.head? :=
  List.getLast?_reverse

theorem type?_eq {p : MemberPosition} : p.type? scope = reachedType (p.start.or scope.it) p.path := by
  rw [Position.reachedType_path]
  unfold MemberPosition.type?
  cases p.steps <;> rfl

/-- A collection that has been reached is the last resource. -/
theorem exists_collection (scope : Scope) {p : MemberPosition} (h : p.isCollection = true) :
    ∃ previous, p.path.getLast? = some previous ∧ previous.isCollection = true := by
  obtain ⟨collection, earlier, hsteps, hcollection, -⟩ := last_of_isCollection scope h
  exact ⟨collection, by rw [getLast?_path, hsteps]; rfl, hcollection⟩

end MemberPosition

/-- What a cast to a type does: it narrows the value that the path starts at, or the last resource. -/
inductive CastEffect (scope : Scope) (type : ModelType) : MemberPosition → MemberPosition → Prop
  | start {owner : ModelType} {fromJoin : Bool} (isIt : scope.it = some owner)
      (derives : derivesFrom type owner = true) :
      CastEffect scope type ⟨⟨none, []⟩, fromJoin⟩ ⟨⟨some type, []⟩, fromJoin⟩
  | last {start : Option ModelType} {r narrowed : Resource} {earlier : List Resource}
      {fromJoin : Bool} (cast : r.cast type = .ok narrowed) :
      CastEffect scope type ⟨⟨start, r :: earlier⟩, fromJoin⟩ ⟨⟨start, narrowed :: earlier⟩, fromJoin⟩

theorem castMember_effect {p p' : MemberPosition} {text : String} {type : ModelType}
    (h : (castMember scope p text type).Gives answers p') : CastEffect scope type p p' := by
  obtain ⟨⟨start, steps⟩, fromJoin⟩ := p
  unfold castMember at h
  cases steps with
  | nil =>
    simp only [Resolution.gives_bind, Resolution.gives_require, Resolution.gives_ofSemantic,
      Resolution.gives_pure] at h
    obtain ⟨owner, howner, position, hstart, rfl⟩ := h
    obtain ⟨hderives, hnone, rfl⟩ := castStart_eq_ok hstart
    have hnone : start = none := hnone
    subst hnone
    exact .start howner hderives
  | cons last earlier =>
    simp only [Resolution.gives_bind, Resolution.gives_ofSemantic, Resolution.gives_pure] at h
    obtain ⟨narrowed, hnarrowed, rfl⟩ := h
    exact .last hnarrowed

/-- A property is one of the type that has been reached, which is the type of a single value. -/
theorem gives_propertyMember {p : MemberPosition} {name : String} {r : Resource}
    (h : (propertyMember scope p name).Gives answers r) :
    ∃ type, p.type? scope = some type ∧ p.isCollection = false ∧ r.IsPropertyOf type ∧
      r.casts = Casts.none := by
  unfold propertyMember at h
  simp only [Resolution.gives_bind, Resolution.gives_require] at h
  obtain ⟨type, htype, owner, howner, h⟩ := h
  split at h
  · simp at h
  · next hsingle =>
    simp only [Resolution.gives_bind, Resolution.gives_require] at h
    obtain ⟨_, hresource, rfl⟩ := h
    obtain ⟨hof, hcasts⟩ := isPropertyOf_of_gives howner hresource
    exact ⟨type, htype, by simpa using hsingle, hof, hcasts⟩

/-- What a position keeps: the shape of the path so far, and what stands first if that is an entity set
of a cross join. -/
structure ShapedSoFar (scope : Scope) (p : MemberPosition) : Prop where
  startCast : ∀ cast, p.start = some cast →
    ∃ type, scope.it = some type ∧ derivesFrom cast type = true
  steps : ∀ before r after, p.path = before ++ r :: after →
    r.StandsBehind scope.joined scope.it p.start before
  joined : p.fromJoin = true → ∃ set type keys casts rest,
    p.path = .entitySet set type keys casts :: rest ∧ set.name.text ∈ scope.joined

namespace ShapedSoFar

variable {p p' : MemberPosition} {r : Resource}

theorem origin : ShapedSoFar scope MemberPosition.origin where
  startCast := by simp [MemberPosition.origin, Position.origin]
  steps := by simp [MemberPosition.origin, Position.origin, Position.path]
  joined := nofun

theorem push (h : ShapedSoFar scope p)
    (hr : r.StandsBehind scope.joined scope.it p.start p.path) : ShapedSoFar scope (p.push r) where
  startCast := h.startCast
  steps := by
    rw [MemberPosition.path_push]
    exact forall_split_concat.mpr ⟨h.steps, hr⟩
  joined := by
    intro hjoin
    obtain ⟨set, type, keys, casts, rest, hpath, hmem⟩ := h.joined hjoin
    exact ⟨set, type, keys, casts, rest ++ [r], by rw [MemberPosition.path_push, hpath]; rfl, hmem⟩

/-- Where no collection has been reached, the last resource is a single value, unless it is the entity
set of a cross join that the path starts with. -/
theorem single (h : ShapedSoFar scope p) (hsingle : p.isCollection = false) :
    ∀ previous, p.path.getLast? = some previous →
      previous.isCollection = false ∨ IsJoinedSet scope.joined p.path := by
  intro previous hprevious
  rw [MemberPosition.getLast?_path] at hprevious
  cases hsteps : p.steps with
  | nil => simp [hsteps] at hprevious
  | cons last earlier =>
    obtain rfl : last = previous := by simpa [hsteps] using hprevious
    cases earlier with
    | cons => exact Or.inl (by simpa [MemberPosition.isCollection, hsteps] using hsingle)
    | nil =>
      by_cases hjoin : p.fromJoin = true
      · obtain ⟨set, type, keys, casts, rest, hpath, hmem⟩ := h.joined hjoin
        have honly : p.path = [last] := by simp [Position.path, hsteps]
        rw [honly] at hpath
        cases hpath
        exact Or.inr ⟨set, type, keys, casts, honly, hmem⟩
      · exact Or.inl (by simpa [MemberPosition.isCollection, hsteps, hjoin] using hsingle)

theorem property (h : ShapedSoFar scope p) {name : String}
    (hproperty : (propertyMember scope p name).Gives answers r) :
    r.StandsBehind scope.joined scope.it p.start p.path := by
  obtain ⟨type, htype, hsingle, hof, -⟩ := gives_propertyMember hproperty
  rw [MemberPosition.type?_eq] at htype
  have hbehind := h.single hsingle
  cases r with
  | property => exact ⟨⟨type, htype, hof⟩, hbehind⟩
  | navigation => exact ⟨⟨type, htype, hof⟩, hbehind⟩
  | _ => exact hof.elim

/-- A cast of the last resource changes neither what it is nor what stands in front of it; a cast in
front of the path narrows what `$it` stands for. -/
theorem cast (h : ShapedSoFar scope p) {type : ModelType} (effect : CastEffect scope type p p') :
    ShapedSoFar scope p' := by
  have hsame : ∀ {r : Resource} {start : Option ModelType} {before : List Resource} (casts : Casts),
      r.StandsBehind scope.joined scope.it start before →
        (r.withCasts casts).StandsBehind scope.joined scope.it start before := by
    intro r start before casts hr
    cases r <;> exact hr
  cases effect with
  | start isIt derives =>
    refine ⟨?_, by simp [Position.path], fun hjoin => ?_⟩
    · intro cast heq
      cases heq
      exact ⟨_, isIt, derives⟩
    · obtain ⟨_, _, _, _, _, hpath, -⟩ := h.joined hjoin
      simp [Position.path] at hpath
  | @last start r narrowed earlier fromJoin hnarrowed =>
    obtain ⟨rfl, -⟩ := cast_eq_ok hnarrowed
    have hsteps := h.steps
    simp only [Position.path_cons] at hsteps
    obtain ⟨hearlier, hlast⟩ := forall_split_concat.mp hsteps
    refine ⟨h.startCast, ?_, fun hjoin => ?_⟩
    · rw [Position.path_cons]
      exact forall_split_concat.mpr ⟨hearlier, hsame _ hlast⟩
    · obtain ⟨set, type, keys, casts, rest, hpath, hmem⟩ := h.joined hjoin
      simp only [Position.path_cons] at hpath ⊢
      cases hfirst : (⟨start, earlier⟩ : Position).path with
      | nil =>
        rw [hfirst] at hpath
        cases hpath
        exact ⟨set, type, keys, _, [], rfl, hmem⟩
      | cons first others =>
        rw [hfirst] at hpath
        cases hpath
        exact ⟨set, type, keys, casts, others ++ [_], rfl, hmem⟩

end ShapedSoFar

theorem exists_of_reads_entitySetResource {aliases : AliasTable} {set : EntitySet} {r : Resource}
    (h : Reads answers (entitySetResource aliases set) source ts r rest) :
    ∃ type keys, r = .entitySet set type keys Casts.none := by
  unfold entitySetResource at h
  simp only [reads_bind, reads_ite, reads_pure] at h
  obtain ⟨type, _, -, _, _, -, ⟨-, keys, _, -, rfl, -⟩ | ⟨-, _, _, -, rfl, -⟩⟩ := h
  · exact ⟨type, keys, rfl⟩
  · exact ⟨type, _, rfl⟩

/-- Behind `$root` stands an entity set or a singleton. -/
theorem exists_of_reads_rootResource {aliases : AliasTable} {r : Resource}
    (h : Reads answers (rootResource aliases) source ts r rest) :
    (∃ set type keys, r = .entitySet set type keys Casts.none) ∨
      ∃ single type, r = .singleton single type none := by
  obtain ⟨slash, name, us, container, -, -, -, -, ⟨set, -, hset⟩ | ⟨-, single, -, hsingle, -⟩⟩ :=
    reads_rootResource_iff.mp h
  · exact Or.inl ⟨set, exists_of_reads_entitySetResource hset⟩
  · unfold singletonResource at hsingle
    simp only [Resolution.gives_bind, Resolution.gives_pure] at hsingle
    obtain ⟨type, -, rfl⟩ := hsingle
    exact Or.inr ⟨single, type, rfl⟩

/-- An entity set of a cross join has the name that is given. -/
theorem exists_of_reads_joinedResource {aliases : AliasTable} {name : String} {r : Resource}
    (h : Reads answers (joinedResource aliases name) source ts r rest) :
    ∃ set type keys, r = .entitySet set type keys Casts.none ∧ set.name.text = name := by
  obtain ⟨container, set, -, hfound, hset⟩ := reads_joinedResource_iff.mp h
  obtain ⟨type, keys, hr⟩ := exists_of_reads_entitySetResource hset
  exact ⟨set, type, keys, hr, by simpa using List.find?_some hfound⟩

/-- Each step of a path keeps its shape. -/
theorem ShapedSoFar.step {Body : Scope → Expression → Prop} {p p' : MemberPosition}
    (h : ShapedSoFar scope p) (hstep : MemberStep answers Body scope p p') :
    ShapedSoFar scope p' := by
  have hfirst : p.atStart = true → p.path = [] ∧ p.start = none := by
    intro hstart
    obtain ⟨hsteps, hnone⟩ := MemberPosition.of_atStart hstart
    exact ⟨by simp [Position.path, hsteps], hnone⟩
  cases hstep with
  | it start isIt => exact h.push ⟨(hfirst start).1, (hfirst start).2, isIt⟩
  | lambdaVariable start => exact h.push (hfirst start)
  | count collection => exact h.push (p.exists_collection scope collection)
  | notEmpty collection => exact h.push (p.exists_collection scope collection)
  | lambda collection => exact h.push (p.exists_collection scope collection)
  | property hproperty => exact h.push (h.property hproperty)
  | narrow cast => exact h.cast (castMember_effect cast)
  | root start hroot =>
    obtain ⟨set, type, keys, rfl⟩ | ⟨single, type, rfl⟩ := exists_of_reads_rootResource hroot
    · exact h.push (hfirst start)
    · exact h.push (hfirst start)
  | joined start hjoined isJoined =>
    obtain ⟨set, type, keys, rfl, hname⟩ := exists_of_reads_joinedResource hjoined
    have hpushed : ShapedSoFar scope (p.push (.entitySet set type keys Casts.none)) :=
      h.push (hfirst start)
    refine ⟨hpushed.startCast, hpushed.steps, fun _ => ⟨set, type, keys, Casts.none, [], ?_, hname ▸ isJoined⟩⟩
    rw [MemberPosition.path_push]
    exact congrArg (· ++ [_]) (hfirst start).1
  | function hfunction =>
    obtain ⟨f, raw, arguments, returnType, -, -, rfl⟩ := memberFunction_cases hfunction
    exact h.push trivial

/-- Each step leaves a resource or a cast behind. -/
theorem MemberStep.goesOn {Body : Scope → Expression → Prop} {p p' : MemberPosition}
    (h : MemberStep answers Body scope p p') : p'.path = [] → p'.start ≠ none := by
  have hpush : ∀ {p : MemberPosition} {r : Resource}, (p.push r).path ≠ [] := by
    intro p r
    rw [MemberPosition.path_push]
    exact List.append_ne_nil_of_right_ne_nil _ (List.cons_ne_nil _ _)
  cases h with
  | narrow cast =>
    intro hpath
    cases castMember_effect cast with
    | start => exact Option.some_ne_none _
    | last =>
      rw [Position.path_cons] at hpath
      simp at hpath
  | _ => exact fun hpath => absurd hpath hpush

/-- All paths in an accepted expression have the shape of paths. -/
theorem memberShape_rule :
    ReadingRule answers (fun _ => True)
      fun scope e => e.Members (MemberShape scope.joined scope.it) := by
  refine membersRule fun h => ?_
  have hshaped := h.rule (ShapedSoFar _) (fun _ _ => .step) .origin
  refine ⟨hshaped.startCast, ?_, hshaped.steps⟩
  cases h with
  | first hstep => exact hstep.goesOn
  | further _ hstep => exact hstep.goesOn

end ODataRequest
