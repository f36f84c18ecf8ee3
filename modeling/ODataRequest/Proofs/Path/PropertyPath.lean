import ODataRequest.Path.Property
import ODataRequest.Proofs.Except
import ODataRequest.Proofs.Path.Segments

/-!
# ODataRequest.Proofs.Path.PropertyPath

What the paths of selected and expanded properties lead through. A segment adds a property of the type
that has been reached or an operation bound to it, or it narrows what has been reached; so each
resource of a path is found in the type that the ones before it lead to (`LeadsThrough`), and the
first one in the type that the path starts at, narrowed by the cast in front of the path.

A cast changes the type that the next segment is looked up in and nothing else. That is why the
invariant of the segments (`PropertyTrail`) says where a resource has been found without its casts.
-/

namespace ODataRequest

open TokenReader

variable {answers : Answers} {target type : ModelType}

/-! ### Properties of types -/

namespace Resource

/-- The resource is a property, structural or a navigation, that the type declares or inherits. -/
def IsPropertyOf (type : ModelType) : Resource → Prop
  | .property p _ _ => ∃ owner, type.structured? = some owner ∧
      owner.property? p.name.text = some p
  | .navigation p _ _ _ => ∃ owner, type.structured? = some owner ∧
      owner.navigationProperty? p.name.text = some p
  | _ => False

/-- The resource is a property of the type, or an operation, which any value may be bound to. -/
def FoundIn (type : ModelType) (r : Resource) : Prop :=
  r.IsPropertyOf type ∨ r.isOperation = true

variable {r : Resource}

@[simp] theorem isPropertyOf_withCasts (casts : Casts) :
    (r.withCasts casts).IsPropertyOf type ↔ r.IsPropertyOf type := by
  cases r <;> rfl

@[simp] theorem isOperation_withCasts (casts : Casts) :
    (r.withCasts casts).isOperation = r.isOperation := by
  cases r <;> rfl

/-- Where a resource is found does not depend on its casts. -/
@[simp] theorem foundIn_withCasts (casts : Casts) :
    (r.withCasts casts).FoundIn type ↔ r.FoundIn type := by
  unfold FoundIn
  rw [isPropertyOf_withCasts, isOperation_withCasts]

theorem not_isOperation_of_isComplexProperty (h : r.isComplexProperty = true) :
    r.isOperation ≠ true := by
  cases r with
  | property => nofun
  | _ => cases h

theorem not_isOperation_of_isNavigation (h : r.isNavigation = true) : r.isOperation ≠ true := by
  cases r with
  | navigation => nofun
  | _ => cases h

end Resource

/-- The property of a name is a property of the type, without a cast. -/
theorem isPropertyOf_of_gives {owner : StructuredType} {name : String} {r : Resource}
    (howner : type.structured? = some owner)
    (h : (propertyResource owner name).Gives answers (some r)) :
    r.IsPropertyOf type ∧ r.casts = Casts.none := by
  obtain ⟨p, propertyType, rfl, hfound⟩ | ⟨p, entity, rfl, hfound, -⟩ := gives_propertyResource h
  · have hname := property?_name hfound
    exact ⟨⟨owner, howner, by rw [hname]; exact hfound⟩, rfl⟩
  · have hname := navigationProperty?_name hfound
    exact ⟨⟨owner, howner, by rw [hname]; exact hfound⟩, rfl⟩

/-! ### Paths -/

/-- The type that some steps lead to from a value of a type. -/
def reachedType (start : Option ModelType) (path : List Resource) : Option ModelType :=
  (path.getLast?.map Resource.type?).getD start

/-- Each resource of the path is found in the type that the ones before it lead to. -/
def LeadsThrough (start : Option ModelType) (path : List Resource) : Prop :=
  ∀ before r after, path = before ++ r :: after →
    ∃ type, reachedType start before = some type ∧ r.FoundIn type

/-- What holds of each element of a list and the ones before it, for one element more at the end. -/
theorem forall_split_concat {α : Type} {P : List α → α → Prop} {as : List α} {a : α} :
    (∀ before b after, as ++ [a] = before ++ b :: after → P before b) ↔
      (∀ before b after, as = before ++ b :: after → P before b) ∧ P as a := by
  constructor
  · intro h
    refine ⟨fun before b after heq => h before b (after ++ [a]) ?_, h as a [] rfl⟩
    rw [heq, List.append_assoc, List.cons_append]
  · intro h before b after heq
    -- the element is the new one if nothing stands behind it
    rcases List.eq_nil_or_concat after with rfl | ⟨after, a', rfl⟩
    · obtain ⟨rfl, hlast⟩ := List.append_inj' heq rfl
      cases hlast
      exact h.2
    · have hwhole : as ++ [a] = (before ++ b :: after) ++ [a'] := by simpa using heq
      exact h.1 before b after (List.append_inj' hwhole rfl).1

theorem leadsThrough_nil (start : Option ModelType) : LeadsThrough start [] := by
  intro before r after h
  simp at h

theorem leadsThrough_concat {start : Option ModelType} {path : List Resource} {r : Resource} :
    LeadsThrough start (path ++ [r]) ↔ LeadsThrough start path ∧
      ∃ type, reachedType start path = some type ∧ r.FoundIn type :=
  forall_split_concat

/-- What holds of a path that is being followed: a cast in front of it narrows the target. -/
structure PropertyTrail (target : ModelType) (p : Position) : Prop where
  start : ∀ cast, p.start = some cast → derivesFrom cast target = true
  steps : LeadsThrough (some (p.start.getD target)) p.path

theorem Position.path_cons {start : Option ModelType} {r : Resource} {earlier : List Resource} :
    (⟨start, r :: earlier⟩ : Position).path = (⟨start, earlier⟩ : Position).path ++ [r] := by
  simp [path]

theorem Position.reachedType_path {p : Position} {start : Option ModelType} :
    reachedType start p.path = match p.steps with
      | [] => start
      | last :: _ => last.type? := by
  unfold reachedType path
  rw [List.getLast?_reverse]
  cases p.steps <;> rfl

theorem castStart_eq_ok {p p' : Position} {owner : ModelType} {name : String}
    (h : p.castStart owner type name = .ok p') :
    derivesFrom type owner = true ∧ p.start = none ∧ p' = { p with start := some type } := by
  unfold Position.castStart at h
  split at h
  · cases h
  split at h
  · cases h
  · next hderives hstart =>
    cases h
    exact ⟨by simpa using hderives, by simpa using hstart, rfl⟩

/-! ### Segments -/

/-- An operation that is bound to a property is an action, or a function without arguments. -/
theorem boundProperty_cases {owner : ModelType} {text : String} {name : QualifiedName} {r : Resource}
    (h : (boundProperty owner text name).Gives answers r) :
    (∃ a returnType, r = .action a none returnType) ∨
      ∃ f returnType, answers (.boundFunction name ⟨owner.name, false⟩ []) (some f) ∧
        r = .function f none [] returnType [] Casts.none := by
  unfold boundProperty at h
  obtain ⟨action, -, h⟩ := Resolution.gives_bind.mp h
  cases action with
  | some a =>
    dsimp only at h
    split at h
    · exact Or.inl ⟨a, none, (Resolution.gives_pure.mp h).symm⟩
    · obtain ⟨returnType, -, h⟩ := Resolution.gives_bind.mp h
      exact Or.inl ⟨a, returnType, (Resolution.gives_pure.mp h).symm⟩
  | none =>
    obtain ⟨function, hfunction, h⟩ := Resolution.gives_bind.mp h
    cases function with
    | some f =>
      simp only [Resolution.gives_bind, Resolution.gives_pure] at h
      obtain ⟨_, -, returnType, -, rfl⟩ := h
      exact Or.inr ⟨f, returnType, Resolution.gives_answerTo.mp hfunction, rfl⟩
    | none => exact absurd h Resolution.not_gives_reject

theorem boundProperty_isOperation {owner : ModelType} {text : String} {name : QualifiedName}
    {r : Resource} (h : (boundProperty owner text name).Gives answers r) :
    r.isOperation = true := by
  obtain ⟨_, _, rfl⟩ | ⟨_, _, -, rfl⟩ := boundProperty_cases h <;> rfl

/-- What a segment does: it adds a property of the type that has been reached or an operation bound to it,
or it narrows the start or the last resource. -/
inductive PropertyEffect (answers : Answers) (target : ModelType) : Position → Position → Prop
  | property {p : Position} {r : Resource} {owner : ModelType}
      (reached : reachedType (some (p.start.getD target)) p.path = some owner)
      (found : r.IsPropertyOf owner) : PropertyEffect answers target p (p.push r)
  | operation {p : Position} {r : Resource} {owner : ModelType} {text : String} {name : QualifiedName}
      (reached : reachedType (some (p.start.getD target)) p.path = some owner)
      (found : (boundProperty owner text name).Gives answers r) :
      PropertyEffect answers target p (p.push r)
  | start {cast : ModelType} (derives : derivesFrom cast target = true) :
      PropertyEffect answers target Position.origin ⟨some cast, []⟩
  | narrowed {start : Option ModelType} {last : Resource} {earlier : List Resource}
      (casts : Casts) :
      PropertyEffect answers target ⟨start, last :: earlier⟩ ⟨start, last.withCasts casts :: earlier⟩

/-- A segment is looked up in the type that has been reached. -/
theorem reachedType_of_gives_owner {p : Position} {owner : ModelType}
    (h : (p.owner target).Gives answers owner) :
    reachedType (some (p.start.getD target)) p.path = some owner := by
  rw [Position.reachedType_path]
  obtain ⟨start, steps⟩ := p
  cases steps with
  | nil => exact congrArg some (Resolution.gives_pure.mp h)
  | cons last earlier => exact Resolution.gives_require.mp h

theorem castProperty_effect {p p' : Position} {name : String}
    (h : castProperty p target name type = .ok p') : PropertyEffect answers target p p' := by
  unfold castProperty at h
  obtain ⟨start, steps⟩ := p
  cases steps with
  | nil =>
    dsimp only at h
    split at h
    · cases h
    · obtain ⟨hderives, hstart, rfl⟩ := castStart_eq_ok h
      have hstart : start = none := hstart
      subst hstart
      exact .start hderives
  | cons last earlier =>
    obtain ⟨narrowed, hnarrowed, hp'⟩ := except_bind_eq_ok.mp h
    cases hp'
    obtain ⟨rfl, -⟩ := cast_eq_ok hnarrowed
    exact .narrowed _

theorem propertyStep_effect {p p' : Position} {segment : String}
    (h : (propertyStep target p segment).Gives answers p') :
    PropertyEffect answers target p p' := by
  unfold propertyStep at h
  obtain ⟨text, -, h⟩ := Resolution.gives_bind.mp h
  obtain ⟨owner, howner, h⟩ := Resolution.gives_bind.mp h
  have hreached := reachedType_of_gives_owner howner
  dsimp only at h
  split at h
  · obtain ⟨name, -, h⟩ := Resolution.gives_bind.mp h
    obtain ⟨answer, -, h⟩ := Resolution.gives_bind.mp h
    cases answer with
    | some type => exact castProperty_effect (Resolution.gives_ofSemantic.mp h)
    | none =>
      simp only [Resolution.gives_bind, Resolution.gives_pure] at h
      obtain ⟨r, hr, rfl⟩ := h
      exact .operation hreached hr
  · simp only [Resolution.gives_bind, Resolution.gives_require, Resolution.gives_pure] at h
    obtain ⟨structured, hstructured, _, hproperty, r, rfl, rfl⟩ := h
    exact .property hreached (isPropertyOf_of_gives hstructured hproperty).1

/-- Each segment keeps the resources of the path where they have been found. -/
theorem PropertyTrail.step {p p' : Position} (h : PropertyTrail target p)
    (heffect : PropertyEffect answers target p p') : PropertyTrail target p' := by
  have hpush : ∀ {r owner}, reachedType (some (p.start.getD target)) p.path = some owner →
      r.FoundIn owner → PropertyTrail target (p.push r) := by
    intro r owner reached found
    refine ⟨h.start, ?_⟩
    rw [Position.push, Position.path_cons]
    exact leadsThrough_concat.mpr ⟨h.steps, _, reached, found⟩
  cases heffect with
  | property reached found => exact hpush reached (Or.inl found)
  | operation reached found => exact hpush reached (Or.inr (boundProperty_isOperation found))
  | start derives =>
    refine ⟨?_, leadsThrough_nil _⟩
    intro cast heq
    cases heq
    exact derives
  | narrowed casts =>
    refine ⟨h.start, ?_⟩
    have hsteps := h.steps
    rw [Position.path_cons, leadsThrough_concat] at hsteps ⊢
    simpa using hsteps

/-- Each segment leaves a resource or a cast behind. -/
theorem PropertyEffect.goesOn {p p' : Position} (h : PropertyEffect answers target p p') :
    p'.path = [] → p'.start ≠ none := by
  intro hpath
  cases h with
  | start => exact Option.some_ne_none _
  | property | operation =>
    rw [Position.push, Position.path_cons] at hpath
    simp at hpath
  | narrowed =>
    rw [Position.path_cons] at hpath
    simp at hpath

/-- The resources of a path of properties are found one after the other. -/
theorem gives_propertyPath {segments : List String} {p : Position}
    (h : (propertyPath target segments).Gives answers p) : PropertyTrail target p :=
  h.foldlM_rule (PropertyTrail target) (fun _ _ _ htrail hstep => htrail.step (propertyStep_effect hstep))
    ⟨by simp [Position.origin], leadsThrough_nil _⟩

/-- A path with a segment leads somewhere. -/
theorem goesOn_of_gives_propertyPath {segments : List String} {p : Position}
    (hne : segments ≠ []) (h : (propertyPath target segments).Gives answers p) :
    p.path = [] → p.start ≠ none := by
  obtain ⟨before, last, rfl⟩ := (List.eq_nil_or_concat' segments).resolve_left hne
  rw [propertyPath, List.foldlM_append, Resolution.gives_bind] at h
  obtain ⟨q, -, hlast⟩ := h
  rw [List.foldlM_cons, Resolution.gives_bind] at hlast
  obtain ⟨q', hstep, hlast⟩ := hlast
  cases Resolution.gives_pure.mp hlast
  exact (propertyStep_effect hstep).goesOn

end ODataRequest
