import ODataRequest.Request.Basic

/-!
# ODataRequest.Proofs.Path.Shape

The shape of paths to resources (`PathShape`): which resources a path starts with, which of them end
it, what each of them may follow, and what its keys belong to.

A path is resolved from left to right, and the last resource may still be narrowed. `Trace` is what
holds of the resources all along, the last one first; `Trace.pathShape` reads the shape off it when
the path is complete.
-/

namespace ODataRequest

/-! ### Keys -/

/-- The predicates are a key of the type: one for each path of a key property, in the order of the
declaration, under the name of a key property of this path. -/
structure EntityType.HasKey (type : EntityType) (keys : List KeyPredicate) : Prop where
  paths : keys.map (·.path) = (type.keys.map KeyProperty.pathText).eraseDups
  names : ∀ p ∈ keys, ∃ k ∈ type.keys, p.path = k.pathText ∧ p.name = k.name

/-- The predicates are a key of the type, which is an entity type. -/
def ModelType.HasKey (type : ModelType) (keys : List KeyPredicate) : Prop :=
  ∃ entity, type = .entity entity ∧ entity.HasKey keys

namespace Resource

/-- The key of a resource stands where one may stand and belongs to the type of the members: the
declared one, or the one that the collection is cast to. -/
def WellKeyed : Resource → Prop
  | .entitySet _ type keys casts => (casts.onCollection.getD (.entity type)).HasKey keys
  | .navigation p target keys casts =>
    p.type.isCollection = true ∧ (casts.onCollection.getD (.entity target)).HasKey keys
  | .function f _ _ returnType keys casts =>
    f.returnType.type.isCollection = true ∧ returnType.isEntity = true ∧
      (casts.onCollection.getD returnType).HasKey keys
  | _ => False

/-! ### Places -/

/-- May a path start with the resource? -/
def startsPath : Resource → Bool
  | .entitySet _ _ _ _ | .singleton _ _ _ | .action _ _ _ | .function _ _ _ _ _ _ => true
  | _ => false

/-- Does the resource end a path? -/
def endsPath : Resource → Bool
  | .count | .value | .ref | .action _ _ _ => true
  | _ => false

/-- Does the resource belong to a path inside an expression? -/
def ofExpression : Resource → Bool
  | .it _ | .lambdaVariable _ _ | .lambda _ _ _ | .notEmpty => true
  | _ => false

/-- What has to be in front of the resource: a single value of a structured type that has the
property, a collection to count, an entity to refer to, or a single value that can stand alone. -/
def Fits (previous : Resource) : Resource → Prop
  | .property p _ _ => previous.isCollection = false ∧
      ∃ owner, previous.type?.bind ModelType.structured? = some owner ∧
        owner.property? p.name.text = some p
  | .navigation p _ _ _ => previous.isCollection = false ∧
      ∃ owner, previous.type?.bind ModelType.structured? = some owner ∧
        owner.navigationProperty? p.name.text = some p
  | .count => previous.isCollection = true
  | .ref => ∃ type, previous.type? = some (.entity type)
  | .value => previous.isCollection = false ∧
      match previous.type? with
      | some (.primitive _) | some (.enumeration _) | some (.definition _) => True
      | some (.entity type) => type.hasStream = true
      | _ => False
  | .action _ _ _ | .function _ _ _ _ _ _ => True
  | _ => False

end Resource

/-! ### Paths -/

/-- The shape of a path to a resource. -/
structure PathShape (path : List Resource) : Prop where
  first : ∃ r rest, path = r :: rest ∧ r.startsPath = true
  noExpression : ∀ r ∈ path, r.ofExpression = false
  last : ∀ before r after, path = before ++ r :: after → r.endsPath = true → after = []
  steps : ∀ before previous next after, path = before ++ previous :: next :: after →
    previous.Fits next
  notComposable : ∀ before f byImport arguments returnType keys casts after,
    path = before ++ .function f byImport arguments returnType keys casts :: after →
      f.isComposable = false → after = [] ∨ after = [.count] ∨ after = [.ref] ∨ after = [.value]
  keyed : ∀ r ∈ path, r.keys ≠ [] → r.WellKeyed

/-! ### Paths that are being resolved -/

namespace Resource

/-- What holds of a resource from its segment on. A single value is cast only when it is no
collection any more, so the casts of a collection are those from before its key. -/
structure Sound (r : Resource) : Prop where
  keyed : r.keys ≠ [] → r.WellKeyed
  uncast : r.isCollection = true → r.casts.onEntry = none

/-- Is the resource a function whose result no path goes into? -/
def isClosed : Resource → Bool
  | .function f _ _ _ _ _ => !f.isComposable
  | _ => false

theorem ofExpression_of_startsPath {r : Resource} (h : r.startsPath = true) :
    r.ofExpression = false := by
  cases r <;> first | rfl | cases h

theorem ofExpression_of_fits {previous r : Resource} (h : previous.Fits r) :
    r.ofExpression = false := by
  cases r <;> first | rfl | exact h.elim

theorem eq_of_isAspect {r : Resource} (h : Address.isAspect r = true) :
    r = .count ∨ r = .ref ∨ r = .value := by
  cases r with
  | count => exact Or.inl rfl
  | ref => exact Or.inr (Or.inl rfl)
  | value => exact Or.inr (Or.inr rfl)
  | _ => cases h

theorem endsPath_of_isAspect {r : Resource} (h : Address.isAspect r = true) :
    r.endsPath = true := by
  rcases eq_of_isAspect h with rfl | rfl | rfl <;> rfl

end Resource

/-! ### Narrowing -/

namespace Resource

variable {r previous : Resource}

@[simp] theorem isCollection_withCasts (casts : Casts) :
    (r.withCasts casts).isCollection = r.isCollection := by
  cases r <;> rfl

@[simp] theorem keys_withCasts (casts : Casts) : (r.withCasts casts).keys = r.keys := by
  cases r <;> rfl

@[simp] theorem withKeys_keys : r.withKeys r.keys = r := by
  cases r <;> rfl

theorem onEntry_withCasts (casts : Casts) (h : r.takesCast = true) :
    (r.withCasts casts).casts.onEntry = casts.onEntry := by
  cases r <;> first | rfl | cases h

/-- Only the casts of collections matter to keys. -/
theorem wellKeyed_withCasts {casts : Casts} (h : casts.onCollection = r.casts.onCollection) :
    (r.withCasts casts).WellKeyed ↔ r.WellKeyed := by
  cases r <;> simp_all [withCasts, WellKeyed, Resource.casts]

/-- What has a key is a single value. -/
theorem isCollection_of_keys_ne_nil (h : r.keys ≠ []) : r.isCollection = false := by
  cases r <;> simp_all [keys, isCollection]

/-- The second resource differs from the first one by casts and a key. -/
def Narrows (r r' : Resource) : Prop :=
  ∃ casts keys, r' = (r.withCasts casts).withKeys keys

namespace Narrows

variable {r' : Resource}

theorem of_withCasts (casts : Casts) : r.Narrows (r.withCasts casts) :=
  ⟨casts, (r.withCasts casts).keys, withKeys_keys.symm⟩

theorem startsPath (h : r.Narrows r') : r'.startsPath = r.startsPath := by
  obtain ⟨casts, keys, rfl⟩ := h
  cases r <;> rfl

theorem isAspect (h : r.Narrows r') : Address.isAspect r' = Address.isAspect r := by
  obtain ⟨casts, keys, rfl⟩ := h
  cases r <;> rfl

/-- What has to be in front of a resource does not depend on its casts and its key. -/
theorem fits (h : r.Narrows r') : previous.Fits r' ↔ previous.Fits r := by
  obtain ⟨casts, keys, rfl⟩ := h
  cases r <;> rfl

end Narrows

end Resource

/-- The resources that some segments lead to, the last one first. -/
inductive Trace : List Resource → Prop
  | start {r : Resource} (starts : r.startsPath = true) (sound : r.Sound) : Trace [r]
  | step {previous next : Resource} {earlier : List Resource} (before : Trace (previous :: earlier))
      (goesOn : previous.endsPath = false) (fits : previous.Fits next)
      (aspect : previous.isClosed = true → Address.isAspect next = true) (sound : next.Sound) :
      Trace (next :: previous :: earlier)

namespace Trace

variable {r previous next : Resource} {rs ss earlier : List Resource}

/-- The resources up to one of them are a trace again. -/
theorem of_append (h : Trace (rs ++ r :: ss)) : Trace (r :: ss) := by
  induction rs with
  | nil => exact h
  | cons s rs ih =>
    cases rs with
    | nil =>
      cases h with
      | step before => exact before
    | cons s' rs =>
      cases h with
      | step before => exact ih before

theorem sound (h : Trace (r :: rs)) : r.Sound := by
  cases h with
  | start _ sound => exact sound
  | step _ _ _ _ sound => exact sound

theorem ofExpression (h : Trace (r :: rs)) : r.ofExpression = false := by
  cases h with
  | start starts _ => exact Resource.ofExpression_of_startsPath starts
  | step _ _ fits _ _ => exact Resource.ofExpression_of_fits fits

/-- The last resource may be narrowed. -/
theorem narrow {r' : Resource} (h : Trace (r :: rs)) (narrows : r.Narrows r')
    (hsound : r'.Sound) : Trace (r' :: rs) := by
  cases h with
  | start starts _ => exact .start (narrows.startsPath.trans starts) hsound
  | step before goesOn fits aspect _ =>
    refine .step before goesOn (narrows.fits.mpr fits) (fun hclosed => ?_) hsound
    exact narrows.isAspect.trans (aspect hclosed)

/-- A path starts with the last resource of its trace. -/
theorem exists_first (h : Trace rs) :
    ∃ r rest, rs.reverse = r :: rest ∧ r.startsPath = true := by
  induction h with
  | start starts _ => exact ⟨_, [], rfl, starts⟩
  | @step previous next earlier _ _ _ _ _ ih =>
    obtain ⟨r, rest, hpath, hstarts⟩ := ih
    exact ⟨r, rest ++ [next], by rw [List.reverse_cons, hpath, List.cons_append], hstarts⟩

/-- The trace up to a resource of the path. -/
theorem of_reverse_eq {before after : List Resource} (h : Trace rs)
    (hpath : rs.reverse = before ++ r :: after) : Trace (r :: before.reverse) := by
  have hrs : rs = after.reverse ++ r :: before.reverse := by
    rw [← List.reverse_reverse rs, hpath]
    simp
  rw [hrs] at h
  exact h.of_append

/-- The trace up to two resources of the path, one behind the other. -/
theorem step_of_reverse_eq {before after : List Resource} (h : Trace rs)
    (hpath : rs.reverse = before ++ previous :: next :: after) :
    Trace (next :: previous :: before.reverse) := by
  have hsplit : rs.reverse = (before ++ [previous]) ++ next :: after := by simpa using hpath
  simpa using h.of_reverse_eq hsplit

/-- Nothing stands behind a resource that ends a path. -/
theorem eq_nil_of_endsPath {before after : List Resource} (h : Trace rs)
    (hpath : rs.reverse = before ++ r :: after) (hends : r.endsPath = true) : after = [] := by
  cases after with
  | nil => rfl
  | cons next after =>
    cases h.step_of_reverse_eq hpath with
    | step _ goesOn =>
      rw [hends] at goesOn
      cases goesOn

/-- One number, reference or value at most stands behind a closed function. -/
theorem aspect_of_isClosed {before after : List Resource} (h : Trace rs)
    (hpath : rs.reverse = before ++ r :: after) (hclosed : r.isClosed = true) :
    after = [] ∨ after = [.count] ∨ after = [.ref] ∨ after = [.value] := by
  cases after with
  | nil => exact Or.inl rfl
  | cons next after =>
    cases h.step_of_reverse_eq hpath with
    | step _ _ _ aspect =>
      have hnext : Address.isAspect next = true := aspect hclosed
      have hsplit : rs.reverse = (before ++ [r]) ++ next :: after := by simpa using hpath
      have hafter : after = [] :=
        h.eq_nil_of_endsPath hsplit (Resource.endsPath_of_isAspect hnext)
      subst hafter
      rcases Resource.eq_of_isAspect hnext with rfl | rfl | rfl <;> simp

/-- A path whose trace is known has the shape of a path. -/
theorem pathShape (h : Trace rs) : PathShape rs.reverse where
  first := h.exists_first
  noExpression := by
    intro r hr
    obtain ⟨before, after, hpath⟩ := List.append_of_mem hr
    exact (h.of_reverse_eq hpath).ofExpression
  last := by
    intro before r after hpath hends
    exact h.eq_nil_of_endsPath hpath hends
  steps := by
    intro before previous next after hpath
    cases h.step_of_reverse_eq hpath with
    | step _ _ fits => exact fits
  notComposable := by
    intro before f byImport arguments returnType keys casts after hpath hf
    exact h.aspect_of_isClosed hpath (by simp [Resource.isClosed, hf])
  keyed := by
    intro r hr
    obtain ⟨before, after, hpath⟩ := List.append_of_mem hr
    exact (h.of_reverse_eq hpath).sound.keyed

end Trace

end ODataRequest
