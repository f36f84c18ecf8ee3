import ODataRequest.Proofs.Path.SegmentText

/-!
# ODataRequest.Proofs.Path.CallForm

How a function has been called does not matter for what stands behind the call. The import it was named
by and the arguments it was given are kept in its resource and are looked at by nothing that follows:
neither the type of the resource nor its key or its casts depend on them, so every further segment does
the same to two resources that differ in nothing else (`nextSegment_mapCall`), and paths that start with
such resources lead to the same (`followSegments_mapCall`).
-/

namespace ODataRequest

open TokenReader

variable {answers : Answers} {aliases : AliasTable} {source : String} {ts rest : List Token}

/-! ### Resources -/

namespace Resource

theorem Narrows.refl {r : Resource} : r.Narrows r :=
  ⟨r.casts, r.keys, by cases r <;> rfl⟩

theorem Narrows.trans {r r' r'' : Resource} (h : r.Narrows r') (h' : r'.Narrows r'') :
    r.Narrows r'' := by
  obtain ⟨casts, keys, rfl⟩ := h
  obtain ⟨casts', keys', rfl⟩ := h'
  exact ⟨casts', keys', by cases r <;> rfl⟩

/-- The same resource with the import and the arguments of a function changed; every other resource stays
as it is. -/
def mapCall (byImport : Option Csdl.FunctionImport → Option Csdl.FunctionImport)
    (arguments : List Argument → List Argument) : Resource → Resource
  | .function f i as returnType keys casts =>
    .function f (byImport i) (arguments as) returnType keys casts
  | r => r

section MapCall

variable {i : Option Csdl.FunctionImport → Option Csdl.FunctionImport}
variable {a : List Argument → List Argument} {r r' : Resource}

@[simp] theorem type?_mapCall : (r.mapCall i a).type? = r.type? := by
  cases r <;> rfl

@[simp] theorem isCollection_mapCall : (r.mapCall i a).isCollection = r.isCollection := by
  cases r <;> rfl

@[simp] theorem takesKey_mapCall : (r.mapCall i a).takesKey = r.takesKey := by
  cases r <;> rfl

@[simp] theorem takesCast_mapCall : (r.mapCall i a).takesCast = r.takesCast := by
  cases r <;> rfl

@[simp] theorem casts_mapCall : (r.mapCall i a).casts = r.casts := by
  cases r <;> rfl

@[simp] theorem withCasts_mapCall (casts : Casts) :
    (r.mapCall i a).withCasts casts = (r.withCasts casts).mapCall i a := by
  cases r <;> rfl

@[simp] theorem withKeys_mapCall (keys : List KeyPredicate) :
    (r.mapCall i a).withKeys keys = (r.withKeys keys).mapCall i a := by
  cases r <;> rfl

@[simp] theorem mayFollow_mapCall (kind : TokenKind) :
    mayFollow (r.mapCall i a) kind = mayFollow r kind := by
  cases r <;> rfl

@[simp] theorem isAspect_mapCall : Address.isAspect (r.mapCall i a) = Address.isAspect r := by
  cases r <;> rfl

theorem cast_mapCall {type : ModelType} (h : r.cast type = .ok r') :
    (r.mapCall i a).cast type = .ok (r'.mapCall i a) := by
  unfold Resource.cast at h ⊢
  rw [type?_mapCall]
  split at h
  · cases h
  · simp only [casts_mapCall, isCollection_mapCall, takesCast_mapCall, withCasts_mapCall]
    grind

end MapCall

end Resource

/-! ### Segments -/

section Segments

variable {i : Option Csdl.FunctionImport → Option Csdl.FunctionImport}
variable {a : List Argument → List Argument} {previous r : Resource}

/-- The same effect on a resource that has been called in another way. -/
def SegmentEffect.mapCall (i : Option Csdl.FunctionImport → Option Csdl.FunctionImport)
    (a : List Argument → List Argument) : SegmentEffect → SegmentEffect
  | .narrow last => .narrow (last.mapCall i a)
  | .add next => .add next

/-- A key behind a resource is read in the same way. -/
theorem Keyed.mapCall {Allowed Allowed' : EntityType → Prop} {plain : Resource}
    (hallowed : ∀ type, Allowed type → Allowed' type)
    (h : Keyed answers aliases Allowed plain source ts r rest) :
    Keyed answers aliases Allowed' (plain.mapCall i a) source ts (r.mapCall i a) rest := by
  cases h with
  | without noKey => exact .without noKey
  | withKey allowed reads =>
    rw [← Resource.withKeys_mapCall]
    exact .withKey (hallowed _ allowed) reads

theorem castSegment_mapCall {name : String} {type : ModelType}
    (h : Reads answers (castSegment aliases previous name type) source ts r rest) :
    Reads answers (castSegment aliases (previous.mapCall i a) name type) source ts (r.mapCall i a)
      rest := by
  obtain ⟨narrowed, hcast, hkeyed⟩ := reads_castSegment_iff.mp h
  refine reads_castSegment_iff.mpr ⟨_, Resource.cast_mapCall hcast, hkeyed.mapCall ?_⟩
  rintro entity ⟨rfl, hcollection, htakesKey⟩
  exact ⟨rfl, by rwa [Resource.isCollection_mapCall], by rwa [Resource.takesKey_mapCall]⟩

theorem dollarSegment_mapCall {name : String}
    (h : (dollarSegment previous name).Gives answers r) :
    (dollarSegment (previous.mapCall i a) name).Gives answers r := by
  unfold dollarSegment at h ⊢
  rw [Resource.type?_mapCall, Resource.isCollection_mapCall]
  -- the two differ in the names that errors report, and an error gives nothing
  grind [Resolution.not_gives_reject]

theorem qualifiedSegment_mapCall {text : String} {effect : SegmentEffect}
    (h : Reads answers (qualifiedSegment aliases previous text) source ts effect rest) :
    Reads answers (qualifiedSegment aliases (previous.mapCall i a) text) source ts
      (effect.mapCall i a) rest := by
  obtain ⟨name, owner, hname, howner, ⟨type, last, htype, hcast, rfl⟩ |
    ⟨htype, next, hoperation, rfl⟩⟩ := reads_qualifiedSegment_iff.mp h
  · exact reads_qualifiedSegment_iff.mpr ⟨name, owner, hname, by rwa [Resource.type?_mapCall],
      Or.inl ⟨type, _, htype, castSegment_mapCall hcast, rfl⟩⟩
  · refine reads_qualifiedSegment_iff.mpr ⟨name, owner, hname, by rwa [Resource.type?_mapCall],
      Or.inr ⟨htype, next, ?_, rfl⟩⟩
    rwa [Resource.isCollection_mapCall]

theorem propertySegment_mapCall {name : String}
    (h : Reads answers (propertySegment aliases previous name) source ts r rest) :
    Reads answers (propertySegment aliases (previous.mapCall i a) name) source ts r rest := by
  obtain ⟨found, ⟨hsingle, type, owner, htype, howner, hfound⟩, hkeyed⟩ :=
    reads_propertySegment_iff.mp h
  refine reads_propertySegment_iff.mpr ⟨found, ⟨?_, type, owner, ?_, howner, hfound⟩, hkeyed⟩
  · rwa [Resource.isCollection_mapCall]
  · rwa [Resource.type?_mapCall]

/-- A segment does the same behind a resource that has been called in another way. -/
theorem nextSegment_mapCall {effect : SegmentEffect}
    (h : Reads answers (nextSegment aliases previous) source ts effect rest) :
    Reads answers (nextSegment aliases (previous.mapCall i a)) source ts (effect.mapCall i a) rest := by
  obtain ⟨t, us, rfl, hmay, h⟩ := reads_nextSegment_iff.mp h
  refine reads_nextSegment_iff.mpr ⟨t, us, rfl, by rwa [Resource.mayFollow_mapCall], ?_⟩
  rcases h with ⟨hkind, next, hgives, rfl, hrest⟩ | ⟨hkind, hqualified, h⟩ |
    ⟨hkind, hqualified, next, hproperty, rfl⟩
  · exact Or.inl ⟨hkind, next, dollarSegment_mapCall hgives, rfl, hrest⟩
  · exact Or.inr (Or.inl ⟨hkind, hqualified, qualifiedSegment_mapCall h⟩)
  · exact Or.inr (Or.inr ⟨hkind, hqualified, next, propertySegment_mapCall hproperty, rfl⟩)

/-- A segment that adds nothing narrows. -/
theorem narrows_of_nextSegment {last : Resource}
    (h : Reads answers (nextSegment aliases previous) source ts (.narrow last) rest) :
    previous.Narrows last := by
  obtain ⟨t, us, rfl, -, ⟨-, _, -, heq, -⟩ | ⟨-, -, h⟩ | ⟨-, -, _, -, heq⟩⟩ :=
    reads_nextSegment_iff.mp h
  · cases heq
  · obtain ⟨name, owner, -, -, ⟨type, _, -, hcast, heq⟩ | ⟨-, _, -, heq⟩⟩ :=
      reads_qualifiedSegment_iff.mp h
    · cases heq
      obtain ⟨narrowed, hcast, hkeyed⟩ := reads_castSegment_iff.mp hcast
      obtain ⟨rfl, -⟩ := cast_eq_ok hcast
      cases hkeyed with
      | without => exact .of_withCasts _
      | withKey => exact ⟨_, _, rfl⟩
    · cases heq
  · cases heq

/-! ### Paths -/

/-- One more segment, unless it is an empty one at the end. -/
theorem followSegments_cons {last : Resource} {earlier : List Resource} {segment : String}
    {segments : List String} (h : (segment.isEmpty && segments.isEmpty) = false)
    {path : List Resource} :
    (followSegments aliases last earlier (segment :: segments)).Gives answers path ↔
      ∃ effect, (readAll (nextSegment aliases last) segment).Gives answers effect ∧
        match effect with
        | .narrow last => (followSegments aliases last earlier segments).Gives answers path
        | .add next => (followSegments aliases next (last :: earlier) segments).Gives answers path := by
  rw [followSegments, h]
  simp only [Bool.false_eq_true, if_false, Resolution.gives_bind]
  refine exists_congr fun effect => and_congr_right fun _ => ?_
  cases effect with
  | narrow last => exact Iff.rfl
  | add next => exact Iff.rfl

/-- Resources in front of the last one are kept and not looked at. -/
theorem gives_followSegments_append {last : Resource} {earlier : List Resource}
    {segments : List String} {path : List Resource} :
    (followSegments aliases last earlier segments).Gives answers path ↔
      ∃ behind, (followSegments aliases last [] segments).Gives answers behind ∧
        path = earlier.reverse ++ behind := by
  induction segments generalizing last earlier path with
  | nil => simp [followSegments, eq_comm]
  | cons segment segments ih =>
    rw [followSegments, followSegments]
    split
    · simp [eq_comm]
    · simp only [Resolution.gives_bind]
      constructor
      · rintro ⟨effect, heffect, h⟩
        cases effect with
        | narrow last =>
          obtain ⟨behind, hbehind, rfl⟩ := ih.mp h
          exact ⟨behind, ⟨_, heffect, hbehind⟩, rfl⟩
        | add next =>
          obtain ⟨behind, hbehind, rfl⟩ := ih.mp h
          exact ⟨last :: behind, ⟨_, heffect, ih.mpr ⟨behind, hbehind, rfl⟩⟩, by simp⟩
      · rintro ⟨_, ⟨effect, heffect, h⟩, rfl⟩
        refine ⟨effect, heffect, ?_⟩
        cases effect with
        | narrow last => exact ih.mpr ⟨_, h, rfl⟩
        | add next =>
          obtain ⟨behind, hbehind, rfl⟩ := ih.mp h
          exact ih.mpr ⟨behind, hbehind, by simp⟩

/-- Segments lead from a resource to the same, however it has been called: it comes first, narrowed
perhaps, and nothing behind it differs. -/
theorem followSegments_mapCall {last : Resource} {segments : List String} {path : List Resource}
    (h : (followSegments aliases last [] segments).Gives answers path) :
    ∃ r behind, path = r :: behind ∧ last.Narrows r ∧ ∀ i a,
      (followSegments aliases (last.mapCall i a) [] segments).Gives answers
        (r.mapCall i a :: behind) := by
  induction segments generalizing last path with
  | nil =>
    cases Resolution.gives_pure.mp h
    exact ⟨last, [], rfl, .refl, fun i a => Resolution.gives_pure.mpr rfl⟩
  | cons segment segments ih =>
    simp only [followSegments] at h ⊢
    by_cases hend : (segment.isEmpty && segments.isEmpty) = true
    · rw [if_pos hend] at h
      cases Resolution.gives_pure.mp h
      refine ⟨last, [], rfl, .refl, fun i a => ?_⟩
      rw [if_pos hend]
      exact Resolution.gives_pure.mpr rfl
    · rw [if_neg hend] at h
      obtain ⟨effect, heffect, h⟩ := Resolution.gives_bind.mp h
      obtain ⟨tokens, left, htokens, hreads, hleft⟩ := gives_readAll.mp heffect
      have heffect' : ∀ i a, (readAll (nextSegment aliases (last.mapCall i a)) segment).Gives
          answers (effect.mapCall i a) := fun i a =>
        gives_readAll.mpr ⟨tokens, left, htokens, nextSegment_mapCall hreads, hleft⟩
      simp only [hend, Bool.false_eq_true, if_false, Resolution.gives_bind]
      cases effect with
      | narrow narrowed =>
        obtain ⟨r, behind, rfl, hnarrows, hsame⟩ := ih h
        exact ⟨r, behind, rfl, (narrows_of_nextSegment hreads).trans hnarrows,
          fun i a => ⟨_, heffect' i a, hsame i a⟩⟩
      | add next =>
        obtain ⟨behind, hbehind, rfl⟩ := gives_followSegments_append.mp h
        refine ⟨last, behind, rfl, .refl, fun i a => ⟨_, heffect' i a, ?_⟩⟩
        exact gives_followSegments_append.mpr ⟨behind, hbehind, rfl⟩

end Segments

end ODataRequest
