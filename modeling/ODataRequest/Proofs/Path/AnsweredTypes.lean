import ODataRequest.Proofs.Path.Resolved
import ODataRequest.Proofs.Path.SegmentText

/-!
# ODataRequest.Proofs.Path.AnsweredTypes

Where the types of a path come from. Each structured type that a resource of a path has, narrowed or not,
has been an answer to the question for a type or for an entity type (`ModelType.AnsweredBy`). This holds
of the first resource (`firstSegment_answered`), every further segment keeps it (`nextSegment_answered`),
and so does a whole path (`resourcePath_answered`).
-/

namespace ODataRequest

open TokenReader

variable {answers : Answers} {aliases : AliasTable} {source : String} {ts rest : List Token}

/-- The type is an answer to the question for a type or for an entity type of some name. -/
def ModelType.AnsweredBy (answers : Answers) (type : ModelType) : Prop :=
  (∃ name, answers (.type name) (some type)) ∨
    ∃ name entity, type = .entity entity ∧ answers (.entityType name) (some entity)

namespace Resource

variable {r r' : Resource}

/-- The type of the resource is an answer if it is a structured one. -/
def TypeAnswered (answers : Answers) (r : Resource) : Prop :=
  ∀ type, r.type? = some type → type.structured?.isSome → type.AnsweredBy answers

theorem TypeAnswered.of_type? (htype : r'.type? = r.type?) (h : r.TypeAnswered answers) :
    r'.TypeAnswered answers := by
  intro type
  rw [htype]
  exact h type

theorem TypeAnswered.of_eq {type : ModelType} (htype : r.type? = some type)
    (h : type.AnsweredBy answers) : r.TypeAnswered answers := by
  intro type' htype' _
  rw [htype] at htype'
  cases htype'
  exact h

/-- What has no structured type needs no answer. -/
theorem TypeAnswered.of_unstructured (h : r.type?.bind ModelType.structured? = none) :
    r.TypeAnswered answers := by
  intro type htype hstructured
  rw [htype, Option.bind_some] at h
  simp [h] at hstructured

@[simp] theorem type?_withKeys (keys : List KeyPredicate) : (r.withKeys keys).type? = r.type? := by
  cases r <;> rfl

/-- A resource that is cast has the type that it is cast to. -/
theorem Sound.type?_cast (hsound : r.Sound) {type : ModelType} (h : r.cast type = .ok r') :
    r'.type? = some type := by
  obtain ⟨rfl, htakes, -, -⟩ := cast_eq_ok h
  have hentry : r.isCollection = true → r.casts.onEntry = none := hsound.uncast
  have hnarrow : ∀ declared, (r.casts.add r.isCollection type).narrow declared = type := by
    intro declared
    cases hcollection : r.isCollection with
    | true => simp [Casts.narrow, Casts.add, hentry hcollection]
    | false => simp [Casts.narrow, Casts.add]
  cases r with
  | entitySet | navigation | property | function => exact congrArg some (hnarrow _)
  | singleton => rfl
  | _ => cases htakes

end Resource

theorem Keyed.type?_eq {Allowed : EntityType → Prop} {plain r : Resource}
    (h : Keyed answers aliases Allowed plain source ts r rest) : r.type? = plain.type? := by
  cases h with
  | without => rfl
  | withKey => exact Resource.type?_withKeys _

/-! ### Operations -/

theorem actionResource_answered {a : Action} {byImport : Option Csdl.ActionImport} {r : Resource}
    (h : (actionResource a byImport).Gives answers r) : r.TypeAnswered answers := by
  unfold actionResource at h
  obtain ⟨returnType, htype, h⟩ := Resolution.gives_bind.mp h
  cases Resolution.gives_pure.mp h
  cases hreturn : a.returnType with
  | none =>
    rw [hreturn] at htype
    cases Resolution.gives_pure.mp htype
    exact .of_unstructured rfl
  | some declared =>
    rw [hreturn] at htype
    obtain ⟨type, hanswer, heq⟩ := Resolution.gives_bind.mp htype
    cases Resolution.gives_pure.mp heq
    exact .of_eq rfl (Or.inl ⟨_, Resolution.gives_requireType.mp hanswer⟩)

theorem functionResource_answered {f : Function} {byImport : Option Csdl.FunctionImport}
    {raw : List (String × Token)} {r : Resource}
    (h : Reads answers (functionResource aliases f byImport raw) source ts r rest) :
    r.TypeAnswered answers := by
  obtain ⟨arguments, returnType, -, htype, hkeyed⟩ := reads_functionResource_iff.mp h
  exact .of_eq hkeyed.type?_eq (Or.inl ⟨_, htype⟩)

theorem calledFunction_answered {byImport : Option Csdl.FunctionImport} {missing : SemanticError}
    {find : List String → Resolution (Option Function)} {r : Resource}
    (h : Reads answers (calledFunction aliases byImport missing find) source ts r rest) :
    r.TypeAnswered answers := by
  obtain ⟨raw, between, f, -, -, hfunction⟩ := reads_calledFunction_iff.mp h
  exact functionResource_answered hfunction

theorem calledOperation_answered {noFunction noAction : SemanticError}
    {findFunction : QualifiedName → List String → Resolution (Option Function)}
    {findAction : QualifiedName → Resolution (Option Action)} {name : QualifiedName} {r : Resource}
    (h : Reads answers (calledOperation aliases noFunction noAction findFunction findAction name)
      source ts r rest) : r.TypeAnswered answers := by
  unfold calledOperation at h
  rcases reads_ifSees.mp h with ⟨-, h⟩ | ⟨-, h⟩
  · exact calledFunction_answered h
  · obtain ⟨a, -, hgives, -⟩ := reads_calledAction_iff.mp h
    exact actionResource_answered hgives

/-! ### Segments -/

theorem containerResource_answered {c : Container} {name : String} {r : Resource}
    (h : Reads answers (containerResource aliases c name) source ts r rest) :
    r.TypeAnswered answers := by
  have helement := containerResource_element aliases c name
  generalize containerResource aliases c name = reader at h helement
  cases helement with
  | entitySet found =>
    obtain ⟨type, htype, hkeyed⟩ := reads_entitySetResource_iff.mp h
    exact .of_eq hkeyed.type?_eq (Or.inr ⟨_, _, rfl, htype⟩)
  | singleton found =>
    rcases reads_ifSees.mp h with ⟨-, h⟩ | ⟨-, h⟩
    · exact absurd (reads_lift.mp h).1 Resolution.not_gives_reject
    · obtain ⟨hgives, -⟩ := reads_lift.mp h
      unfold singletonResource at hgives
      obtain ⟨type, htype, heq⟩ := Resolution.gives_bind.mp hgives
      cases Resolution.gives_pure.mp heq
      exact .of_eq rfl (Or.inr ⟨_, _, rfl, Resolution.gives_requireEntityType.mp htype⟩)
  | actionImport found =>
    obtain ⟨a, -, hgives⟩ := gives_of_reads_importedAction h
    exact actionResource_answered hgives
  | functionImport found => exact calledFunction_answered h
  | missing => exact absurd (reads_lift.mp h).1 Resolution.not_gives_reject

theorem firstSegment_answered {r : Resource}
    (h : Reads answers (firstSegment aliases) source ts r rest) : r.TypeAnswered answers := by
  obtain ⟨t, us, rfl, -, ⟨-, h⟩ | ⟨-, container, -, h⟩⟩ := reads_firstSegment_iff.mp h
  · obtain ⟨name, -, h⟩ := reads_unboundOperation_iff.mp h
    exact calledOperation_answered h
  · exact containerResource_answered h

theorem castSegment_answered {previous r : Resource} {text : String} {name : QualifiedName}
    {type : ModelType} (hsound : previous.Sound) (htype : answers (.type name) (some type))
    (h : Reads answers (castSegment aliases previous text type) source ts r rest) :
    r.TypeAnswered answers := by
  obtain ⟨narrowed, hcast, hkeyed⟩ := reads_castSegment_iff.mp h
  exact .of_eq (hkeyed.type?_eq.trans (hsound.type?_cast hcast)) (Or.inl ⟨name, htype⟩)

theorem propertySegment_answered {previous r : Resource} {name : String}
    (h : Reads answers (propertySegment aliases previous name) source ts r rest) :
    r.TypeAnswered answers := by
  obtain ⟨found, ⟨-, -, owner, -, -, hfound⟩, hkeyed⟩ := reads_propertySegment_iff.mp h
  refine .of_type? hkeyed.type?_eq ?_
  rcases gives_propertyResource_iff.mp hfound with ⟨p, type, rfl, -, htype⟩ |
    ⟨p, target, rfl, -, -, htarget⟩
  · exact .of_eq rfl (Or.inl ⟨_, htype⟩)
  · exact .of_eq rfl (Or.inr ⟨_, _, rfl, htarget⟩)

/-- What a segment leads to has a type that has been an answer. -/
def SegmentEffect.TypeAnswered (answers : Answers) : SegmentEffect → Prop
  | .narrow last => last.TypeAnswered answers
  | .add next => next.TypeAnswered answers

theorem nextSegment_answered {previous : Resource} {effect : SegmentEffect} (hsound : previous.Sound)
    (h : Reads answers (nextSegment aliases previous) source ts effect rest) :
    effect.TypeAnswered answers := by
  obtain ⟨t, us, rfl, -, ⟨-, next, hgives, rfl, -⟩ | ⟨-, -, h⟩ | ⟨-, -, next, hproperty, rfl⟩⟩ :=
    reads_nextSegment_iff.mp h
  · obtain ⟨-, haspect, -⟩ := gives_dollarSegment hgives
    rcases Resource.eq_of_isAspect haspect with rfl | rfl | rfl <;> exact .of_unstructured rfl
  · obtain ⟨name, owner, -, -, ⟨type, last, htype, hcast, rfl⟩ | ⟨-, next, hoperation, rfl⟩⟩ :=
      reads_qualifiedSegment_iff.mp h
    · exact castSegment_answered hsound htype hcast
    · rw [boundOperation_eq] at hoperation
      exact calledOperation_answered hoperation
  · exact propertySegment_answered hproperty

/-! ### Paths -/

theorem followSegments_answered {last : Resource} {earlier : List Resource} {segments : List String}
    {path : List Resource} (htrace : Trace (last :: earlier))
    (hanswered : ∀ r ∈ last :: earlier, r.TypeAnswered answers)
    (h : (followSegments aliases last earlier segments).Gives answers path) :
    ∀ r ∈ path, r.TypeAnswered answers := by
  -- by induction on the segments; a cast is of a sound resource, so the trace is part of the invariant
  induction segments generalizing last earlier with
  | nil =>
    cases Resolution.gives_pure.mp h
    exact fun r hr => hanswered r (List.mem_reverse.mp hr)
  | cons segment segments ih =>
    rw [followSegments] at h
    split at h
    · cases Resolution.gives_pure.mp h
      exact fun r hr => hanswered r (List.mem_reverse.mp hr)
    · obtain ⟨effect, heffect, h⟩ := Resolution.gives_bind.mp h
      obtain ⟨tokens, left, -, hreads, -⟩ := gives_readAll.mp heffect
      have hnext := htrace.follow (nextSegment_follows htrace.sound hreads)
      have hanswer := nextSegment_answered htrace.sound hreads
      cases effect with
      | narrow narrowed =>
        have hearlier := (List.forall_mem_cons.mp hanswered).2
        exact ih hnext (List.forall_mem_cons.mpr ⟨hanswer, hearlier⟩) h
      | add next => exact ih hnext (List.forall_mem_cons.mpr ⟨hanswer, hanswered⟩) h

/-- The structured types of the resources of a path are answers. -/
theorem resourcePath_answered {first : String} {segments : List String} {path : List Resource}
    (h : (resourcePath aliases first segments).Gives answers path) :
    ∀ r ∈ path, r.TypeAnswered answers := by
  obtain ⟨r, hfirst, hpath⟩ := Resolution.gives_bind.mp h
  obtain ⟨tokens, left, -, hreads, -⟩ := gives_readAll.mp hfirst
  obtain ⟨hstarts, hsound⟩ := firstSegment_starts hreads
  refine followSegments_answered (.start hstarts hsound) ?_ hpath
  simpa using firstSegment_answered hreads

end ODataRequest
