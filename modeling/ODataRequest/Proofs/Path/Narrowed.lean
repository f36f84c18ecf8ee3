import ODataRequest.Proofs.Directory.Answers
import ODataRequest.Proofs.Directory.Hiding
import ODataRequest.Proofs.Path.AnsweredTypes
import ODataRequest.Proofs.Path.CallForm
import ODataRequest.Proofs.Path.PropertyPath
import ODataRequest.Proofs.Path.SegmentEnd

/-!
# ODataRequest.Proofs.Path.Narrowed

What stands behind a cast. A resource that is cast to a derived type goes on as it did before with every
property of its type, as long as the derived type hides none of them, and with its number, its reference
and its value (`nextSegment_castTo`). So a path that goes on with one of them leads to the same resources
behind a cast of its last one (`resourcePath_narrowed`).
-/

namespace ODataRequest

open TokenReader

variable {answers : Answers} {aliases : AliasTable} {source : String} {ts rest : List Token}

theorem tokenize_empty : tokenize "" = .ok [⟨.endOfText, "", 0, false⟩] := by
  rw [tokenize_eq_ok]
  show Lexeme.tokensFrom 0 false [] = _
  rw [Lexeme.tokensFrom]

/-! ### What a type has -/

namespace StructuredType

variable {owner : StructuredType}

/-- The token stands for something that an instance of the type, or a collection of them, may be asked
for: a property that is found on the type, or the number, the reference or the value. -/
def Has (owner : StructuredType) (t : Token) : Prop :=
  t.kind = .dollar ∧ t.text ∈ ["$count", "$ref", "$value"] ∨
    t.kind = .identifier ∧ owner.finds t.text = true

/-- The segment starts with something that an instance of the type may be asked for; a key may follow. -/
def HasSegment (owner : StructuredType) (segment : String) : Prop :=
  ∃ t ts, tokenize segment = .ok (t :: ts) ∧ owner.Has t

theorem HasSegment.isEmpty_eq_false {segment : String} (h : owner.HasSegment segment) :
    segment.isEmpty = false := by
  obtain ⟨t, ts, htokens, ht⟩ := h
  rw [String.isEmpty_eq_false_iff]
  rintro rfl
  cases tokenize_empty.symm.trans htokens
  rcases ht with ⟨hkind, -⟩ | ⟨hkind, -⟩ <;> cases hkind

/-- Names of properties are not qualified. -/
theorem isQualified_of_finds {name : String} (h : owner.finds name = true) :
    isQualified name = false := by
  rw [finds, Bool.or_eq_true, Option.isSome_iff_exists, Option.isSome_iff_exists] at h
  rcases h with ⟨p, hp⟩ | ⟨p, hp⟩
  · rw [← property?_name hp]
    exact p.name.isQualified_text
  · rw [← navigationProperty?_name hp]
    exact p.name.isQualified_text

end StructuredType

/-! ### Casts -/

/-- A type that a source answers is resolved. -/
theorem ModelType.resolved_of_answeredBy {s : Source} {type : ModelType}
    (h : type.AnsweredBy s.answers) : type.Resolved s := by
  rcases h with ⟨name, h⟩ | ⟨name, entity, rfl, h⟩
  · exact resolved_of_answer h
  · exact ⟨name, h⟩

/-- The second resource is the first one cast from the one structured type to the other, which is of the
same sort and continues in its levels. -/
structure Resource.CastTo (last narrowed : Resource) (base derived : StructuredType) : Prop where
  isCollection : narrowed.isCollection = last.isCollection
  mayFollow : ∀ kind, mayFollow narrowed kind = mayFollow last kind
  types : ∃ current type, last.type? = some current ∧ narrowed.type? = some type ∧
    current.structured? = some base ∧ type.structured? = some derived ∧
      type.isEntity = current.isEntity
  levels : derived.levels = derived.below base.name ++ base.levels

namespace Resource

variable {last narrowed : Resource} {base derived : StructuredType}

@[simp] theorem mayFollow_withCasts (casts : Casts) (kind : TokenKind) :
    ODataRequest.mayFollow (last.withCasts casts) kind = ODataRequest.mayFollow last kind := by
  cases last <;> rfl

/-- A cast of a resource of a path to a type that has been an answer. -/
theorem castTo_of_cast {s : Source} (hsound : last.Sound) (hanswered : last.TypeAnswered s.answers)
    {name : QualifiedName} {type : ModelType} (htype : s.answers (.type name) (some type))
    (h : last.cast type = .ok narrowed) (hbase : last.type?.bind ModelType.structured? = some base)
    (hderived : narrowed.type?.bind ModelType.structured? = some derived) :
    last.CastTo narrowed base derived := by
  have hnarrowed := hsound.type?_cast h
  obtain ⟨rfl, -, -, current, hcurrent, hsort, hderives⟩ := cast_eq_ok h
  rw [hcurrent, Option.bind_some] at hbase
  rw [hnarrowed, Option.bind_some] at hderived
  have hresolved : current.Resolved s :=
    ModelType.resolved_of_answeredBy (hanswered current hcurrent (by simp [hbase]))
  exact
    { isCollection := isCollection_withCasts _
      mayFollow := mayFollow_withCasts _
      types := ⟨current, type, hcurrent, hnarrowed, hbase, hderived, hsort⟩
      levels := ModelType.levels_of_derivesFrom (ModelType.resolved_of_answer htype) hresolved hsort
        hderives hderived hbase }

end Resource

/-! ### Segments -/

section Segments

variable {last narrowed next : Resource} {base derived : StructuredType}

theorem dollarSegment_castTo (hcast : last.CastTo narrowed base derived) {name : String}
    (h : (dollarSegment last name).Gives answers next) :
    (dollarSegment narrowed name).Gives answers next := by
  obtain ⟨current, type, hcurrent, htype, hbase, hderived, hsort⟩ := hcast.types
  unfold dollarSegment at h ⊢
  rw [hcast.isCollection, htype]
  rw [hcurrent] at h
  cases current with
  | entity entity =>
    obtain ⟨entity', rfl⟩ := exists_of_isEntity hsort
    cases hbase
    cases hderived
    have hstream := EntityType.hasStream_of_levels hcast.levels
    -- the two differ in the names that errors report, and an error gives nothing
    grind [Resolution.not_gives_reject, ModelType.isEntity]
  | complex owner =>
    cases type with
    | complex owner' => grind [Resolution.not_gives_reject, ModelType.isEntity]
    | entity => cases hsort
    | _ => cases hderived
  | _ => cases hbase

/-- The property of a name is the same on both types. -/
theorem propertyResource_castTo (hlevels : derived.levels = derived.below base.name ++ base.levels)
    (hides : derived.HidesNothing base) {name : String} (found : base.finds name = true)
    (h : (propertyResource base name).Gives answers (some next)) :
    (propertyResource derived name).Gives answers (some next) := by
  obtain ⟨hproperty, hnavigation⟩ := hides.lookup hlevels found
  rw [gives_propertyResource_iff] at h ⊢
  rwa [hproperty, hnavigation]

theorem propertySegment_castTo (hcast : last.CastTo narrowed base derived)
    (hides : derived.HidesNothing base) {name : String} (found : base.finds name = true)
    (h : Reads answers (propertySegment aliases last name) source ts next rest) :
    Reads answers (propertySegment aliases narrowed name) source ts next rest := by
  obtain ⟨current, type, hcurrent, htype, hbase, hderived, -⟩ := hcast.types
  obtain ⟨resource, ⟨hsingle, current', owner, hcurrent', howner, hfound⟩, hkeyed⟩ :=
    reads_propertySegment_iff.mp h
  cases hcurrent.symm.trans hcurrent'
  cases hbase.symm.trans howner
  exact reads_propertySegment_iff.mpr ⟨resource, ⟨hcast.isCollection.trans hsingle, type, derived, htype,
    hderived, propertyResource_castTo hcast.levels hides found hfound⟩, hkeyed⟩

/-- A segment for what the type has adds the same to a resource that is cast. -/
theorem nextSegment_castTo (hcast : last.CastTo narrowed base derived)
    (hides : derived.HidesNothing base) {t : Token} (has : base.Has t) {effect : SegmentEffect}
    (h : Reads answers (nextSegment aliases last) source (t :: ts) effect rest) :
    ∃ next, effect = .add next ∧
      Reads answers (nextSegment aliases narrowed) source (t :: ts) effect rest := by
  obtain ⟨_, _, heq, hmay, h⟩ := reads_nextSegment_iff.mp h
  cases heq
  have hmay' : mayFollow narrowed t.kind = true := (hcast.mayFollow _).trans hmay
  rcases h with ⟨hkind, next, hgives, rfl, hrest⟩ | ⟨hkind, hqualified, -⟩ |
    ⟨hkind, hqualified, next, hproperty, rfl⟩
  · exact ⟨next, rfl, reads_nextSegment_iff.mpr ⟨t, ts, rfl, hmay',
      Or.inl ⟨hkind, next, dollarSegment_castTo hcast hgives, rfl, hrest⟩⟩⟩
  · rcases has with ⟨hdollar, -⟩ | ⟨-, found⟩
    · cases hkind.symm.trans hdollar
    · cases hqualified.symm.trans (StructuredType.isQualified_of_finds found)
  · rcases has with ⟨hdollar, -⟩ | ⟨-, found⟩
    · cases hkind.symm.trans hdollar
    · exact ⟨next, rfl, reads_nextSegment_iff.mpr ⟨t, ts, rfl, hmay', Or.inr (Or.inr ⟨hkind, hqualified,
        next, propertySegment_castTo hcast hides found hproperty, rfl⟩)⟩⟩

theorem gives_nextSegment_castTo (hcast : last.CastTo narrowed base derived)
    (hides : derived.HidesNothing base) {segment : String} (has : base.HasSegment segment)
    {effect : SegmentEffect} (h : (readAll (nextSegment aliases last) segment).Gives answers effect) :
    ∃ next, effect = .add next ∧
      (readAll (nextSegment aliases narrowed) segment).Gives answers effect := by
  obtain ⟨t, ts, htokens, ht⟩ := has
  obtain ⟨ts', rest, htokens', hreads, hend⟩ := gives_readAll.mp h
  cases htokens.symm.trans htokens'
  obtain ⟨next, heffect, hreads'⟩ := nextSegment_castTo hcast hides ht hreads
  exact ⟨next, heffect, gives_readAll.mpr ⟨_, rest, htokens, hreads', hend⟩⟩

end Segments

/-! ### Paths -/

/-- No segment is empty. -/
theorem isEmpty_of_gives_nextSegment {previous : Resource} {effect : SegmentEffect} {segment : String}
    (h : (readAll (nextSegment aliases previous) segment).Gives answers effect) :
    segment.isEmpty = false := by
  rw [String.isEmpty_eq_false_iff]
  rintro rfl
  obtain ⟨ts, rest, htokens, hreads, -⟩ := gives_readAll.mp h
  obtain ⟨t, us, rfl, hkind, -⟩ := EndsGroup.of_nextSegment hreads
  cases tokenize_empty.symm.trans htokens
  rcases hkind with hkind | hkind <;> cases hkind

section Paths

variable {s : Source} {path : List Resource} {segments : List String}

/-- The last resource behind a segment, and the ones before it. -/
def SegmentEffect.onto (last : Resource) (earlier : List Resource) : SegmentEffect →
    Resource × List Resource
  | .narrow narrowed => (narrowed, earlier)
  | .add next => (next, last :: earlier)

/-- Where the effect of a segment is known, the segments behind it are followed from there. -/
theorem followSegments_cons_of_gives (names : s.WellNamed) {last : Resource} {earlier : List Resource}
    {segment : String} {effect : SegmentEffect}
    (heffect : (readAll (nextSegment aliases last) segment).Gives s.answers effect) :
    (followSegments aliases last earlier (segment :: segments)).Gives s.answers path ↔
      (followSegments aliases (effect.onto last earlier).1 (effect.onto last earlier).2
        segments).Gives s.answers path := by
  rw [followSegments_cons (by simp [isEmpty_of_gives_nextSegment heffect])]
  constructor
  · rintro ⟨effect', heffect', h⟩
    cases heffect.unique names heffect'
    cases effect with
    | narrow => exact h
    | add => exact h
  · intro h
    refine ⟨effect, heffect, ?_⟩
    cases effect with
    | narrow => exact h
    | add => exact h

/-- Segments in front of others lead somewhere, whatever the others are. -/
theorem exists_reached (names : s.WellNamed) {last : Resource} {earlier : List Resource}
    {others : List String} (hne : others ≠ [])
    (h : (followSegments aliases last earlier (segments ++ others)).Gives s.answers path) :
    ∃ last' earlier', ∀ others' path',
      (followSegments aliases last earlier (segments ++ others')).Gives s.answers path' ↔
        (followSegments aliases last' earlier' others').Gives s.answers path' := by
  induction segments generalizing last earlier with
  | nil => exact ⟨last, earlier, fun _ _ => Iff.rfl⟩
  | cons segment segments ih =>
    have hmore : (segment.isEmpty && (segments ++ others).isEmpty) = false := by simp [hne]
    obtain ⟨effect, heffect, -⟩ := (followSegments_cons hmore).mp h
    obtain ⟨last', earlier', hreached⟩ := ih ((followSegments_cons_of_gives names heffect).mp h)
    exact ⟨last', earlier', fun others' path' =>
      (followSegments_cons_of_gives names heffect).trans (hreached others' path')⟩

/-- A name behind a resource narrows it by a cast to the type of the name, or adds a resource. -/
theorem gives_nextSegment_name {last : Resource} {name : QualifiedName} {effect : SegmentEffect}
    (h : (readAll (nextSegment aliases last) name.text).Gives answers effect) :
    (∃ type narrowed, effect = .narrow narrowed ∧ answers (.type name) (some type) ∧
      last.cast type = .ok narrowed) ∨ ∃ next, effect = .add next := by
  obtain ⟨ts, rest, htokens, hreads, -⟩ := gives_readAll.mp h
  have hname : tokenize name.text = .ok [⟨.identifier, name.text, 0, false⟩,
      ⟨.endOfText, "", 0 + Lexeme.byteLength name.text.toList, false⟩] := by
    have hcut := Word.tokensFrom_of_lexes ((isName_qualifiedName name).stands [] Lexeme.bounded_nil) 0
      false
    rw [List.append_nil, Lexeme.tokensFrom] at hcut
    exact tokenize_eq_ok.mpr hcut
  cases hname.symm.trans htokens
  obtain ⟨t, us, heq, -, ⟨-, next, -, rfl, -⟩ | ⟨-, -, h⟩ | ⟨-, -, next, -, rfl⟩⟩ :=
    reads_nextSegment_iff.mp hreads
  · exact Or.inr ⟨next, rfl⟩
  · cases heq
    obtain ⟨name', owner, hname', -, ⟨type, narrowed, htype, hcast, rfl⟩ | ⟨-, next, -, rfl⟩⟩ :=
      reads_qualifiedSegment_iff.mp h
    · obtain rfl : name = name' := by simpa [QualifiedName.ofString?_text] using hname'
      obtain ⟨plain, hplain, hkeyed⟩ := reads_castSegment_iff.mp hcast
      cases hkeyed with
      | without => exact Or.inl ⟨type, narrowed, rfl, htype, hplain⟩
      | withKey _ reads => cases firstToken_of_reads_key reads
    · exact Or.inr ⟨next, rfl⟩
  · exact Or.inr ⟨next, rfl⟩

/-- A name that adds no resource casts the last one. -/
theorem exists_narrowed {last : Resource} {earlier : List Resource} {name : QualifiedName}
    (h : (followSegments aliases last earlier [name.text]).Gives answers path)
    (hlength : path.length = (last :: earlier).length) :
    ∃ type narrowed, (readAll (nextSegment aliases last) name.text).Gives answers (.narrow narrowed) ∧
      answers (.type name) (some type) ∧ last.cast type = .ok narrowed ∧
      path = (narrowed :: earlier).reverse := by
  obtain ⟨effect, heffect, h⟩ := (followSegments_cons
    (by simp [(isName_qualifiedName name).isEmpty_eq_false])).mp h
  obtain ⟨type, narrowed, rfl, htype, hcast⟩ | ⟨next, rfl⟩ := gives_nextSegment_name heffect
  · exact ⟨type, narrowed, heffect, htype, hcast, (Resolution.gives_pure.mp h).symm⟩
  · obtain rfl := Resolution.gives_pure.mp h
    simp at hlength

/-- The structured type that a path leads to. -/
def reachedOwner (path : List Resource) : Option StructuredType :=
  (reachedType none path).bind ModelType.structured?

theorem ne_nil_of_reachedOwner {owner : StructuredType} (h : reachedOwner path = some owner) :
    path ≠ [] := by
  rintro rfl
  cases h

theorem reachedOwner_concat (earlier : List Resource) (last : Resource) :
    reachedOwner (earlier ++ [last]) = last.type?.bind ModelType.structured? := by
  simp [reachedOwner, reachedType]

/-- A path that goes on with something that its type has leads to the same resources behind a name that
casts its last one to a derived type, as long as that type hides nothing. -/
theorem resourcePath_narrowed (names : s.WellNamed) {first : String} {name : QualifiedName}
    {segment : String} {others : List String} {path' path'' : List Resource}
    {base derived : StructuredType}
    (hpath : (resourcePath aliases first segments).Gives s.answers path)
    (hcast : (resourcePath aliases first (segments ++ [name.text])).Gives s.answers path')
    (hlength : path'.length = path.length) (hbase : reachedOwner path = some base)
    (hderived : reachedOwner path' = some derived) (hides : derived.HidesNothing base)
    (has : base.HasSegment segment)
    (hfurther : (resourcePath aliases first (segments ++ segment :: others)).Gives s.answers path'') :
    ∃ earlier last narrowed next behind, path = earlier ++ [last] ∧ path' = earlier ++ [narrowed] ∧
      path'' = earlier ++ last :: next :: behind ∧
      (resourcePath aliases first (segments ++ name.text :: segment :: others)).Gives s.answers
        (earlier ++ narrowed :: next :: behind) := by
  obtain ⟨rs, hrs, htrace⟩ := trace_of_gives_resourcePath hpath
  have hanswered := resourcePath_answered hpath
  obtain ⟨r, hfirst, hpath⟩ := Resolution.gives_bind.mp hpath
  obtain ⟨r', hfirst', hcast⟩ := Resolution.gives_bind.mp hcast
  cases hfirst.unique names hfirst'
  obtain ⟨r'', hfirst'', hfurther⟩ := Resolution.gives_bind.mp hfurther
  cases hfirst.unique names hfirst''
  obtain ⟨last, earlier, hreached⟩ := exists_reached names (List.cons_ne_nil _ _) hcast
  rw [← List.append_nil segments, hreached] at hpath
  rw [hreached] at hcast hfurther
  obtain rfl := Resolution.gives_pure.mp hpath
  obtain rfl := List.reverse_injective hrs
  obtain ⟨type, narrowed, hnarrow, htype, hnarrowed, rfl⟩ :=
    exists_narrowed hcast (hlength.trans (List.length_reverse ..))
  rw [List.reverse_cons, reachedOwner_concat] at hbase hderived
  have hto : last.CastTo narrowed base derived :=
    Resource.castTo_of_cast htrace.sound (hanswered last (by simp)) htype hnarrowed hbase hderived
  -- what the segment adds, it adds behind the cast as well
  obtain ⟨effect, heffect, hadded⟩ :=
    (followSegments_cons (by simp [has.isEmpty_eq_false])).mp hfurther
  obtain ⟨next, rfl, heffect'⟩ := gives_nextSegment_castTo hto hides has heffect
  obtain ⟨behind, hbehind, rfl⟩ := gives_followSegments_append.mp hadded
  obtain ⟨next', others', rfl, -, -⟩ := followSegments_mapCall hbehind
  refine ⟨earlier.reverse, last, narrowed, next', others', List.reverse_cons, List.reverse_cons,
    by simp, Resolution.gives_bind.mpr ⟨r, hfirst, ?_⟩⟩
  rw [hreached, followSegments_cons_of_gives names hnarrow, SegmentEffect.onto,
    followSegments_cons_of_gives names heffect', SegmentEffect.onto, gives_followSegments_append]
  exact ⟨_, hbehind, by simp⟩

end Paths

end ODataRequest
