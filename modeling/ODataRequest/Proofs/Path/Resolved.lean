import ODataRequest.Proofs.Path.Segments
import ODataRequest.Proofs.Token.Name
import ODataRequest.Request.Reader

/-!
# ODataRequest.Proofs.Path.Resolved

Every path that is resolved has the shape of a path (`Request.read_pathShape`). The segments are
followed from left to right, and each of them keeps the resources so far a trace
(`gives_followSegments`).

The theorem is about any directory, in any state: validation and serialization of a request may rely
on the shape of its path without looking at the model.
-/

namespace ODataRequest

open TokenReader

variable {answers : Answers} {aliases : AliasTable} {path : List Resource}

/-- An effect keeps the resources a trace. -/
theorem Trace.follow {previous : Resource} {earlier : List Resource} {effect : SegmentEffect}
    (h : Trace (previous :: earlier)) (hfollows : effect.Follows previous) :
    match effect with
    | .narrow last => Trace (last :: earlier)
    | .add next => Trace (next :: previous :: earlier) := by
  cases effect with
  | narrow last => exact h.narrow hfollows.1 hfollows.2
  | add next =>
    obtain ⟨hends, hfits, haspect, hsound⟩ := hfollows
    exact .step h hends hfits haspect hsound

/-- Further segments keep the resources a trace. -/
theorem gives_followSegments {last : Resource} {earlier : List Resource} {segments : List String}
    (htrace : Trace (last :: earlier))
    (h : (followSegments aliases last earlier segments).Gives answers path) :
    ∃ rs, path = rs.reverse ∧ Trace rs := by
  -- by induction on the segments; the trace is the invariant
  induction segments generalizing last earlier with
  | nil =>
    cases Resolution.gives_pure.mp h
    exact ⟨_, rfl, htrace⟩
  | cons segment segments ih =>
    rw [followSegments] at h
    split at h
    · cases Resolution.gives_pure.mp h
      exact ⟨_, rfl, htrace⟩
    · obtain ⟨effect, heffect, h⟩ := Resolution.gives_bind.mp h
      obtain ⟨tokens, rest, -, hreads, -⟩ := gives_readAll.mp heffect
      have hnext := htrace.follow (nextSegment_follows htrace.sound hreads)
      cases effect with
      | narrow last => exact ih hnext h
      | add next => exact ih hnext h

/-- The resources of a resolved path are a trace. -/
theorem trace_of_gives_resourcePath {first : String} {segments : List String}
    (h : (resourcePath aliases first segments).Gives answers path) :
    ∃ rs, path = rs.reverse ∧ Trace rs := by
  obtain ⟨r, hfirst, hpath⟩ := Resolution.gives_bind.mp h
  obtain ⟨tokens, rest, -, hreads, -⟩ := gives_readAll.mp hfirst
  obtain ⟨hstarts, hsound⟩ := firstSegment_starts hreads
  exact gives_followSegments (.start hstarts hsound) hpath

/-- A resolved path has the shape of a path. -/
theorem gives_resourcePath {first : String} {segments : List String}
    (h : (resourcePath aliases first segments).Gives answers path) : PathShape path := by
  obtain ⟨rs, rfl, htrace⟩ := trace_of_gives_resourcePath h
  exact htrace.pathShape

/-! ### Requests -/

theorem aloneAddress_eq_ok {address address' : Address} {segments : List String} :
    aloneAddress address segments = .ok address' ↔ segments = [] ∧ address = address' := by
  cases segments <;> simp [aloneAddress]

/-- What has been found behind an address: a path has been resolved, and the names in a cross join are
those of entity sets. -/
inductive Address.Found (answers : Answers) (aliases : AliasTable) : Address → Prop
  | service : Found answers aliases .service
  | metadata : Found answers aliases .metadata
  | batch : Found answers aliases .batch
  | all (cast : Option EntityType) : Found answers aliases (.all cast)
  | entityId (cast : Option EntityType) : Found answers aliases (.entityId cast)
  | crossJoin (container : Container) {sets : List String}
      (h : ∀ name ∈ sets, ∃ set, container.entitySet? name = some set) :
      Found answers aliases (.crossJoin sets)
  | resource {path : List Resource} {first : String} {rest : List String}
      (h : (resourcePath aliases first rest).Gives answers path) :
      Found answers aliases (.resource path)

/-- A cross join is one of entity sets of a container. -/
theorem reads_crossJoin {source : String} {ts rest : List Token} {address : Address}
    (h : Reads answers crossJoin source ts address rest) :
    ∃ sets, address = .crossJoin sets ∧ ∃ container : Container,
      ∀ name ∈ sets, ∃ set, container.entitySet? name = some set := by
  unfold crossJoin at h
  simp only [reads_bind, reads_ite] at h
  obtain ⟨t, _, -, ⟨-, h⟩ | ⟨-, h⟩⟩ := h
  · obtain ⟨_, _, hmalformed, -⟩ := h
    exact absurd hmalformed not_reads_malformed
  · obtain ⟨_, _, -, container, _, -, sets, _, hsets, _, _, -, h⟩ := h
    obtain ⟨rfl, -⟩ := reads_pure.mp h
    refine ⟨sets, rfl, container, fun name hname => ?_⟩
    obtain ⟨_, _, hname⟩ := (reads_commaSeparated.mp hsets).exists_of_mem hname
    unfold joinedName at hname
    simp only [reads_bind, reads_lift, reads_pure, Resolution.gives_require] at hname
    obtain ⟨t, _, -, set, _, ⟨hset, -⟩, rfl, -⟩ := hname
    exact ⟨set, hset⟩

/-- A segment without a dollar sign in front is the start of a path to resources. -/
theorem addressOf_plain {first : String} {rest : List String} (hempty : first.isEmpty = false)
    (hdollar : first.toList.head? ≠ some '$') :
    addressOf aliases (first :: rest) =
      (do return .resource (← resourcePath aliases first rest)) := by
  have hne : ∀ text : String, text.toList.head? = some '$' → first ≠ text := by
    rintro text htext rfl
    exact hdollar htext
  have hjoin : "$crossjoin".toList.isPrefixOf first.toList = false := by
    cases hchars : first.toList with
    | nil => rfl
    | cons c cs =>
      rw [hchars, List.head?_cons, ne_eq, Option.some.injEq] at hdollar
      simp [List.isPrefixOf, Ne.symm hdollar]
  unfold addressOf
  simp only [hempty, hne "$metadata" (by decide), hne "$batch" (by decide), hne "$all" (by decide),
    hne "$entity" (by decide), hjoin]
  simp [hdollar]

/-- A segment that starts with an identifier is the start of a path to resources. -/
theorem addressOf_identifier {first : String} {c : Char} {cs : List Char} {rest : List String}
    (hfirst : first.toList = c :: cs) (h : isIdentifierStart c = true) :
    addressOf aliases (first :: rest) =
      (do return .resource (← resourcePath aliases first rest)) := by
  refine addressOf_plain ?_ ?_
  · rw [String.isEmpty_eq_false_iff]
    rintro rfl
    cases hfirst
  · rw [hfirst, List.head?_cons, ne_eq, Option.some.injEq]
    rintro rfl
    exact absurd h (by decide)

/-- Nothing but the name of a type may follow where a cast may. -/
theorem exists_name_of_trailingCast {segments : List String} {cast : Option EntityType}
    (h : (trailingCast segments).Gives answers cast) :
    ∀ segment ∈ segments, ∃ name : QualifiedName, name.text = segment := by
  unfold trailingCast at h
  split at h
  · exact nofun
  · obtain ⟨name, hname, -⟩ := Resolution.gives_bind.mp h
    rw [Resolution.gives_requireName] at hname
    intro segment hsegment
    exact ⟨name, (QualifiedName.text_of_ofString? hname).trans (List.mem_singleton.mp hsegment).symm⟩
  · exact absurd h Resolution.not_gives_refuse

/-- The ways in which a first segment and the segments behind it address something. -/
inductive AddressForm (answers : Answers) (aliases : AliasTable) :
    String → List String → Address → Prop
  | service : AddressForm answers aliases "" [] .service
  | metadata : AddressForm answers aliases "$metadata" [] .metadata
  | batch : AddressForm answers aliases "$batch" [] .batch
  | all {rest : List String} {cast : Option EntityType}
      (h : (trailingCast rest).Gives answers cast) : AddressForm answers aliases "$all" rest (.all cast)
  | entityId {rest : List String} {cast : Option EntityType}
      (h : (trailingCast rest).Gives answers cast) :
      AddressForm answers aliases "$entity" rest (.entityId cast)
  | crossJoin {first : String} {sets : List String} (container : Container)
      (reader : addressOf aliases [first] = readAll crossJoin first)
      (h : ∀ name ∈ sets, ∃ set, container.entitySet? name = some set) :
      AddressForm answers aliases first [] (.crossJoin sets)
  | resource {first : String} {rest : List String} {path : List Resource}
      (nonempty : first.isEmpty = false) (plain : first.toList.head? ≠ some '$')
      (h : (resourcePath aliases first rest).Gives answers path) :
      AddressForm answers aliases first rest (.resource path)

/-- Whatever is addressed is addressed in one of these ways. -/
theorem addressForm {first : String} {rest : List String} {address : Address}
    (h : (addressOf aliases (first :: rest)).Gives answers address) :
    AddressForm answers aliases first rest address := by
  unfold addressOf at h
  dsimp only at h
  split at h
  · next hempty =>
    split at h
    · next hrest =>
      obtain rfl := Resolution.gives_pure.mp h
      obtain rfl := String.isEmpty_iff.mp hempty
      obtain rfl := List.isEmpty_iff.mp hrest
      exact .service
    · exact absurd h Resolution.not_gives_refuse
  -- `$metadata` and `$batch`, which stand alone
  next hempty =>
  split at h
  · next hfirst =>
    obtain ⟨rfl, rfl⟩ := aloneAddress_eq_ok.mp (Resolution.gives_ofGrammar.mp h)
    exact hfirst ▸ .metadata
  next hmetadata =>
  split at h
  · next hfirst =>
    obtain ⟨rfl, rfl⟩ := aloneAddress_eq_ok.mp (Resolution.gives_ofGrammar.mp h)
    exact hfirst ▸ .batch
  -- `$all` and `$entity`, which may have a cast
  next hbatch =>
  split at h
  · next hfirst =>
    obtain ⟨cast, hcast, h⟩ := Resolution.gives_bind.mp h
    obtain rfl := Resolution.gives_pure.mp h
    exact hfirst ▸ .all hcast
  next hall =>
  split at h
  · next hfirst =>
    obtain ⟨cast, hcast, h⟩ := Resolution.gives_bind.mp h
    obtain rfl := Resolution.gives_pure.mp h
    exact hfirst ▸ .entityId hcast
  -- a cross join, and behind it other words with a dollar sign and resources
  next hentity =>
  split at h
  · next hjoin =>
    cases rest with
    | nil =>
      obtain ⟨tokens, others, -, hreads, -⟩ := gives_readAll.mp h
      obtain ⟨sets, rfl, container, hsets⟩ := reads_crossJoin hreads
      refine .crossJoin container ?_ hsets
      unfold addressOf
      dsimp only
      rw [if_neg hempty, if_neg hmetadata, if_neg hbatch, if_neg hall, if_neg hentity, if_pos hjoin]
    | cons next rest => exact absurd h Resolution.not_gives_refuse
  split at h
  · exact absurd h Resolution.not_gives_refuse
  · next hdollar =>
    obtain ⟨path, hpath, h⟩ := Resolution.gives_bind.mp h
    obtain rfl := Resolution.gives_pure.mp h
    exact .resource (by simpa using hempty) hdollar hpath

/-- The first segment of a path decides what it addresses: resources, whatever follows, or something
else, which nothing but names may follow. -/
theorem addressOf_first (answers : Answers) (aliases : AliasTable) (first : String) :
    (∀ rest, addressOf aliases (first :: rest) =
        (do return .resource (← resourcePath aliases first rest))) ∨
      ∀ rest address, (addressOf aliases (first :: rest)).Gives answers address →
        address.path = [] ∧ ∀ segment ∈ rest, ∃ name : QualifiedName, name.text = segment := by
  by_cases hplain : first.isEmpty = false ∧ first.toList.head? ≠ some '$'
  · exact Or.inl fun rest => addressOf_plain hplain.1 hplain.2
  · refine Or.inr fun rest address h => ?_
    cases addressForm h with
    | service | metadata | batch | crossJoin => exact ⟨rfl, nofun⟩
    | all hcast | entityId hcast => exact ⟨rfl, exists_name_of_trailingCast hcast⟩
    | resource nonempty plain => exact absurd ⟨nonempty, plain⟩ hplain

/-- A path that leads to resources does so from its first segment on, and so does every path with the
same first segment. -/
theorem gives_addressOf_iff {first : String} {rest : List String} {address : Address}
    (h : (addressOf aliases (first :: rest)).Gives answers address) (hne : address.path ≠ [])
    (others : List String) {address' : Address} :
    (addressOf aliases (first :: others)).Gives answers address' ↔ ∃ path,
      address' = .resource path ∧ (resourcePath aliases first others).Gives answers path := by
  rcases addressOf_first answers aliases first with hplain | hother
  · rw [hplain, Resolution.gives_bind]
    simp only [Resolution.gives_pure]
    constructor
    · rintro ⟨path, hpath, rfl⟩
      exact ⟨path, rfl, hpath⟩
    · rintro ⟨path, rfl, hpath⟩
      exact ⟨path, hpath, rfl⟩
  · exact absurd (hother _ _ h).1 hne

theorem found_of_gives_addressOf {segments : List String} {address : Address}
    (h : (addressOf aliases segments).Gives answers address) : address.Found answers aliases := by
  cases segments with
  | nil =>
    obtain rfl := Resolution.gives_pure.mp h
    exact .service
  | cons first rest =>
    cases addressForm h with
    | service => exact .service
    | metadata => exact .metadata
    | batch => exact .batch
    | all => exact .all _
    | entityId => exact .entityId _
    | crossJoin container _ hsets => exact .crossJoin container hsets
    | resource _ _ hpath => exact .resource hpath

/-- An address of resources is a path that has been resolved. -/
theorem gives_addressOf {segments : List String}
    (h : (addressOf aliases segments).Gives answers (.resource path)) :
    ∃ first rest, (resourcePath aliases first rest).Gives answers path := by
  cases found_of_gives_addressOf h with
  | resource hpath => exact ⟨_, _, hpath⟩

/-- Every accepted path to a resource has the shape of a path. -/
theorem Request.read_pathShape {config : Config} {text : String} {query fragment : Option String}
    {d : Directory} {r : Request} {path : List Resource}
    (h : ((Request.read config text query fragment).runOn d).1 = .ok r)
    (hpath : r.address = .resource path) : PathShape path := by
  have hgives := Resolution.gives_of_runOn h
  unfold Request.read at hgives
  simp only [Resolution.gives_bind] at hgives
  obtain ⟨parts, -, segments, -, address, haddress, options, -, _, -, hr⟩ := hgives
  cases Resolution.gives_pure.mp hr
  have hresource : address = .resource path := hpath
  rw [hresource] at haddress
  obtain ⟨first, rest, hresolved⟩ := gives_addressOf haddress
  exact gives_resourcePath hresolved

section Music

private def musicSpace : Namespace := ⟨⟨"Music", by decide⟩, []⟩
private def albumName : Identifier := ⟨"Album", by decide⟩
private def albumsName : Identifier := ⟨"Albums", by decide⟩
private def trackName : Identifier := ⟨"Track", by decide⟩
private def liveName : Identifier := ⟨"Live", by decide⟩
private def titleName : Identifier := ⟨"Title", by decide⟩
private def numberName : Identifier := ⟨"Number", by decide⟩

private def titleProperty : Csdl.Property :=
  ⟨titleName, ⟨PrimitiveKind.string.qualifiedName, false⟩, false, none, none, none, none⟩

private def numberProperty : Csdl.Property :=
  ⟨numberName, ⟨(PrimitiveKind.integer .int32).qualifiedName, false⟩, false, none, none, none,
    none⟩

private def tracksProperty : Csdl.NavigationProperty :=
  ⟨⟨"Tracks", by decide⟩, ⟨⟨musicSpace, trackName⟩, true⟩, false, none, true⟩

/-- A model with albums and their tracks, some of which are live. -/
def music : Source :=
  { basicOnly := false
    schemas :=
      [{ space := musicSpace
         aliasName := none
         entityTypes :=
           [{ name := albumName, baseType := none, isAbstract := false, isOpen := false,
              properties := [titleProperty], navigationProperties := [tracksProperty],
              hasStream := false, key := [⟨"Title", none⟩] },
            { name := trackName, baseType := none, isAbstract := false, isOpen := false,
              properties := [numberProperty], navigationProperties := [],
              hasStream := false, key := [⟨"Number", none⟩] },
            { name := liveName, baseType := some ⟨musicSpace, trackName⟩, isAbstract := false,
              isOpen := false, properties := [titleProperty], navigationProperties := [],
              hasStream := false, key := [] }]
         complexTypes := []
         enumTypes := []
         typeDefinitions := []
         actions := []
         functions := []
         terms := []
         container := some
           { name := musicSpace.first
             entitySets := [⟨albumsName, ⟨musicSpace, albumName⟩, [], true⟩]
             singletons := []
             actionImports := []
             functionImports := [] }
         annotations := [] }] }

/-- The path to the title of a live track: a key that stands behind a cast of all tracks. -/
def livePath : String :=
  "Albums('A/B')/Tracks/Music.Live(3)/Title/$value"

/-- The segments of the path that a request is accepted with. -/
def acceptedSegments (answer : Except RequestError Request) : List String :=
  match answer with
  | .ok r => r.address.path.map Resource.segment
  | .error _ => []

/-- A request that is accepted with some segments is one for resources. -/
theorem exists_of_acceptedSegments {answer : Except RequestError Request} {segments : List String}
    (hne : segments ≠ []) (h : acceptedSegments answer = segments) :
    ∃ r path, answer = .ok r ∧ r.address = .resource path ∧ path.map Resource.segment = segments := by
  cases answer with
  | error e => exact absurd h.symm hne
  | ok r =>
    cases haddress : r.address with
    | resource path =>
      refine ⟨r, path, rfl, haddress, ?_⟩
      simpa [acceptedSegments, haddress, Address.path] using h
    | _ =>
      simp only [acceptedSegments, haddress, Address.path, List.map_nil] at h
      exact absurd h.symm hne

theorem acceptedSegments_livePath :
    acceptedSegments ((Request.read .standard livePath none none).runOn (.ofSource music)).1 =
      ["Albums", "Tracks", "Title", "$value"] := by
  decide +kernel

/-- The path to the title of a live track is accepted and has the shape of a path. -/
theorem read_pathShape_livePath :
    ∃ r path, ((Request.read .standard livePath none none).runOn (.ofSource music)).1 = .ok r ∧
      r.address = .resource path ∧
      path.map Resource.segment = ["Albums", "Tracks", "Title", "$value"] ∧ PathShape path := by
  have hsegments := acceptedSegments_livePath
  cases hread : ((Request.read .standard livePath none none).runOn (.ofSource music)).1 with
  | error e =>
    rw [hread] at hsegments
    cases hsegments
  | ok r =>
    rw [hread] at hsegments
    cases haddress : r.address with
    | resource path =>
      refine ⟨r, path, rfl, haddress, ?_, Request.read_pathShape hread haddress⟩
      simpa [acceptedSegments, haddress, Address.path] using hsegments
    | _ => simp [acceptedSegments, haddress, Address.path] at hsegments

end Music

end ODataRequest
