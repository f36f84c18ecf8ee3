import ODataRequest.Proofs.CallHistory
import ODataRequest.Proofs.Path.Narrowed
import ODataRequest.Proofs.Request.Recoded

/-!
# ODataRequest.Proofs.Request.Casts

Casting to a derived type hides nothing. Where the name of a derived type behind a path casts what the
path leads to, and the types between the two declare no property whose name is found already, everything
that the path can go on with before the cast it can go on with behind it, and it ends in the same
resources (`Request.read_narrowed`).

The texts come first. A path goes on behind a slash with the segments of what stands there, unless
something has been left open (`pathSegments_closed`); and if something has, the slash is part of a
segment that no path has (`isClosed_of_reaches`).
-/

namespace ODataRequest

open TokenReader
open Text (Nesting)

/-! ### Segments behind a slash -/

/-- The segments of what stands behind a slash of a path. -/
def segmentsBehind (text : String) : Except GrammarError (List String) :=
  (Text.splitTopLevel '/' text.toList).mapM fun segment => decoded (String.ofList segment)

section Texts

variable {path text : String} {segments : List String}

theorem scan_dropWhile_slash (s : Nesting) (cs : List Char) :
    s.scan (cs.dropWhile (· == '/')) = s.scan cs := by
  induction cs with
  | nil => rfl
  | cons c cs ih =>
    by_cases hc : c = '/'
    · rw [List.dropWhile_cons_of_pos (by simp [hc]), ih, hc]
      show s.scan cs = (s.advance '/').scan cs
      rw [Text.advance_slash]
    · rw [List.dropWhile_cons_of_neg (by simp [hc])]

/-- The path is more than slashes, and leaves no parenthesis and no quote open. -/
structure IsClosed (path : String) : Prop where
  some : path.toList.dropWhile (· == '/') ≠ []
  scan : Nesting.outermost.scan path.toList = .outermost

/-- Only slashes are dropped, so what is behind something else is kept. -/
theorem dropWhile_slash_behind (hne : path.toList.dropWhile (· == '/') ≠ []) :
    (path ++ "/" ++ text).toList.dropWhile (· == '/') =
      path.toList.dropWhile (· == '/') ++ '/' :: text.toList := by
  have hchars : (path ++ "/" ++ text).toList = path.toList ++ '/' :: text.toList := by simp
  rw [hchars, List.dropWhile_append]
  simp [hne]

/-- A name behind a slash leaves nothing open. -/
theorem IsClosed.behind {name : String} (h : IsClosed path) (hname : IsName name) :
    IsClosed (path ++ "/" ++ name) where
  some := by
    rw [dropWhile_slash_behind h.some]
    exact List.append_ne_nil_of_left_ne_nil h.some _
  scan := by
    rw [String.toList_append, String.toList_append, Nesting.scan_append, Nesting.scan_append, h.scan]
    exact hname.portable.calm.scan 0

/-- Where nothing has been left open, the segments behind a slash follow the segments in front of it. -/
theorem pathSegments_closed (hclosed : IsClosed path) :
    pathSegments (path ++ "/" ++ text) = .ok segments ↔
      ∃ front behind, pathSegments path = .ok front ∧ segmentsBehind text = .ok behind ∧
        segments = front ++ behind := by
  obtain ⟨front, last, part, parts, hpath, hpart, hwhole⟩ := Text.exists_splitFrom_append '/' .outermost
    (path.toList.dropWhile (· == '/')) ('/' :: text.toList)
  rw [scan_dropWhile_slash, hclosed.scan, Text.splitFrom_slash_separates rfl] at hpart
  obtain ⟨rfl, rfl⟩ := List.cons.inj hpart
  have hsplit : Text.splitTopLevel '/' ((path ++ "/" ++ text).toList.dropWhile (· == '/')) =
      Text.splitTopLevel '/' (path.toList.dropWhile (· == '/')) ++
        Text.splitTopLevel '/' text.toList := by
    unfold Text.splitTopLevel
    rw [dropWhile_slash_behind hclosed.some, hwhole, hpath]
    simp
  unfold pathSegments segmentsBehind
  rw [hsplit, List.mapM_append]
  simp only [except_bind_eq_ok, except_pure, Except.ok.injEq]
  constructor
  · rintro ⟨front, hfront, behind, hbehind, rfl⟩
    exact ⟨front, behind, hfront, hbehind, rfl⟩
  · rintro ⟨front, behind, hfront, hbehind, rfl⟩
    exact ⟨front, hfront, behind, hbehind, rfl⟩

theorem decoded_behind {cs : List Char} {front : String} (h : decoded (String.ofList cs) = .ok front)
    (hpercent : '%' ∉ text.toList) :
    decoded (String.ofList (cs ++ '/' :: text.toList)) = .ok (front ++ "/" ++ text) := by
  have hslash : '%' ∉ '/' :: text.toList := by simp [hpercent]
  rw [decoded_eq_ok] at h ⊢
  rw [Text.unescape_append h, Text.percentDecode?_eq_some.mp (Text.percentDecode?_of_not_mem hslash)]
  simp

/-- Where something has been left open, a slash and a name belong to the last segment. -/
theorem pathSegments_open {name : String} (hname : IsName name)
    (hne : path.toList.dropWhile (· == '/') ≠ [])
    (hopen : Nesting.outermost.scan path.toList ≠ .outermost) (h : pathSegments path = .ok segments) :
    ∃ front last, pathSegments (path ++ "/" ++ name) = .ok (front ++ [last ++ "/" ++ name]) := by
  obtain ⟨front, last, part, parts, hpath, hpart, hwhole⟩ := Text.exists_splitFrom_append '/' .outermost
    (path.toList.dropWhile (· == '/')) ('/' :: name.toList)
  have hunbroken : Text.Unbroken '/' (Nesting.outermost.scan path.toList) ('/' :: name.toList) :=
    ⟨by simp [Text.separates, hopen], Text.unbroken_of_not_mem hname.slash_not_mem⟩
  rw [scan_dropWhile_slash, Text.splitFrom_unbroken hunbroken] at hpart
  obtain ⟨rfl, rfl⟩ := List.cons.inj hpart
  unfold pathSegments Text.splitTopLevel at h ⊢
  rw [hpath, List.mapM_append] at h
  simp only [except_bind_eq_ok, List.mapM_cons, List.mapM_nil, except_pure, Except.ok.injEq] at h
  obtain ⟨fronts, hfronts, _, ⟨text, htext, _, rfl, rfl⟩, -⟩ := h
  refine ⟨fronts, text, ?_⟩
  rw [dropWhile_slash_behind hne, hwhole, List.mapM_append, hfronts, except_ok_bind, List.mapM_cons,
    decoded_behind htext hname.percent_not_mem]
  rfl

/-- A name is a segment of its own. -/
theorem segmentsBehind_name {name : String} (hname : IsName name) :
    segmentsBehind name = .ok [name] := by
  unfold segmentsBehind Text.splitTopLevel
  rw [Text.splitFrom_unbroken (Text.unbroken_of_not_mem hname.slash_not_mem), List.mapM_cons, decoded,
    Text.percentDecode?_of_not_mem hname.percent_not_mem, String.ofList_toList]
  rfl

/-- Nothing but slashes leads to no resource. -/
theorem path_of_only_slashes (honly : path.toList.dropWhile (· == '/') = []) {aliases : AliasTable}
    {answers : Answers} {address : Address} (hsegments : pathSegments path = .ok segments)
    (haddress : (addressOf aliases segments).Gives answers address) : address.path = [] := by
  have hnone : pathSegments path = .ok [""] := by
    unfold pathSegments
    rw [honly]
    decide +kernel
  cases hnone.symm.trans hsegments
  obtain rfl := Resolution.gives_pure.mp haddress
  rfl

end Texts

/-! ### Paths -/

/-- The path leads to the address with the answers. -/
def Reaches (answers : Answers) (aliases : AliasTable) (path : String) (address : Address) : Prop :=
  ∃ segments, pathSegments path = .ok segments ∧ (addressOf aliases segments).Gives answers address

section Paths

variable {s : Source} {aliases : AliasTable} {path : String} {address address' address'' : Address}

/-- No resource stands behind a segment that goes on with a slash and a name. -/
theorem not_gives_resourcePath_slash (names : s.WellNamed) {first front name : String}
    (hname : IsName name) {segments : List String} {resources : List Resource} :
    ¬(resourcePath aliases first (segments ++ [front ++ "/" ++ name])).Gives s.answers resources := by
  intro h
  obtain ⟨r, -, hfollow⟩ := Resolution.gives_bind.mp h
  obtain ⟨last, earlier, hreached⟩ := exists_reached names (List.cons_ne_nil _ _) hfollow
  rw [hreached, followSegments_cons (by simp)] at hfollow
  obtain ⟨effect, heffect, -⟩ := hfollow
  exact not_gives_nextSegment_slash hname heffect

/-- A path to resources on which a slash and a name lead to resources, too, leaves nothing open. -/
theorem isClosed_of_reaches (names : s.WellNamed) {name : String} (hname : IsName name)
    (hpath : Reaches s.answers aliases path address) (hne : address.path ≠ [])
    (hnamed : Reaches s.answers aliases (path ++ "/" ++ name) address') (hne' : address'.path ≠ []) :
    IsClosed path := by
  obtain ⟨segments, hsegments, haddress⟩ := hpath
  obtain ⟨segments', hsegments', haddress'⟩ := hnamed
  have hsome : path.toList.dropWhile (· == '/') ≠ [] := fun honly =>
    hne (path_of_only_slashes honly hsegments haddress)
  refine ⟨hsome, ?_⟩
  by_contra hopen
  obtain ⟨front, last, hlast⟩ := pathSegments_open hname hsome hopen hsegments
  obtain rfl := Except.ok.inj (hsegments'.symm.trans hlast)
  cases front with
  | nil =>
    obtain ⟨resources, -, hresources⟩ := (gives_addressOf_iff haddress' hne' _).mp haddress'
    obtain ⟨r, hfirst, -⟩ := Resolution.gives_bind.mp hresources
    exact not_gives_firstSegment_slash hname hfirst
  | cons first front =>
    obtain ⟨resources, -, hresources⟩ := (gives_addressOf_iff haddress' hne' _).mp haddress'
    exact not_gives_resourcePath_slash names hname hresources

/-- Behind the name of a derived type that hides nothing, a path leads to what it leads to without it. -/
theorem reaches_narrowed (names : s.WellNamed) {name : QualifiedName} {segment text : String}
    {others : List String} {base derived : StructuredType}
    (hpath : Reaches s.answers aliases path address)
    (hcast : Reaches s.answers aliases (path ++ "/" ++ name.text) address')
    (hlength : address'.path.length = address.path.length)
    (hbase : reachedOwner address.path = some base)
    (hderived : reachedOwner address'.path = some derived) (hides : derived.HidesNothing base)
    (hsegment : segmentsBehind segment = .ok (text :: others)) (has : base.HasSegment text)
    (hfurther : Reaches s.answers aliases (path ++ "/" ++ segment) address'') :
    ∃ earlier last narrowed next behind, address = .resource (earlier ++ [last]) ∧
      address' = .resource (earlier ++ [narrowed]) ∧
      address'' = .resource (earlier ++ last :: next :: behind) ∧
      Reaches s.answers aliases (path ++ "/" ++ name.text ++ "/" ++ segment)
        (.resource (earlier ++ narrowed :: next :: behind)) := by
  have hname := isName_qualifiedName name
  have hne := ne_nil_of_reachedOwner hbase
  have hclosed := isClosed_of_reaches names hname hpath hne hcast (ne_nil_of_reachedOwner hderived)
  obtain ⟨segments, hsegments, haddress⟩ := hpath
  -- the segments of the three paths
  obtain ⟨_, hnamed, haddress'⟩ := hcast
  obtain ⟨_, _, hfront, hbehind, rfl⟩ := (pathSegments_closed hclosed).mp hnamed
  cases hsegments.symm.trans hfront
  cases (segmentsBehind_name hname).symm.trans hbehind
  obtain ⟨_, hfollowed, haddress''⟩ := hfurther
  obtain ⟨_, _, hfront, hbehind, rfl⟩ := (pathSegments_closed hclosed).mp hfollowed
  cases hsegments.symm.trans hfront
  cases hsegment.symm.trans hbehind
  cases segments with
  | nil =>
    obtain rfl := Resolution.gives_pure.mp haddress
    exact absurd rfl hne
  | cons first segments =>
    have hresource := gives_addressOf_iff haddress hne
    obtain ⟨resources, rfl, hresources⟩ := (hresource _).mp haddress
    obtain ⟨resources', rfl, hresources'⟩ := (hresource _).mp haddress'
    obtain ⟨resources'', rfl, hresources''⟩ := (hresource _).mp haddress''
    obtain ⟨earlier, last, narrowed, next, behind, rfl, rfl, rfl, hnarrowed⟩ :=
      resourcePath_narrowed names hresources hresources' hlength hbase hderived hides has hresources''
    refine ⟨earlier, last, narrowed, next, behind, rfl, rfl, rfl,
      first :: (segments ++ name.text :: text :: others), ?_, (hresource _).mpr ⟨_, rfl, hnarrowed⟩⟩
    exact (pathSegments_closed (hclosed.behind hname)).mpr ⟨_, _, hnamed, hsegment, by simp⟩

end Paths

/-! ### Requests -/

/-- Options are read against what stands behind two resources, if that is not a number, a reference or
a value. -/
theorem Address.target?_behind {next : Resource} (haspect : isAspect next = false)
    (front front' behind : List Resource) :
    (Address.resource (front ++ next :: behind)).target? =
      (Address.resource (front' ++ next :: behind)).target? := by
  simp only [target?, List.reverse_append, List.reverse_cons, List.find?_append, List.find?_cons,
    haspect]
  cases behind.reverse.find? (!isAspect ·) <;> rfl

namespace Request

variable {s : Source} {answers : Answers} {config : Config} {path : String}
variable {query fragment : Option String} {r : Request}

theorem reaches_of_gives_read (h : (read config path query fragment).Gives answers r) :
    ∃ parts, QueryParts.ofQuery config (query.getD "") = .ok parts ∧
      r.aliases = ascendingByName parts.aliases ∧ Reaches answers r.aliases path r.address := by
  obtain ⟨items, segments, hitems, hdistinct, hsegments, haddress, -, -, -, -, haliases⟩ :=
    gives_read.mp h
  exact ⟨_, QueryParts.ofQuery_eq_ok.mpr ⟨items, hitems, hdistinct, rfl⟩, haliases, segments, hsegments,
    haddress⟩

/-- A request is accepted with another path to resources, too, if it has no options or they are read
against the same type. -/
theorem gives_read_reaches {path' : String} {resources resources' : List Resource}
    (h : (read config path query fragment).Gives answers r) (haddress : r.address = .resource resources)
    (hreaches : Reaches answers r.aliases path' (.resource resources'))
    (htarget : r.options = [] ∨
      (Address.resource resources').target? = (Address.resource resources).target?) :
    (read config path' query fragment).Gives answers { r with address := .resource resources' } := by
  obtain ⟨items, _, hitems, hdistinct, -, -, hoptions, -, hothers⟩ := gives_read.mp h
  obtain ⟨segments, hsegments, haddress'⟩ := hreaches
  refine gives_read.mpr ⟨items, segments, hitems, hdistinct, hsegments, haddress', ?_, rfl, hothers⟩
  rcases htarget with hnone | htarget
  · rw [hnone] at hoptions ⊢
    generalize (QueryParts.ofItems items).system = given at hoptions ⊢
    cases hoptions
    exact .nil
  · have hscope : (Address.resource resources').scope r.aliases = r.address.scope r.aliases := by
      rw [haddress, Address.scope, Address.scope, htarget]
      rfl
    exact hscope ▸ hoptions

/-- Casting to a derived type hides nothing, whatever the directories have been asked before. Let a path
lead to a type, and the same path with a name behind it lead to a derived type, by a cast of the last
resource, such that no type between the two declares a property whose name is found already. If the path
goes on with a property that is found on the type, or with a number, a reference or a value, it may go on
in the same way behind the name, to the same resources. The options that it has are accepted again if
they are not for the resource that is cast. -/
theorem read_narrowed (names : s.WellNamed) (config : Config) (query fragment : Option String)
    (calls : String → List DirectoryCall) (path : String) (name : QualifiedName) (segment : String) :
    let answer path :=
      ((read config path query fragment).runOn (DirectoryCall.after (calls path) (.ofSource s))).1
    ∀ r r' r'' base derived text others, answer path = .ok r →
      answer (path ++ "/" ++ name.text) = .ok r' → r'.address.path.length = r.address.path.length →
      reachedOwner r.address.path = some base → reachedOwner r'.address.path = some derived →
      derived.HidesNothing base → segmentsBehind segment = .ok (text :: others) →
      base.HasSegment text → answer (path ++ "/" ++ segment) = .ok r'' →
        ∃ earlier last narrowed next behind, r.address = .resource (earlier ++ [last]) ∧
          r'.address = .resource (earlier ++ [narrowed]) ∧
          r''.address = .resource (earlier ++ last :: next :: behind) ∧
          (r''.options = [] ∨ Address.isAspect next = false →
            answer (path ++ "/" ++ name.text ++ "/" ++ segment) =
              .ok { r'' with address := .resource (earlier ++ narrowed :: next :: behind) }) := by
  intro answer r r' r'' base derived text others h h' hlength hbase hderived hides hsegment has h''
  have hgives : ∀ {path r}, answer path = .ok r → (read config path query fragment).Gives s.answers r :=
    fun {path} {_} h => Resolution.gives_answers_of_runOn names
      (DirectoryCall.after_consistent names (calls path) (.ofSource s)) h
  obtain ⟨parts, hparts, haliases, hreaches⟩ := reaches_of_gives_read (hgives h'')
  obtain ⟨parts', hparts', haliases', hreaches'⟩ := reaches_of_gives_read (hgives h)
  cases hparts.symm.trans hparts'
  obtain ⟨parts', hparts', haliases'', hreaches''⟩ := reaches_of_gives_read (hgives h')
  cases hparts.symm.trans hparts'
  rw [haliases', ← haliases] at hreaches'
  rw [haliases'', ← haliases] at hreaches''
  obtain ⟨earlier, last, narrowed, next, behind, haddress, haddress', haddress'', hnarrowed⟩ :=
    reaches_narrowed names hreaches' hreaches'' hlength hbase hderived hides hsegment has hreaches
  refine ⟨earlier, last, narrowed, next, behind, haddress, haddress', haddress'', fun hoptions => ?_⟩
  refine Resolution.runOn_of_gives_answers names
    (gives_read_reaches (hgives h'') haddress'' hnarrowed (hoptions.imp_right fun haspect => ?_))
    (DirectoryCall.after_consistent names (calls _) (.ofSource s))
  simpa using Address.target?_behind haspect (earlier ++ [narrowed]) (earlier ++ [last]) behind

section Music

/-- A path to a track. -/
private def trackPath : String := "Albums('A')/Tracks(3)"
private def liveTrack : QualifiedName := ⟨⟨⟨"Music", rfl⟩, []⟩, ⟨"Live", rfl⟩⟩

private def answered (path : String) : Except RequestError Request :=
  ((read .standard path none none).runOn (.ofSource music)).1

/-- Two accepted requests for as many resources, the types that they lead to, and whether the second type
hides nothing of the first. -/
private def castBetween? (answer answer' : Except RequestError Request) :
    Option (Request × Request × StructuredType × StructuredType) := do
  let r ← answer.toOption
  let r' ← answer'.toOption
  let base ← reachedOwner r.address.path
  let derived ← reachedOwner r'.address.path
  if r'.address.path.length = r.address.path.length ∧ derived.HidesNothing base then
    some (r, r', base, derived)
  else none

/-- A live track has a title as well, and it still has its number. -/
theorem read_narrowed_music :
    ∃ r r' r'' base derived earlier last narrowed next behind, answered trackPath = .ok r ∧
      answered (trackPath ++ "/" ++ liveTrack.text) = .ok r' ∧
      reachedOwner r.address.path = some base ∧ reachedOwner r'.address.path = some derived ∧
      derived.HidesNothing base ∧ base.HasSegment "Number" ∧
      answered (trackPath ++ "/" ++ "Number") = .ok r'' ∧
      r.address = .resource (earlier ++ [last]) ∧ r'.address = .resource (earlier ++ [narrowed]) ∧
      r''.address = .resource (earlier ++ last :: next :: behind) ∧
      answered (trackPath ++ "/" ++ liveTrack.text ++ "/" ++ "Number") =
        .ok { r'' with address := .resource (earlier ++ narrowed :: next :: behind) } := by
  have names : music.WellNamed := ⟨by decide, by decide⟩
  have hcast : (castBetween? (answered trackPath)
      (answered (trackPath ++ "/" ++ liveTrack.text))).map (fun cast => cast.2.2.1.finds "Number") =
        some true := by
    decide +kernel
  have hnumber : (answered (trackPath ++ "/" ++ "Number")).toOption.map (fun r => r.options.isEmpty) =
      some true := by
    decide +kernel
  obtain ⟨⟨r, r', base, derived⟩, hbetween, hfinds⟩ := Option.map_eq_some_iff.mp hcast
  simp only [castBetween?, Option.bind_eq_bind, Option.bind_eq_some_iff] at hbetween
  obtain ⟨_, hr, _, hr', _, hbase, _, hderived, hif⟩ := hbetween
  obtain ⟨⟨hlength, hides⟩, heq⟩ := Option.ite_none_right_eq_some.mp hif
  cases heq
  rw [except_toOption_eq_some] at hr hr'
  obtain ⟨r'', hr'', hnone⟩ := Option.map_eq_some_iff.mp hnumber
  rw [except_toOption_eq_some] at hr''
  have has : base.HasSegment "Number" :=
    ⟨⟨.identifier, "Number", 0, false⟩, [⟨.endOfText, "", 6, false⟩], by decide +kernel,
      Or.inr ⟨rfl, hfinds⟩⟩
  have hsegment : segmentsBehind "Number" = .ok ["Number"] := by decide +kernel
  obtain ⟨earlier, last, narrowed, next, behind, hlast, hnarrowed, hnext, hread⟩ :=
    read_narrowed names .standard none none (fun _ => []) trackPath liveTrack "Number" r r' r'' base
      derived "Number" [] hr hr' hlength hbase hderived hides hsegment has hr''
  exact ⟨r, r', r'', base, derived, earlier, last, narrowed, next, behind, hr, hr', hbase, hderived,
    hides, has, hr'', hlast, hnarrowed, hnext, hread (Or.inl (List.isEmpty_iff.mp hnone))⟩

end Music

end Request

end ODataRequest
