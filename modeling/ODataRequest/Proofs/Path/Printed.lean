import ODataRequest.Proofs.CallHistory
import ODataRequest.Proofs.Path.Resolved
import ODataRequest.Proofs.Path.SegmentText
import ODataRequest.Proofs.Request.Reader
import ODataRequest.Proofs.Text.TopLevel

/-!
# ODataRequest.Proofs.Path.Printed

Resolved paths are read back from their texts. The texts of the resources with slashes between them,
with each percent sign as an escape, are a path that is accepted with the same resources
(`Request.read_printedPath`).

A resource may be the work of two segments, as a cast is a segment of its own but a part of the
resource in front of it. So the segments of the printed path are found along with the resources:
each segment that is followed adds one segment to the printed path, and both paths lead to the same
resources (`Printed.follow`).
-/

namespace ODataRequest

open TokenReader

variable {answers : Answers} {aliases : AliasTable} {path : List Resource}
variable {actual : QualifiedName → QualifiedName}

/-! ### Segments -/

/-- A text is one segment, and not the empty one behind a last slash. -/
structure IsSegment (text : String) : Prop where
  isPart : Text.IsPart '/' text.toList
  nonempty : text ≠ ""

namespace ReadsBehind

variable {α : Type} {a : α} {w : Word} {behind : String}
variable {R : (source : String) → (ts rest : List Token) → Prop}

/-- A word and the groups behind it are a segment. -/
theorem isSegment (h : ReadsBehind R behind) (hw : w.Portable) (hslash : '/' ∉ w.text.toList) :
    IsSegment (w.text ++ behind) where
  isPart := by
    obtain ⟨tail, hgroups, htext, -⟩ := h
    rw [String.toList_append, ← htext]
    exact (hw.calm.isPart_of_not_mem hslash).append (hgroups.isPart '/')
  nonempty := by
    obtain ⟨c, cs, hchars, -⟩ := hw.stands [] Lexeme.bounded_nil
    intro hempty
    have htext := congrArg String.toList hempty
    rw [String.toList_append, hchars] at htext
    cases htext

/-- A whole segment is read if it can be read behind its word. -/
theorem gives_readAll {x : TokenReader α} (hw : w.Portable)
    (h : ReadsBehind (fun source ts rest =>
      ∀ t, t.word = w → Reads answers x source (t :: ts) a rest) behind) :
    (readAll x (w.text ++ behind)).Gives answers a := by
  obtain ⟨tail, hgroups, htext, hreads⟩ := h
  have hlexed : Lexed (⟨w, false⟩ :: tail) [] := by
    exact ⟨hw.stands _ (hgroups.bounded Lexeme.bounded_nil), hgroups.lexed []⟩
  obtain ⟨ts, last, htokens, hpieces, hlast, -⟩ := tokenize_spelled hlexed
  obtain ⟨t, us, rfl, hkind, hword, -, hus⟩ := exists_of_map_piece_cons hpieces
  have hsource : String.ofList (spelled (⟨w, false⟩ :: tail)) = w.text ++ behind := by
    rw [spelled_cons, htext, chars_unspaced, ← String.toList_append, String.ofList_toList]
  rw [hsource] at htokens
  have ht : t.word = w := by
    rw [Token.word, hkind, hword]
  exact TokenReader.gives_readAll.mpr
    ⟨_, [last], htokens, hreads _ us [last] hus (by simp [hlast]) t ht, by simpa using hlast⟩

end ReadsBehind

/-! ### Texts of paths -/

/-- The texts of resources with slashes between them. -/
def Resource.joinedText (path : List Resource) : String :=
  "/".intercalate (Resource.texts path)

theorem Resource.texts_append (rs rs' : List Resource) :
    Resource.texts (rs ++ rs') = Resource.texts rs ++ Resource.texts rs' := by
  induction rs with
  | nil => rfl
  | cons r rs ih => simp [Resource.texts, ih]

theorem intercalate_concat {texts : List String} (hne : texts ≠ []) (last : String) :
    "/".intercalate (texts ++ [last]) = "/".intercalate texts ++ "/" ++ last := by
  rw [String.intercalate_append_of_ne_nil hne (List.cons_ne_nil _ _), String.intercalate_singleton]

/-- What is behind the last text is behind all of them. -/
theorem intercalate_concat_append (texts : List String) (last behind : String) :
    "/".intercalate (texts ++ [last ++ behind]) = "/".intercalate (texts ++ [last]) ++ behind := by
  by_cases hne : texts = []
  · subst hne
    simp
  · rw [intercalate_concat hne, intercalate_concat hne, String.append_assoc, String.append_assoc,
      String.append_assoc]

/-- Segments that are together the texts of resources. -/
structure Spells (first : String) (others : List String) (path : List Resource) : Prop where
  parts : ∀ segment ∈ first :: others, Text.IsPart '/' segment.toList
  text : "/".intercalate (first :: others) = Resource.joinedText path

variable {last : Resource} {earlier : List Resource} {first segment : String} {others : List String}

namespace Spells

theorem single {r : Resource} (h : Text.IsPart '/' first.toList) (htext : r.text = first) :
    Spells first [] [r] where
  parts := by simpa using h
  text := by simp [Resource.joinedText, Resource.texts, htext]

/-- One more segment. -/
theorem concat (h : Spells first others (last :: earlier).reverse) (hsegment : IsSegment segment)
    {effect : SegmentEffect} (hadds : effect.Adds last segment) :
    match effect with
    | .narrow last' => Spells first (others ++ [segment]) (last' :: earlier).reverse
    | .add next => Spells first (others ++ [segment]) (next :: last :: earlier).reverse := by
  have hparts : ∀ s ∈ first :: (others ++ [segment]), Text.IsPart '/' s.toList := by
    rw [← List.cons_append]
    intro s hs
    rcases List.mem_append.mp hs with hs | hs
    · exact h.parts s hs
    · rw [List.mem_singleton.mp hs]
      exact hsegment.isPart
  have htext : "/".intercalate (first :: (others ++ [segment])) =
      "/".intercalate (Resource.texts (last :: earlier).reverse) ++ "/" ++ segment := by
    rw [← List.cons_append, intercalate_concat (List.cons_ne_nil _ _), h.text, Resource.joinedText]
  cases effect with
  | narrow last' =>
    have hlast : last'.text = last.text ++ ("/" ++ segment) := by
      rw [← String.append_assoc]
      exact hadds
    refine ⟨hparts, ?_⟩
    rw [htext, Resource.joinedText]
    simp only [List.reverse_cons, Resource.texts_append, Resource.texts]
    rw [hlast, intercalate_concat_append, String.append_assoc]
  | add next =>
    have hnext : next.text = segment := hadds
    have hne : Resource.texts (last :: earlier).reverse ≠ [] := by
      simp [Resource.texts_append, Resource.texts]
    have htexts : Resource.texts (next :: last :: earlier).reverse =
        Resource.texts (last :: earlier).reverse ++ [segment] := by
      rw [List.reverse_cons, Resource.texts_append, Resource.texts, Resource.texts, hnext]
    exact ⟨hparts, by rw [htext, Resource.joinedText, htexts, intercalate_concat hne]⟩

end Spells

/-! ### Following the segments -/

/-- The segments that are printed for the resources so far: they lead to these resources, whatever
follows. -/
structure Printed (answers : Answers) (aliases : AliasTable) (last : Resource)
    (earlier : List Resource) (first : String) (others : List String) : Prop where
  spells : Spells first others (last :: earlier).reverse
  leads : ∀ segments path, (followSegments aliases last earlier segments).Gives answers path →
    (resourcePath aliases first (others ++ segments)).Gives answers path

namespace Printed

theorem start {r : Resource} (hfirst : Text.IsPart '/' first.toList) (htext : r.text = first)
    (h : (readAll (firstSegment aliases) first).Gives answers r) :
    Printed answers aliases r [] first [] where
  spells := .single hfirst htext
  leads _ _ hpath := Resolution.gives_bind.mpr ⟨r, h, hpath⟩

/-- One more segment. -/
theorem concat (h : Printed answers aliases last earlier first others)
    (hsegment : IsSegment segment) {effect : SegmentEffect} (hadds : effect.Adds last segment)
    (hgives : (readAll (nextSegment aliases last) segment).Gives answers effect) :
    match effect with
    | .narrow last' => Printed answers aliases last' earlier first (others ++ [segment])
    | .add next => Printed answers aliases next (last :: earlier) first (others ++ [segment]) := by
  have hspells := h.spells.concat hsegment hadds
  have hempty : segment.isEmpty = false := String.isEmpty_eq_false_iff.mpr hsegment.nonempty
  cases effect with
  | narrow last' =>
    refine ⟨hspells, fun segments path hpath => ?_⟩
    rw [List.append_assoc, List.singleton_append]
    refine h.leads _ _ ?_
    rw [followSegments, hempty]
    exact Resolution.gives_bind.mpr ⟨_, hgives, hpath⟩
  | add next =>
    refine ⟨hspells, fun segments path hpath => ?_⟩
    rw [List.append_assoc, List.singleton_append]
    refine h.leads _ _ ?_
    rw [followSegments, hempty]
    exact Resolution.gives_bind.mpr ⟨_, hgives, hpath⟩

/-- Segments that are followed are printed, and what is printed leads where they lead. -/
theorem follow (named : answers.NamedBy actual) (tell : answers.TellPlainKeys)
    (h : Printed answers aliases last earlier first others) (hsound : last.Sound)
    {segments : List String}
    (hpath : (followSegments aliases last earlier segments).Gives answers path) :
    ∃ others', Spells first others' path ∧
      (resourcePath aliases first others').Gives answers path := by
  -- by induction on the segments; what has been printed so far is the invariant
  induction segments generalizing last earlier others with
  | nil =>
    have hleads := h.leads [] path hpath
    rw [List.append_nil] at hleads
    cases Resolution.gives_pure.mp hpath
    exact ⟨others, h.spells, hleads⟩
  | cons segment segments ih =>
    rw [followSegments] at hpath
    split at hpath
    · have hleads := h.leads [] path hpath
      rw [List.append_nil] at hleads
      cases Resolution.gives_pure.mp hpath
      exact ⟨others, h.spells, hleads⟩
    · obtain ⟨effect, heffect, hpath⟩ := Resolution.gives_bind.mp hpath
      obtain ⟨tokens, rest, htokens, hreads, -⟩ := gives_readAll.mp heffect
      have hfollows := nextSegment_follows hsound hreads
      obtain ⟨w, behind, hw, hslash, hadds, hbehind⟩ :=
        nextSegment_rewritten named tell (portable_of_tokenize htokens) hsound hreads
      have hnext := h.concat (hbehind.isSegment hw hslash) hadds (hbehind.gives_readAll hw)
      cases effect with
      | narrow last' => exact ih hnext hfollows.2 hpath
      | add next => exact ih hnext hfollows.2.2.2 hpath

end Printed

/-- A resolved path is printed with a name in front, and what is printed leads to the same
resources. -/
theorem exists_spells (named : answers.NamedBy actual) (tell : answers.TellPlainKeys)
    {segments : List String} (h : (resourcePath aliases first segments).Gives answers path) :
    ∃ first' others, (∃ c cs, first'.toList = c :: cs ∧ isIdentifierStart c = true) ∧
      Spells first' others path ∧ (resourcePath aliases first' others).Gives answers path := by
  obtain ⟨r, hfirst, hpath⟩ := Resolution.gives_bind.mp h
  obtain ⟨tokens, rest, htokens, hreads, -⟩ := gives_readAll.mp hfirst
  obtain ⟨-, hsound⟩ := firstSegment_starts hreads
  obtain ⟨name, behind, hname, htext, hbehind⟩ :=
    firstSegment_rewritten named tell (portable_of_tokenize htokens) hreads
  obtain ⟨c, cs, hchars, hc⟩ := hname.dotted.start
  have hpart := (hbehind.isSegment hname.portable hname.slash_not_mem).isPart
  have hread := hbehind.gives_readAll hname.portable
  have hprinted : Printed answers aliases r [] (name ++ behind) [] := .start hpart htext hread
  obtain ⟨others, hspells, hleads⟩ := hprinted.follow named tell hsound hpath
  refine ⟨name ++ behind, others, ⟨c, cs ++ behind.toList, ?_, hc⟩, hspells, hleads⟩
  rw [String.toList_append, hchars, List.cons_append]

/-! ### Requests -/

/-- The path that resources are printed as. -/
def printedPath (path : List Resource) : String :=
  String.ofList (Text.escapePercents (Resource.joinedText path).toList)

theorem mapM_decoded_escapePercents (segments : List String) :
    (segments.map fun segment => Text.escapePercents segment.toList).mapM
      (fun cs => decoded (String.ofList cs)) = .ok segments := by
  induction segments with
  | nil => rfl
  | cons segment segments ih =>
    have hsegment : decoded (String.ofList (Text.escapePercents segment.toList)) = .ok segment := by
      unfold decoded
      rw [Text.percentDecode?_escapePercents, String.ofList_toList]
    rw [List.map_cons, List.mapM_cons, hsegment, ih]
    rfl

/-- The printed path is split into the segments that it has been printed with. -/
theorem pathSegments_printedPath (h : Spells first others path) {c : Char} {cs : List Char}
    (hfirst : first.toList = c :: cs) (hc : isIdentifierStart c = true) :
    pathSegments (printedPath path) = .ok (first :: others) := by
  have hslash : c ≠ '/' := by
    rintro rfl
    exact absurd hc (by decide)
  have hpercent : c ≠ '%' := by
    rintro rfl
    exact absurd hc (by decide)
  have hsign : "/".toList = ['/'] := by decide
  have hjoined : (Resource.joinedText path).toList =
      Text.joined '/' ((first :: others).map String.toList) := by
    rw [← h.text, Text.toList_intercalate hsign]
  have hsplit : Text.splitTopLevel '/' (Text.joined '/' ((first :: others).map String.toList)) =
      (first :: others).map String.toList := by
    refine Text.splitTopLevel_joined (by decide) ?_ (by simp)
    rintro part hpart
    obtain ⟨segment, hsegment, rfl⟩ := List.mem_map.mp hpart
    exact h.parts segment hsegment
  have hdrop : (Text.escapePercents (Resource.joinedText path).toList).dropWhile (· == '/') =
      Text.escapePercents (Resource.joinedText path).toList := by
    have hchars : ∃ ds, (Resource.joinedText path).toList = c :: ds := by
      rw [hjoined, List.map_cons, hfirst]
      cases others <;> exact ⟨_, rfl⟩
    obtain ⟨ds, hchars⟩ := hchars
    rw [hchars, Text.escapePercents_cons, if_neg hpercent, List.singleton_append,
      List.dropWhile_cons_of_neg (by simpa using hslash)]
  unfold pathSegments printedPath
  rw [String.toList_ofList, hdrop, Text.splitTopLevel, Text.splitFrom_escapePercents (by decide),
    ← Text.splitTopLevel, hjoined, hsplit, List.map_map]
  exact mapM_decoded_escapePercents (first :: others)

/-- Every accepted path to a resource is accepted as it is printed, with the same resources: the
texts of the resources with slashes between them, with each percent sign as an escape. The request
is the same in everything else as well, and the directory may have been asked anything before. -/
theorem Request.read_printedPath {s : Source} (names : s.WellNamed) (plain : s.PlainKeys)
    {config : Config} {text : String} {query fragment : Option String}
    {calls calls' : List DirectoryCall} {r : Request}
    (h : ((Request.read config text query fragment).runOn
      (DirectoryCall.after calls (.ofSource s))).1 = .ok r)
    (hpath : r.address = .resource path) :
    ((Request.read config (printedPath path) query fragment).runOn
      (DirectoryCall.after calls' (.ofSource s))).1 = .ok r := by
  have hgives := Resolution.gives_answers_of_runOn names
    (DirectoryCall.after_consistent names calls (.ofSource s)) h
  obtain ⟨items, segments, hitems, hdistinct, -, haddress, hothers⟩ :=
    Request.gives_read.mp hgives
  rw [hpath] at haddress
  obtain ⟨start, rest, hresolved⟩ := gives_addressOf haddress
  obtain ⟨first, others, ⟨c, cs, hfirst, hc⟩, hspells, hleads⟩ :=
    exists_spells (answers_namedBy names) (answers_tellPlainKeys plain) hresolved
  refine Resolution.runOn_of_gives_answers names (Request.gives_read.mpr ⟨items, first :: others,
    hitems, hdistinct, pathSegments_printedPath hspells hfirst hc, ?_, hothers⟩)
    (DirectoryCall.after_consistent names calls' (.ofSource s))
  rw [hpath, addressOf_identifier hfirst hc]
  exact Resolution.gives_bind.mpr ⟨path, hleads, Resolution.gives_pure.mpr rfl⟩

section Music

/-- A path to the title of a live track, with keys that name their properties. -/
def namedKeysPath : String :=
  "/Albums(Title='50%25')/Tracks/Music.Live(Number=3)/Title/$value"

/-- The path that a request for resources is printed with when it is accepted. -/
def acceptedPrint (answer : Except RequestError Request) : String :=
  match answer with
  | .ok r => printedPath r.address.path
  | .error _ => ""

theorem exists_of_acceptedPrint {answer : Except RequestError Request} {text : String}
    (h : acceptedPrint answer = text) (hne : text ≠ "") :
    ∃ r path, answer = .ok r ∧ r.address = .resource path ∧ printedPath path = text := by
  have hnil : printedPath [] = "" := by decide
  cases answer with
  | error e => exact absurd h.symm hne
  | ok r =>
    obtain ⟨address, fragment, options, customOptions, aliases⟩ := r
    cases address with
    | resource path => exact ⟨_, path, rfl, rfl, h⟩
    | _ => exact absurd (h.symm.trans hnil) hne

/-- The path to the title of a live track is read again as it is printed. The values of the keys
lose the names of their properties, and the percent sign is an escape again. -/
theorem read_printedPath_music :
    ∃ r path, ((Request.read .standard namedKeysPath none none).runOn (.ofSource music)).1 = .ok r ∧
      r.address = .resource path ∧
      printedPath path = "Albums('50%25')/Tracks/Music.Live(3)/Title/$value" ∧
      ((Request.read .standard (printedPath path) none none).runOn (.ofSource music)).1 =
        .ok r := by
  have hprint : acceptedPrint
      ((Request.read .standard namedKeysPath none none).runOn (.ofSource music)).1 =
      "Albums('50%25')/Tracks/Music.Live(3)/Title/$value" := by decide +kernel
  obtain ⟨r, path, hread, haddress, htext⟩ := exists_of_acceptedPrint hprint (by decide)
  have names : music.WellNamed := ⟨by decide, by decide⟩
  have plain : music.PlainKeys := ⟨by decide, by decide⟩
  have hcalls : DirectoryCall.after [] (.ofSource music) = .ofSource music := rfl
  refine ⟨r, path, hread, haddress, htext, ?_⟩
  rw [← hcalls] at hread ⊢
  exact Request.read_printedPath names plain hread haddress

end Music

end ODataRequest
