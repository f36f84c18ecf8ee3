import ODataRequest.Proofs.Path.Resolved
import ODataRequest.Proofs.Query.OptionNames
import ODataRequest.Proofs.Request.Reader

/-!
# ODataRequest.Proofs.Request.OptionNames

Other names of options are only other spellings (`Request.read_optionNames`). Whether names may be
written in any case and whether their dollar signs may be left out are two settings. A request in
which names of options are written in the usual way is the same request. And a request that is
accepted without the first setting is accepted with it, as the same request; only if dollar signs
may be left out as well, the names of more options become those of system query options.

A query is cut into its parts before anything else happens, and what comes then does not see how
names have been spelled (`Request.readParts`), apart from those inside of expansions.
-/

namespace ODataRequest

variable {config : Config} {path : String} {query fragment : Option String} {r : Request}
variable {d after : Directory}

/-- No option of some other kind has a name that stands for a system query option. -/
theorem optionKind?_of_custom {pair : List Char} {item : QueryItem} {option : String × String}
    (h : QueryItem.ofPair config pair = .ok item) (hcustom : item.custom? = some option) :
    optionKind? config option.1 = .ok none := by
  unfold QueryItem.ofPair at h
  obtain ⟨name, -, h⟩ := except_bind_eq_ok.mp h
  obtain ⟨text, -, h⟩ := except_bind_eq_ok.mp h
  unfold QueryItem.ofName at h
  split at h
  · cases h
    cases hcustom
  · obtain ⟨kind?, hkind, h⟩ := except_bind_eq_ok.mp h
    split at h
    · cases h
      cases hcustom
      exact hkind
    · cases h
    · cases h
      cases hcustom

namespace Request

/-- Read a request whose query has been cut into its parts. -/
def readParts (config : Config) (path : String) (fragment : Option String) (parts : QueryParts) :
    Resolution Request := do
  let aliases := ascendingByName parts.aliases
  let segments ← Resolution.ofGrammar (pathSegments path)
  let address ← addressOf aliases segments
  let options ← parts.system.mapM (systemOption config (address.scope aliases))
  Resolution.ofGrammar (requireId address options)
  return { address, fragment, options, customOptions := parts.custom, aliases }

theorem runOn_read_eq_ok : (read config path query fragment).runOn d = (.ok r, after) ↔
    ∃ parts, QueryParts.ofQuery config (query.getD "") = .ok parts ∧
      (readParts config path fragment parts).runOn d = (.ok r, after) := by
  have hread : read config path query fragment =
      Resolution.ofGrammar (QueryParts.ofQuery config (query.getD "")) >>=
        readParts config path fragment := rfl
  rw [hread]
  cases QueryParts.ofQuery config (query.getD "") with
  | error e =>
    constructor
    · intro h
      cases h
    · rintro ⟨parts, hparts, -⟩
      cases hparts
  | ok parts =>
    constructor
    · exact fun h => ⟨parts, rfl, h⟩
    · rintro ⟨_, hparts, h⟩
      cases hparts
      exact h

theorem customOptions_of_readParts {parts : QueryParts}
    (h : (readParts config path fragment parts).runOn d = (.ok r, after)) :
    r.customOptions = parts.custom := by
  have hgives := Resolution.gives_of_runOn (congrArg Prod.fst h)
  simp only [readParts, Resolution.gives_bind, Resolution.gives_pure] at hgives
  obtain ⟨-, -, -, -, -, -, -, -, rfl⟩ := hgives
  rfl

theorem readParts_refines {tolerated : RequestError → Prop} (any : ∀ e, tolerated e)
    (parts : QueryParts) :
    (readParts { config with ignoringCase := false } path fragment parts).Refines tolerated
      (readParts { config with ignoringCase := true } path fragment parts) := by
  refine .after _ fun segments => .after _ fun address => ?_
  refine Resolution.Refines.andThen (.mapM (fun option => ?_) _) _
  exact (optionValue_refines any _ _ _ _).andThen _

/-- What is accepted is accepted as the same request if names are taken in any case, unless options
have changed their kind. -/
theorem read_anyCase
    (h : (read { config with ignoringCase := false } path query fragment).runOn d = (.ok r, after)) :
    (read { config with ignoringCase := true } path query fragment).runOn d = (.ok r, after) ↔
      (config.dollarOptional = true →
        ∀ option ∈ r.customOptions, OptionKind.ofName? true ("$" ++ option.1) = none) := by
  constructor
  · intro hany hoptional option hmem
    obtain ⟨items, -, hitems, -, -, -, -, -, -, hcustom, -⟩ :=
      gives_read.mp (Resolution.gives_of_runOn (congrArg Prod.fst hany))
    rw [hcustom] at hmem
    obtain ⟨item, hitem, hoption⟩ := List.mem_filterMap.mp hmem
    obtain ⟨pair, -, hpair⟩ := exists_left_of_forall₂ hitems hitem
    exact (optionKind?_eq_ok_none.mp (optionKind?_of_custom hpair hoption)).2 hoptional
  · intro hcustom
    obtain ⟨parts, hparts, hread⟩ := runOn_read_eq_ok.mp h
    rw [customOptions_of_readParts hread] at hcustom
    refine runOn_read_eq_ok.mpr ⟨parts, ofQuery_anyCase hparts hcustom, ?_⟩
    have any : RequestError → True := fun _ => trivial
    exact (readParts_refines any parts).runOn_ok hread

/-- A request with the usual names of its options is accepted if and only if this one is, as the same
request. -/
theorem read_canonicalQuery (query : Option String) :
    (read config path (query.map (canonicalQuery config)) fragment).runOn d = (.ok r, after) ↔
      (read config path query fragment).runOn d = (.ok r, after) := by
  cases query with
  | none => rfl
  | some query =>
    simp only [runOn_read_eq_ok, Option.map_some, Option.getD_some, ofQuery_canonicalQuery]

/-- Names of options that are recognized are spellings. A request that is accepted is accepted as the
same one if names are taken in any case, as long as no option of some other kind gets the name of a
system query option by that; this can only happen where dollar signs may be left out. And whatever
names are recognized, those of system query options may be written in the usual way: this changes
neither whether a request is accepted nor what it is. The directory is asked the same each time. -/
theorem read_optionNames (config : Config) (path : String) (query fragment : Option String)
    (d : Directory) :
    (∀ r after, (read { config with ignoringCase := false } path query fragment).runOn d =
        (.ok r, after) →
      ((read { config with ignoringCase := true } path query fragment).runOn d = (.ok r, after) ↔
        (config.dollarOptional = true →
          ∀ option ∈ r.customOptions, OptionKind.ofName? true ("$" ++ option.1) = none))) ∧
    ∀ r after, (read config path (query.map (canonicalQuery config)) fragment).runOn d =
        (.ok r, after) ↔ (read config path query fragment).runOn d = (.ok r, after) :=
  ⟨fun _ _ h => read_anyCase h, fun _ _ => read_canonicalQuery query⟩

section Spellings

/-- Dollar signs may be left out. -/
private def withoutDollars : Config :=
  { Config.standard with dollarOptional := true }

/-- The options of some other kind that a request is accepted with. -/
private def acceptedCustom? (answer : Except RequestError Request) :
    Option (List (String × String)) :=
  match answer with
  | .ok r => some r.customOptions
  | .error _ => none

/-- An option that is no system query option and stays none, next to one without its dollar sign. -/
theorem read_optionNames_albums :
    canonicalQuery withoutDollars "top=1&Note=x" = "$top=1&Note=x" ∧
    ∃ r after,
      (read { withoutDollars with ignoringCase := false } "Albums" (some "top=1&Note=x") none).runOn
        (.ofSource music) = (.ok r, after) ∧
      (read { withoutDollars with ignoringCase := true } "Albums" (some "top=1&Note=x") none).runOn
        (.ofSource music) = (.ok r, after) ∧
      (read withoutDollars "Albums" (some "$top=1&Note=x") none).runOn (.ofSource music) =
        (.ok r, after) := by
  have hcanonical : canonicalQuery withoutDollars "top=1&Note=x" = "$top=1&Note=x" := by
    decide +kernel
  have haccepted : acceptedCustom? ((read withoutDollars "Albums" (some "top=1&Note=x") none).runOn
      (.ofSource music)).1 = some [("Note", "x")] := by
    decide +kernel
  rcases hread : (read withoutDollars "Albums" (some "top=1&Note=x") none).runOn
    (.ofSource music) with ⟨e | r, after⟩ <;> rw [hread] at haccepted
  · cases haccepted
  · have hcustom : r.customOptions = [("Note", "x")] := Option.some.inj haccepted
    obtain ⟨hany, husual⟩ := read_optionNames withoutDollars "Albums" (some "top=1&Note=x") none
      (.ofSource music)
    refine ⟨hcanonical, r, after, hread, (hany r after hread).mpr fun _ => ?_, ?_⟩
    · rw [hcustom]
      decide
    · have hsame := (husual r after).mpr hread
      rwa [Option.map_some, hcanonical] at hsame

/-- An option of some other kind becomes a system query option, with a value that this one cannot
have, as soon as names are taken in any case. -/
theorem read_anyCase_refused :
    (∃ r, ((read { withoutDollars with ignoringCase := false } "Albums" (some "TOP=x") none).runOn
      (.ofSource music)).1 = .ok r) ∧
    ∀ r, ((read { withoutDollars with ignoringCase := true } "Albums" (some "TOP=x") none).runOn
      (.ofSource music)).1 ≠ .ok r := by
  have haccepted : acceptedCustom? ((read { withoutDollars with ignoringCase := false } "Albums"
      (some "TOP=x") none).runOn (.ofSource music)).1 = some [("TOP", "x")] := by
    decide +kernel
  have hrefused : acceptedCustom? ((read { withoutDollars with ignoringCase := true } "Albums"
      (some "TOP=x") none).runOn (.ofSource music)).1 = none := by
    decide +kernel
  constructor
  · cases hread : ((read { withoutDollars with ignoringCase := false } "Albums" (some "TOP=x")
      none).runOn (.ofSource music)).1 with
    | error e =>
      rw [hread] at haccepted
      cases haccepted
    | ok r => exact ⟨r, rfl⟩
  · intro r hread
    rw [hread] at hrefused
    cases hrefused

end Spellings

end Request

end ODataRequest
