import ODataRequest.Proofs.Outcome
import ODataRequest.Proofs.Path.SegmentText
import ODataRequest.Proofs.Query.OptionNames
import ODataRequest.Proofs.Query.OptionText
import ODataRequest.Proofs.Request.Reader

/-!
# ODataRequest.Proofs.Query.Nested

Options inside an expanded item mean what they mean alone. The item of a navigation property is
written with its options in parentheses and semicolons between them (`Expanded.text`).

Items are cut apart at commas and options at semicolons before anything in them is read. Cutting
gives back what has been written, since the accepted text of an option is enclosed, whatever texts
and parentheses it has in it. Then each option is read as if it stood alone, against the type that
the property leads to, and the items are read one by one (`systemOption_expand`).
-/

namespace ODataRequest

open Text Lexeme

variable {s : Source} {config : Config} {nested : OptionReader} {scope : Scope}

/-- Texts that are parts are cut apart again at the separators between them. -/
theorem topLevelParts_intercalate {separator : String} {sep : Char}
    (hseparator : separator.toList = [sep]) (hsep : separates sep .outermost sep = true)
    {texts : List String} (hne : texts ≠ []) (h : ∀ text ∈ texts, IsPart sep text.toList) :
    topLevelParts sep (separator.intercalate texts) = texts := by
  have hparts : ∀ part ∈ texts.map String.toList, IsPart sep part := by
    intro part hpart
    obtain ⟨text, htext, rfl⟩ := List.mem_map.mp hpart
    exact h text htext
  rw [topLevelParts, toList_intercalate hseparator,
    splitTopLevel_joined hsep hparts (by simpa using hne), List.map_map]
  exact List.map_id'' (fun text => String.ofList_toList) texts

/-! ### Written options -/

/-- An option of an item as it is written, with the name of its kind. -/
def givenText (given : OptionKind × String) : String :=
  given.1.name ++ "=" ++ given.2

theorem toList_givenText (given : OptionKind × String) :
    (givenText given).toList = given.1.name.toList ++ '=' :: given.2.toList := by
  simp [givenText, String.toList_append]

theorem givenText_ne_empty (given : OptionKind × String) : givenText given ≠ "" := by
  intro hempty
  have hchars := toList_givenText given
  rw [hempty] at hchars
  simp at hchars

theorem OptionKind.calm_name (kind : OptionKind) : Calm kind.name.toList := by
  cases kind <;> exact .of_all (by decide)

theorem cutAt?_givenText (given : OptionKind × String) :
    cutAt? '=' (givenText given).toList = some (given.1.name.toList, given.2.toList) := by
  have hname : '=' ∉ given.1.name.toList := by
    cases given.1 <;> decide
  rw [toList_givenText, cutAt?_append hname]

theorem enclosed_givenText {given : OptionKind × String} (h : Enclosed given.2.toList) :
    Enclosed (givenText given).toList := by
  have hsign : Calm ['='] := .of_all (by decide)
  rw [toList_givenText]
  exact .calm given.1.calm_name (.calm hsign h)

/-- The options between the parentheses of an item. -/
def optionsText (given : List (OptionKind × String)) : String :=
  ";".intercalate (given.map givenText)

theorem toList_optionsText (given : List (OptionKind × String)) :
    (optionsText given).toList = joined ';' (given.map fun g => (givenText g).toList) := by
  rw [optionsText, toList_intercalate rfl, List.map_map]
  rfl

/-- Written options are cut apart again; without any there is an empty part, which is left out. -/
theorem topLevelParts_optionsText {given : List (OptionKind × String)}
    (h : ∀ g ∈ given, Enclosed g.2.toList) :
    (topLevelParts ';' (optionsText given)).filter (· ≠ "") = given.map givenText := by
  by_cases hne : given = []
  · subst hne
    decide
  · have hparts : topLevelParts ';' (optionsText given) = given.map givenText := by
      refine topLevelParts_intercalate rfl (by decide) (by simpa using hne) fun text htext => ?_
      obtain ⟨g, hg, rfl⟩ := List.mem_map.mp htext
      exact (enclosed_givenText (h g hg)).isPart_semicolon
    rw [hparts, List.filter_eq_self]
    intro text htext
    obtain ⟨g, -, rfl⟩ := List.mem_map.mp htext
    exact decide_eq_true (givenText_ne_empty g)

/-! ### Reading options -/

theorem OptionKind.standsInItem_of_isSimple {kind : OptionKind} (h : kind.isSimple = true) :
    standsInItem kind = true := by
  cases kind <;> first | rfl | cases h

/-- An option of an item is read as its value is, if none of its kind is there yet. -/
theorem comesTo_itemOption {earlier : List SystemOption} {kind : OptionKind} {raw : String}
    {value : OptionValue} (hstands : standsInItem kind = true)
    (hnew : SystemOption.find? earlier kind = none)
    (hvalue : s.ComesTo (nested scope kind raw) value) :
    s.ComesTo (itemOption config nested scope earlier (givenText (kind, raw)))
      (earlier ++ [⟨raw, value⟩]) := by
  unfold itemOption
  simp only [cutAt?_givenText, String.ofList_toList, optionKind?_name]
  refine Source.ComesTo.bind (.done (some kind)) ?_
  simp only [hstands, hnew, Bool.not_true, Bool.false_eq_true, if_false, Option.isSome_none]
  exact hvalue.bind (.done _)

/-- An option that is given, and what it is read as. -/
structure ReadsAs (s : Source) (reader : OptionKind → String → Resolution OptionValue)
    (given : OptionKind × String) (o : SystemOption) : Prop where
  simple : given.1.isSimple = true
  kind : o.kind = given.1
  raw : o.raw = given.2
  value : s.ComesTo (reader given.1 given.2) o.value

/-- Options of distinct kinds are read one behind the other. -/
theorem comesTo_itemOptions {given : List (OptionKind × String)}
    {options earlier : List SystemOption}
    (h : List.Forall₂ (ReadsAs s (nested scope)) given options)
    (hdistinct : (earlier.map SystemOption.kind ++ given.map (·.1)).Nodup) :
    s.ComesTo ((given.map givenText).foldlM (itemOption config nested scope) earlier)
      (earlier ++ options) := by
  -- the options that have been read are the state
  induction h generalizing earlier with
  | nil =>
    rw [List.append_nil]
    exact .done earlier
  | @cons g o given options hg _ ih =>
    obtain ⟨raw, value⟩ := o
    obtain ⟨hsimple, hkind, rfl, hvalue⟩ := hg
    have hnew : SystemOption.find? earlier g.1 = none := by
      rw [SystemOption.find?, List.find?_eq_none]
      intro o ho
      rw [beq_iff_eq]
      rw [List.map_cons, List.nodup_append] at hdistinct
      exact hdistinct.2.2 _ (List.mem_map_of_mem ho) _ List.mem_cons_self
    have hrest : ((earlier ++ [SystemOption.mk g.2 value]).map SystemOption.kind ++
        given.map (·.1)).Nodup := by
      simpa [hkind] using hdistinct
    have hstep : s.ComesTo (itemOption config nested scope earlier (givenText g))
        (earlier ++ [⟨g.2, value⟩]) :=
      comesTo_itemOption (OptionKind.standsInItem_of_isSimple hsimple) hnew hvalue
    have happend : earlier ++ SystemOption.mk g.2 value :: options =
        earlier ++ [SystemOption.mk g.2 value] ++ options := by simp
    rw [List.map_cons, List.foldlM_cons, happend]
    exact hstep.bind (ih hrest)

/-! ### Reading the property -/

section Property

variable {type : ModelType} {owner : StructuredType} {property : Csdl.NavigationProperty}
variable {target : EntityType}

/-- What a navigation property is as a step of a path. -/
def navigationStep (property : Csdl.NavigationProperty) (target : EntityType) : Resource :=
  .navigation property target [] Casts.none

/-- The name is that of a navigation property and of no structural one, it is no literal, and the
property leads to the type. -/
structure NavigatesTo (s : Source) (owner : StructuredType) (property : Csdl.NavigationProperty)
    (target : EntityType) : Prop where
  name : isSimpleName property.name.text = true
  structural : owner.property? property.name.text = none
  navigation : owner.navigationProperty? property.name.text = some property
  target : s.Settles (requireEntityType property.type.name) target

/-- A name is a segment. -/
theorem gives_segmentName {answers : Answers} {name : String}
    (h : (Word.identifier name).Stands) :
    (TokenReader.readAll segmentName name).Gives answers name := by
  have hlexed : Lexed [⟨Word.identifier name, false⟩] [] := ⟨h _ bounded_nil, trivial⟩
  obtain ⟨ts, last, htokens, hpieces, hlast, -⟩ := tokenize_spelled hlexed
  obtain ⟨t, us, rfl, hkind, htext, -, hus⟩ := exists_of_map_piece_cons hpieces
  rw [List.map_eq_nil_iff] at hus
  subst hus
  have hspelled : String.ofList (spelled [⟨Word.identifier name, false⟩]) = name := by
    simp [spelled, Piece.chars, Word.identifier]
  rw [hspelled] at htokens
  refine TokenReader.gives_readAll.mpr ⟨_, [last], htokens, ?_, hlast⟩
  exact TokenReader.reads_bind_pure.mpr
    ⟨t, (TokenReader.reads_expect (by decide)).mpr ⟨rfl, hkind⟩, htext.symm⟩

/-- A path of one navigation property. -/
theorem comesTo_propertyPath (howner : type.structured? = some owner)
    (h : NavigatesTo s owner property target) :
    s.ComesTo (propertyPath type [property.name.text]) ⟨none, [navigationStep property target]⟩ := by
  have hresource : s.ComesTo (propertyResource owner property.name.text)
      (some (navigationStep property target)) := by
    simp only [propertyResource, h.structural, h.navigation]
    exact h.target.comesTo.bind (.done _)
  have hstep : s.ComesTo (propertyStep type Position.origin property.name.text)
      ⟨none, [navigationStep property target]⟩ := by
    -- the segment is a name without dots, and a path starts at the type itself
    refine (Source.ComesTo.of_gives (gives_segmentName (identifier_stands h.name))).bind ?_
    refine Source.ComesTo.bind (.done type) ?_
    have hqualified : ¬isQualified property.name.text = true := by
      simp [isQualified_of_isSimpleName h.name]
    dsimp only
    rw [if_neg hqualified, howner]
    refine Source.ComesTo.bind (.done owner) ?_
    exact hresource.bind (.bind (.done _) (.done _))
  rw [propertyPath, List.foldlM_cons]
  exact hstep.bind (.done _)

/-- A name is the only segment of its path. -/
theorem expandForm_name {name : String} (h : isSimpleName name = true) :
    expandForm (parts '/' name) = ([name], .entities) := by
  obtain ⟨c, cs, hchars, hstart⟩ := (isName_of_isSimpleName h).dotted.start
  have hdollar : c ≠ '$' := by
    rintro rfl
    exact absurd hstart (by decide)
  have hne : ∀ text : String, text.toList.head? = some '$' → name ≠ text := by
    rintro text htext rfl
    rw [hchars, List.head?_cons, Option.some.injEq] at htext
    exact hdollar htext
  have hparts : parts '/' name = [name] := by
    rw [parts, pieces_of_not_mem (isName_of_isSimpleName h).slash_not_mem]
    simp
  rw [hparts]
  simp [expandForm, hne "$ref" (by decide), hne "$count" (by decide)]

theorem comesTo_expandTarget {item head : String} (howner : type.structured? = some owner)
    (h : NavigatesTo s owner property target) :
    s.ComesTo (expandTarget (some type) item head [property.name.text])
      (.path none [navigationStep property target], some (.entity target)) := by
  have hstar : [property.name.text] ≠ ["*"] := by
    intro heq
    have hname := h.name
    rw [List.singleton_inj.mp heq] at hname
    exact absurd hname (by decide)
  unfold expandTarget
  rw [if_neg hstar]
  refine Source.ComesTo.bind (.done type) ?_
  exact (comesTo_propertyPath howner h).bind (.done _)

/-- An item is cut into the name of a property and options, which are read against the type that
the property leads to. -/
theorem comesTo_expandItem {item : String} {texts : Option String} {options : List SystemOption}
    (hit : scope.it = some type) (howner : type.structured? = some owner)
    (h : NavigatesTo s owner property target)
    (hsplit : splitItem item = .ok (property.name.text, texts))
    (hoptions : s.ComesTo ((((texts.map (topLevelParts ';')).getD []).filter (· ≠ "")).foldlM
      (itemOption config nested { scope with it := some (.entity target) }) []) options) :
    s.ComesTo (expandItem config nested scope item)
      ⟨.path none [navigationStep property target], .entities, options⟩ := by
  unfold expandItem
  rw [hsplit]
  -- the path in front of the parentheses first, then the options between them
  refine Source.ComesTo.bind (.done (property.name.text, texts)) ?_
  dsimp only
  rw [expandForm_name h.name, hit]
  refine (comesTo_expandTarget howner h).bind ?_
  exact hoptions.bind (.done _)

end Property

/-! ### Items -/

/-- An item of an expansion: a navigation property and the type that it leads to, the options that
are given, and what they are read as. -/
structure Expanded where
  property : Csdl.NavigationProperty
  target : EntityType
  given : List (OptionKind × String)
  options : List SystemOption

namespace Expanded

/-- The item as it is written. -/
def text (e : Expanded) : String :=
  e.property.name.text ++ "(" ++ optionsText e.given ++ ")"

/-- The item as it is read. -/
def item (e : Expanded) : ExpandItem :=
  ⟨.path none [navigationStep e.property e.target], .entities, e.options⟩

/-- What the options of the item are read with. -/
def inner (e : Expanded) (scope : Scope) : Scope :=
  { scope with it := some (.entity e.target) }

/-- The property leads to the type, the options are of distinct kinds, and each of them is simple
and is accepted alone. -/
structure Accepted (e : Expanded) (s : Source) (config : Config) (scope : Scope)
    (owner : StructuredType) : Prop where
  navigates : NavigatesTo s owner e.property e.target
  distinct : (e.given.map (·.1)).Nodup
  options : List.Forall₂ (fun g o => g.1.isSimple = true ∧
    s.Settles (systemOption config (e.inner scope) g) o) e.given e.options

variable {e : Expanded} {owner : StructuredType} {type : ModelType}

theorem toList_text (e : Expanded) : e.text.toList = e.property.name.text.toList ++
    '(' :: (joined ';' (e.given.map fun g => (givenText g).toList) ++ [')']) := by
  simp [text, String.toList_append, toList_optionsText]

theorem splitItem_text (h : isSimpleName e.property.name.text = true) :
    splitItem e.text = .ok (e.property.name.text, some (optionsText e.given)) := by
  have hparen : '(' ∉ e.property.name.text.toList :=
    not_mem_of_forall (isName_of_isSimpleName h).dotted.isWordPart (by decide)
  rw [splitItem, toList_text, cutAt?_append hparen, ← toList_optionsText]
  dsimp only
  rw [before?_append]
  dsimp only
  rw [String.ofList_toList, String.ofList_toList]

/-- There is no blank space around a written item. -/
theorem trimmed_text (h : isSimpleName e.property.name.text = true) : trimmed e.text = e.text := by
  have hdotted := (isName_of_isSimpleName h).dotted
  obtain ⟨c, cs, hchars, -⟩ := hdotted.start
  have hc : isBlank c = false :=
    isBlank_of_isWordPart (hdotted.isWordPart c (by rw [hchars]; exact List.mem_cons_self))
  have htext : e.text.toList = c :: (cs ++
      '(' :: joined ';' (e.given.map fun g => (givenText g).toList) ++ [')']) := by
    rw [toList_text, hchars]
    simp
  rw [trimmed, htext, trim_eq_self hc (by decide), ← htext, String.ofList_toList]

namespace Accepted

variable (h : e.Accepted s config scope owner)
include h

/-- Each option is read at every depth as it is alone. -/
theorem readsAs (room : Nat) :
    List.Forall₂ (ReadsAs s (optionValue config room (e.inner scope))) e.given e.options := by
  refine h.options.imp fun g o hoption => ?_
  obtain ⟨hsimple, hsettles⟩ := hoption
  have hcomes := hsettles.comesTo
  obtain ⟨hkind, hraw, -⟩ := gives_systemOption.mp hcomes.gives
  obtain ⟨raw, value⟩ := o
  have hraw : raw = g.2 := hraw
  subst hraw
  have hvalue : s.ComesTo (optionValue config config.maxNesting (e.inner scope) g.1 g.2) value :=
    .of_bind_pure (fun _ heq => by cases heq; rfl) hcomes
  rw [optionValue_eq hsimple _ room] at hvalue
  exact ⟨hsimple, hkind, rfl, hvalue⟩

theorem enclosed : ∀ g ∈ e.given, Enclosed g.2.toList := by
  intro g hg
  obtain ⟨o, -, hreads⟩ := exists_right_of_forall₂ (h.readsAs 0) hg
  exact enclosed_of_optionValue hreads.simple hreads.value.gives

/-- A written item is not cut at commas. -/
theorem isPart_text : IsPart ',' e.text.toList := by
  have hname := (isName_of_isSimpleName h.navigates.name).dotted.isWordPart
  have hgroup : IsPart ',' ('(' :: (joined ';' (e.given.map fun g => (givenText g).toList) ++
      [')'])) := by
    refine Enclosed.isPart_group fun part hpart => ?_
    obtain ⟨g, hg, rfl⟩ := List.mem_map.mp hpart
    exact enclosed_givenText (h.enclosed g hg)
  rw [toList_text]
  exact ((isQuiet_isWordPart.calm hname).isPart_of_not_mem
    (not_mem_of_forall hname (by decide))).append hgroup

/-- A written item is read. -/
theorem comesTo_expandItem (hit : scope.it = some type) (howner : type.structured? = some owner)
    (room : Nat) : s.ComesTo (expandItem config (optionValue config room) scope e.text) e.item := by
  refine ODataRequest.comesTo_expandItem hit howner h.navigates
    (splitItem_text h.navigates.name) ?_
  dsimp only [Option.map_some, Option.getD_some]
  rw [topLevelParts_optionsText h.enclosed]
  exact comesTo_itemOptions (h.readsAs room) (by simpa using h.distinct)

end Accepted

end Expanded

/-! ### Expansions -/

/-- Items with commas between them are read one by one. -/
theorem comesTo_expandOption {room : Nat} (hroom : config.maxNesting = room + 1)
    {texts : List String} {items : List ExpandItem} (hne : texts ≠ [])
    (hparts : ∀ text ∈ texts, IsPart ',' text.toList)
    (hitems : List.Forall₂ (fun text item =>
      s.ComesTo (expandItem config (optionValue config room) scope (trimmed text)) item)
      texts items) :
    s.ComesTo (systemOption config scope (.expand, ",".intercalate texts))
      ⟨",".intercalate texts, .expand items⟩ := by
  have hread : s.ComesTo (expandItems config (optionValue config room) scope
      (",".intercalate texts)) items := by
    rw [expandItems, topLevelParts_intercalate rfl (by decide) hne hparts]
    exact .mapM hitems
  -- one level is used up by the expansion itself
  have hvalue : s.ComesTo (optionValue config config.maxNesting scope .expand
      (",".intercalate texts)) (.expand items) := by
    rw [hroom]
    exact hread.bind (.done _)
  exact hvalue.bind (.done _)

/-- One or more items with commas between them, each with a property and options that are accepted
alone, are accepted whatever the directory has been asked before, and give the items one by one:
the options of an item are what they are alone. -/
theorem systemOption_expand {type : ModelType} {owner : StructuredType}
    (hit : scope.it = some type) (howner : type.structured? = some owner)
    (hdepth : 1 ≤ config.maxNesting) {items : List Expanded} (hne : items ≠ [])
    (haccepted : ∀ e ∈ items, e.Accepted s config scope owner) :
    s.ComesTo (systemOption config scope (.expand, ",".intercalate (items.map Expanded.text)))
      ⟨",".intercalate (items.map Expanded.text), .expand (items.map Expanded.item)⟩ := by
  obtain ⟨room, hroom⟩ := Nat.exists_eq_add_of_le' hdepth
  refine comesTo_expandOption hroom (by simpa using hne) ?_ ?_
  · intro text htext
    obtain ⟨e, he, rfl⟩ := List.mem_map.mp htext
    exact (haccepted e he).isPart_text
  · refine List.forall₂_map_left_iff.mpr (List.forall₂_map_right_iff.mpr
      (List.forall₂_same.mpr fun e he => ?_))
    rw [Expanded.trimmed_text (haccepted e he).navigates.name]
    exact (haccepted e he).comesTo_expandItem hit howner room

section Railway

private def railSpace : Namespace := ⟨⟨"Rail", by decide⟩, []⟩
private def stationName : QualifiedName := ⟨railSpace, ⟨"Station", by decide⟩⟩
private def lineSpace : Namespace := ⟨⟨"Line", rfl⟩, []⟩
private def branchSpace : Namespace := ⟨⟨"Branch", by decide⟩, []⟩
private def yardSpace : Namespace := ⟨⟨"Yard", by decide⟩, []⟩

private def depthProperty : Csdl.Property :=
  ⟨⟨"Depth", by decide⟩, ⟨(PrimitiveKind.integer .int32).qualifiedName, false⟩, false, none, none,
    none, none⟩

private def signProperty : Csdl.Property :=
  ⟨⟨"Sign", by decide⟩, ⟨PrimitiveKind.string.qualifiedName, false⟩, false, none, none, none, none⟩

private def stationsProperty (name : Identifier) : Csdl.NavigationProperty :=
  ⟨name, ⟨stationName, true⟩, false, none, false⟩

private def nextProperty : Csdl.NavigationProperty :=
  stationsProperty ⟨"Next", by decide⟩

private def stationProperties : List Csdl.NavigationProperty :=
  [nextProperty, stationsProperty ⟨"null", by decide⟩, stationsProperty ⟨"Sign", by decide⟩]

private def railSchema (space : Namespace) (aliasName : Option Identifier)
    (entityTypes : List Csdl.EntityType) (container : Option Csdl.Container) : Csdl.Schema :=
  { space, aliasName, entityTypes, container
    complexTypes := []
    enumTypes := []
    typeDefinitions := []
    actions := []
    functions := []
    terms := []
    annotations := [] }

private def stationDeclared : Csdl.EntityType :=
  { name := stationName.name
    baseType := none
    isAbstract := false
    isOpen := false
    properties := [depthProperty, signProperty]
    navigationProperties := stationProperties
    hasStream := false
    key := [⟨"Sign", none⟩] }

private def network : Csdl.Container :=
  { name := ⟨"Network", by decide⟩
    entitySets := []
    singletons := [⟨⟨"Terminus", by decide⟩, stationName, []⟩]
    actionImports := []
    functionImports := [] }

/-- A model with stations. A station leads to others by three properties: one of them has a name
that is a literal, and another one the name of a structural property. -/
def railway : Source :=
  { schemas := [railSchema railSpace none [stationDeclared] (some network)], basicOnly := false }

/-- A model whose names cannot be told apart: the first namespace is an alias of the second one, and
this one of the third. -/
def tangled : Source :=
  { basicOnly := false
    schemas :=
      [railSchema lineSpace none [] (some network),
        railSchema branchSpace (some lineSpace.first) [] none,
        railSchema yardSpace (some branchSpace.first) [] none,
        railSchema railSpace none [stationDeclared] none] }

/-- The type of a station. -/
def station : EntityType :=
  { own := ⟨stationName, false, false, false, [depthProperty, signProperty], stationProperties⟩
    bases := []
    keys := [⟨"Sign", [signProperty.name], signProperty⟩] }

/-- What the options of stations are read with. -/
def atStation : Scope :=
  { aliases := [], joined := [], it := some (.entity station), bound := [] }

/-- The options that are accepted alone, on a directory without history. -/
def readAlone (s : Source) (scope : Scope) (given : List (OptionKind × String)) :
    List SystemOption :=
  given.filterMap fun g => ((systemOption .standard scope g).runOn (.ofSource s)).1.toOption

/-- All kinds of options that are the same at every depth. A text in the condition has a semicolon,
a comma, a parenthesis and a quote in it. -/
def stationOptions : List (OptionKind × String) :=
  [(.filter, "Sign ne 'it''s (a;b,c' and Depth gt 2"), (.orderBy, "length(Sign) desc,Depth"),
    (.select, "Depth, Next"), (.top, "3"), (.skip, "0"), (.count, "true"), (.levels, "max")]

/-- Two items that expand the same property, one with all these options and one without any. -/
def stationItems : List Expanded :=
  [⟨nextProperty, station, stationOptions, readAlone railway atStation stationOptions⟩,
    ⟨nextProperty, station, [], []⟩]

theorem isOk_stationOptions : ∀ g ∈ stationOptions, g.1.isSimple = true ∧
    ((systemOption .standard atStation g).runOn (.ofSource railway)).1.isOk = true := by
  decide +kernel

theorem accepted_stationItems :
    ∀ e ∈ stationItems, e.Accepted railway .standard atStation station.toStructuredType := by
  have names : railway.WellNamed := ⟨by decide, by decide⟩
  have hnavigates : NavigatesTo railway station.toStructuredType nextProperty station :=
    { name := by decide
      structural := rfl
      navigation := rfl
      target := ⟨rfl, Or.inl names⟩ }
  have hoptions : List.Forall₂ (fun g o => g.1.isSimple = true ∧
      railway.Settles (systemOption .standard atStation g) o) stationOptions
      (readAlone railway atStation stationOptions) := by
    refine forall₂_filterMap fun g hg => ?_
    obtain ⟨hsimple, hok⟩ := isOk_stationOptions g hg
    cases hread : ((systemOption .standard atStation g).runOn (.ofSource railway)).1 with
    | error e =>
      rw [hread] at hok
      cases hok
    | ok o => exact ⟨o, rfl, hsimple, hread, Or.inl names⟩
  intro e he
  simp only [stationItems, List.mem_cons, List.not_mem_nil, or_false] at he
  rcases he with rfl | rfl
  · exact ⟨hnavigates, by decide, hoptions⟩
  · exact ⟨hnavigates, by decide, .nil⟩

/-- Two items with all kinds of options between them. -/
theorem systemOption_expand_stations :
    stationItems.map Expanded.text = ["Next($filter=Sign ne 'it''s (a;b,c' and Depth gt 2;" ++
      "$orderby=length(Sign) desc,Depth;$select=Depth, Next;$top=3;$skip=0;$count=true;" ++
      "$levels=max)", "Next()"] ∧
    (∀ e ∈ stationItems, e.Accepted railway .standard atStation station.toStructuredType) ∧
    railway.ComesTo
      (systemOption .standard atStation (.expand, ",".intercalate (stationItems.map Expanded.text)))
      ⟨",".intercalate (stationItems.map Expanded.text),
        .expand (stationItems.map Expanded.item)⟩ := by
  refine ⟨by decide, accepted_stationItems, ?_⟩
  exact systemOption_expand rfl rfl (by decide) (by decide) accepted_stationItems

/-- Is the option accepted alone, on a directory without history? -/
def acceptsAlone (s : Source) (option : OptionKind × String) : Bool :=
  ((systemOption .standard atStation option).runOn (.ofSource s)).1.isOk

/-- An item is refused although its property leads to stations and each of its options is accepted
alone: if the name of the property is a literal, or that of a structural property, or if names
cannot be told apart, where the second question for the container finds none. No items at all are
refused too. -/
theorem systemOption_expand_refused :
    (((requireEntityType stationName).runOn (.ofSource railway)).1 = .ok station ∧
      (station.navigationProperty? "null").map (·.type.name) = some stationName ∧
      (station.navigationProperty? "Sign").map (·.type.name) = some stationName ∧
      acceptsAlone railway (.top, "1") = true ∧
      acceptsAlone railway (.expand, "null($top=1)") = false ∧
      acceptsAlone railway (.expand, "Sign($top=1)") = false) ∧
    (((requireEntityType stationName).runOn (.ofSource tangled)).1 = .ok station ∧
      (station.navigationProperty? "Next").map (·.type.name) = some stationName ∧
      acceptsAlone tangled (.filter, "$root/Terminus/Depth gt 0") = true ∧
      acceptsAlone tangled (.orderBy, "$root/Terminus/Depth") = true ∧
      acceptsAlone tangled (.expand,
        "Next($filter=$root/Terminus/Depth gt 0;$orderby=$root/Terminus/Depth)") = false) ∧
    acceptsAlone railway (.expand, "") = false := by
  refine ⟨⟨rfl, ?_⟩, ⟨rfl, ?_⟩, ?_⟩ <;> decide +kernel

end Railway

end ODataRequest
