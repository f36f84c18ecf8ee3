import ODataRequest.Proofs.Expression.MemberShape
import ODataRequest.Proofs.Query.ExpandTree

/-!
# ODataRequest.Proofs.Request.ExpandTree

The expansions of an accepted request, whatever is expanded inside them (`Request.read_expandTree`).
There are no more of them inside each other than levels of nesting, and every option is resolved
against the type that it is read against: what an item expands, what an item selects and the paths in
conditions all start there (`SystemOption.Resolved`).

What an option is resolved against is said by the reader that has read it, and the readers of all
levels are alike (`gives_optionValue_of_withinAt`), so one lemma for each kind of value is enough.
-/

namespace ODataRequest

open SystemOption

variable {answers : Answers} {config : Config} {scope : Scope}

/-! ### Starts of paths -/

/-- Does the resource say by itself where a path starts? `$it`, entity sets, singletons and variables
do, and an operation is bound to the value that the path starts at. -/
def Resource.namesStart : Resource → Bool
  | .it _ | .entitySet _ _ _ _ | .singleton _ _ _ | .lambdaVariable _ _ => true
  | r => r.isOperation

/-- A path starts at a property of the type, or of one derived from it that a cast in front of the path
names, or at a resource that says by itself where the path starts. A path without steps is a cast. -/
structure StartsIn (type start : Option ModelType) (path : List Resource) : Prop where
  startCast : ∀ cast, start = some cast → ∃ owner, type = some owner ∧ derivesFrom cast owner = true
  first : ∀ r rest, path = r :: rest →
    (∃ owner, start.or type = some owner ∧ r.IsPropertyOf owner) ∨ r.namesStart = true
  goesOn : path = [] → start ≠ none

/-- What may stand first in a path is one of its starts. -/
theorem MemberShape.startsIn {joined : List String} {type start : Option ModelType}
    {path : List Resource} (h : MemberShape joined type start path) : StartsIn type start path where
  startCast := h.startCast
  goesOn := h.goesOn
  first := by
    intro r rest hpath
    have hfirst := h.steps [] r rest hpath
    cases r with
    | property => exact Or.inl hfirst.1
    | navigation => exact Or.inl hfirst.1
    | it | entitySet | singleton | lambdaVariable | function => exact Or.inr rfl
    | count | notEmpty | lambda =>
      obtain ⟨previous, hprevious, -⟩ := hfirst
      cases hprevious
    | value | ref | action => exact hfirst.elim

/-! ### Selected paths -/

theorem namesStart_of_isOperation {r : Resource} (h : r.isOperation = true) :
    r.namesStart = true := by
  cases r with
  | action | function => rfl
  | _ => cases h

/-- A selected path starts in the type that the selection is read against. -/
theorem gives_selectItem {type : Option ModelType} {item : String} {start : Option ModelType}
    {path : List Resource} (h : (selectItem type item).Gives answers (.path start path)) :
    StartsIn type start path := by
  obtain ⟨-, heq⟩ | ⟨_, _, -, -, heq⟩ | ⟨owner, p, rfl, hpath, heq⟩ := selectItem_cases h
  · cases heq
  · cases heq
  · cases heq
    have htrail := gives_propertyPath hpath
    refine ⟨fun cast hcast => ⟨owner, rfl, htrail.start cast hcast⟩, ?_, ?_⟩
    · intro r rest hsplit
      obtain ⟨type, htype, hfound⟩ := htrail.steps [] r rest hsplit
      have htype : p.start.or (some owner) = some type := by
        rw [← htype]
        cases p.start <;> rfl
      exact hfound.imp (fun hof => ⟨type, htype, hof⟩) namesStart_of_isOperation
    · exact goesOn_of_gives_propertyPath (by simp [parts, Text.pieces_ne_nil]) hpath

/-! ### Options -/

/-- An option that stands so many expansions deep has been resolved against the type. -/
structure SystemOption.Resolved (config : Config) (level : Nat) (type : Option ModelType)
    (o : SystemOption) : Prop where
  levels : ∀ n, o.value = .levels (.number n) → n ≤ config.maxLevels
  members : ∀ e ∈ o.value.expressions, e.Members (StartsIn type)
  selected : ∀ items, o.value = .select items →
    ∀ start path, .path start path ∈ items → StartsIn type start path
  depth : ∀ items, o.value = .expand items → level + 1 ≤ config.maxNesting
  expanded : ∀ items, o.value = .expand items → ∀ item ∈ items,
    item.target.LeadsFrom type ∧ (item.options.map SystemOption.kind).Nodup ∧
      ∀ o ∈ item.options, o.kind ≠ .format ∧ o.kind ≠ .id ∧ o.kind ≠ .skipToken

theorem levels_le {limit n : Nat} {text : String}
    (h : Levels.parse limit text = .ok (.number n)) : n ≤ limit := by
  unfold Levels.parse at h
  split at h
  · cases h
  · split at h
    · next m hm =>
      cases h
      have hbound := (Option.filter_eq_some_iff.mp hm).2
      exact Nat.le_trans (of_decide_eq_true hbound) (Nat.min_le_left _ _)
    · cases h

theorem standsInItem_iff {kind : OptionKind} :
    standsInItem kind = true ↔ kind ≠ .format ∧ kind ≠ .id ∧ kind ≠ .skipToken := by
  cases kind <;> simp [standsInItem]

section Value

variable {room : Nat} {kind : OptionKind} {text : String}

theorem levels_of_gives {n : Nat}
    (h : (optionValue config room scope kind text).Gives answers (.levels (.number n))) :
    n ≤ config.maxLevels := by
  cases kind_of_gives_optionValue h
  have hlevels : Levels.parse config.maxLevels text = .ok (.number n) := by
    cases room <;>
    · simp only [optionValue, OptionValue.kind, optionValueWith, Resolution.gives_bind,
        Resolution.gives_pure, Resolution.gives_ofGrammar] at h
      obtain ⟨levels, hparse, heq⟩ := h
      cases heq
      exact hparse
  exact levels_le hlevels

theorem select_of_gives {items : List SelectItem}
    (h : (optionValue config room scope kind text).Gives answers (.select items)) :
    (selectItems scope.it text).Gives answers items := by
  cases kind_of_gives_optionValue h
  cases room <;>
  · simp only [optionValue, OptionValue.kind, optionValueWith, Resolution.gives_bind,
      Resolution.gives_pure] at h
    obtain ⟨read, hread, heq⟩ := h
    cases heq
    exact hread

/-- An option that is read with enough levels left has been resolved against the type of the scope. -/
theorem resolved_of_gives {level : Nat} {o : SystemOption} (hroom : config.maxNesting = room + level)
    (h : (optionValue config room scope kind text).Gives answers o.value) :
    o.Resolved config level scope.it where
  levels := by
    intro n hvalue
    rw [hvalue] at h
    exact levels_of_gives h
  members := by
    intro e he start path hmem
    obtain ⟨source, ts, rest, hread⟩ := gives_optionValue_isReadIn h e he
    exact (memberShape_rule.expression hread start path hmem).startsIn
  selected := by
    intro items hvalue start path hmem
    rw [hvalue] at h
    have hitems := Resolution.gives_mapM.mp (select_of_gives h)
    obtain ⟨item, -, hitem⟩ := exists_left_of_forall₂ hitems hmem
    exact gives_selectItem hitem
  depth := by
    intro items hvalue
    rw [hvalue] at h
    obtain ⟨left, rfl, -⟩ := gives_optionValue_expand h
    omega
  expanded := by
    intro items hvalue item hitem
    rw [hvalue] at h
    obtain ⟨left, -, hitems⟩ := gives_optionValue_expand h
    obtain ⟨hleads, hoptions⟩ := hitems item hitem
    exact ⟨hleads, hoptions.distinct, fun o ho => standsInItem_iff.mp (hoptions.stands o ho)⟩

end Value

/-! ### Requests -/

namespace Request

/-- Whatever directory a request is read on, in whatever state: each of its options, at the top or in
an item of an expansion at any depth, has been resolved against the type that the innermost item
around it leads to, and no expansion is deeper than the levels of nesting. -/
theorem read_expandTree {path : String} {query fragment : Option String} {d : Directory}
    {r : Request} (h : ((read config path query fragment).runOn d).1 = .ok r) :
    ∀ level type o, WithinAt r.address.target? r.options level type o →
      o.Resolved config level type := by
  intro level type o hwithin
  obtain ⟨left, hroom, hvalue⟩ :=
    gives_optionValue_of_withinAt (Resolution.gives_of_runOn h) hwithin
  exact resolved_of_gives hroom hvalue

end Request

section Staff

private def staffSpace : Namespace := ⟨⟨"Staff", by decide⟩, []⟩
private def personName : Identifier := ⟨"Person", by decide⟩
private def officeName : Identifier := ⟨"Office", by decide⟩
private def buildingName : Identifier := ⟨"Building", by decide⟩

private def staffName (id : Identifier) : QualifiedName :=
  ⟨staffSpace, id⟩

private def stringProperty (name : Identifier) (isCollection : Bool) : Csdl.Property :=
  ⟨name, ⟨PrimitiveKind.string.qualifiedName, isCollection⟩, false, none, none, none, none⟩

private def integerProperty (name : Identifier) : Csdl.Property :=
  ⟨name, ⟨(PrimitiveKind.integer .int32).qualifiedName, false⟩, false, none, none, none, none⟩

/-- A model with persons, some of whom manage a team of others, and their offices in buildings. -/
def staff : Source :=
  { basicOnly := false
    schemas :=
      [{ space := staffSpace
         aliasName := none
         entityTypes :=
           [{ name := personName, baseType := none, isAbstract := false, isOpen := false,
              properties := [stringProperty ⟨"Name", by decide⟩ false,
                stringProperty ⟨"Tags", by decide⟩ true,
                ⟨officeName, ⟨staffName officeName, false⟩, true, none, none, none, none⟩],
              navigationProperties :=
                [⟨⟨"Team", by decide⟩, ⟨staffName personName, true⟩, true, none, false⟩],
              hasStream := false, key := [⟨"Name", none⟩] },
            { name := ⟨"Manager", by decide⟩, baseType := some (staffName personName),
              isAbstract := false, isOpen := false,
              properties := [integerProperty ⟨"Budget", by decide⟩], navigationProperties := [],
              hasStream := false, key := [] },
            { name := buildingName, baseType := none, isAbstract := false, isOpen := false,
              properties := [integerProperty ⟨"Code", by decide⟩], navigationProperties := [],
              hasStream := false, key := [⟨"Code", none⟩] }]
         complexTypes :=
           [{ name := officeName, baseType := none, isAbstract := false, isOpen := false,
              properties := [integerProperty ⟨"Floor", by decide⟩],
              navigationProperties :=
                [⟨buildingName, ⟨staffName buildingName, false⟩, true, none, false⟩] }]
         enumTypes := []
         typeDefinitions := []
         actions := []
         functions := []
         terms := []
         container := some
           { name := staffSpace.first
             entitySets := [⟨⟨"Persons", by decide⟩, staffName personName, [], true⟩,
               ⟨⟨"Buildings", by decide⟩, staffName buildingName, [], true⟩]
             singletons := []
             actionImports := []
             functionImports := [] }
         annotations := [] }] }

/-- The buildings of the offices of all persons, and the managers in their teams with what is reached
from these and one person of the teams of each. -/
def teams : String :=
  "$expand=Office/Building,Team/Staff.Manager($filter=Budget gt 5;$expand=*,Team($top=1))"

/-- The options of an accepted request as they are written. -/
def acceptedOptions (answer : Except RequestError Request) : Option String :=
  match answer with
  | .ok r => some (queryText r.options)
  | .error _ => none

/-- Expansions inside each other, through a complex property, behind a cast, and with a star. -/
theorem read_expandTree_teams :
    ∃ r, ((Request.read .standard "Persons" (some teams) none).runOn (.ofSource staff)).1 = .ok r ∧
      acceptedOptions (.ok r) = some teams ∧
      ∀ level type o, WithinAt r.address.target? r.options level type o →
        o.Resolved .standard level type := by
  have hoptions : acceptedOptions
      ((Request.read .standard "Persons" (some teams) none).runOn (.ofSource staff)).1 =
        some teams := by
    decide +kernel
  cases hread : ((Request.read .standard "Persons" (some teams) none).runOn (.ofSource staff)).1 with
  | error e =>
    rw [hread] at hoptions
    cases hoptions
  | ok r =>
    rw [hread] at hoptions
    exact ⟨r, rfl, hoptions, Request.read_expandTree hread⟩

end Staff

end ODataRequest
