import ODataRequest.Proofs.Path.PropertyPath
import ODataRequest.Proofs.Query.Expansion
import ODataRequest.Proofs.Request.Expressions

/-!
# ODataRequest.Proofs.Query.ExpandTree

Expansions inside expansions. An option stands under some expansions, and the innermost item around it
says which type it is read against (`SystemOption.WithinAt`): the type that the path of the item leads
to, and no type if the item is a star.

Going one item down costs one level of nesting, and the options of the item are read by the reader of
the next level in the scope of the item (`gives_expandItem_inner`). So an option at any depth has been
read by the reader with the levels that are left there (`gives_optionValue_of_withinAt`), and what that
reader gives does not depend on what is around it.
-/

namespace ODataRequest

variable {answers : Answers} {config : Config} {nested : OptionReader} {scope : Scope}

/-! ### Items -/

namespace ExpandTarget

/-- The type of what is expanded; the properties that a star stands for have no common type. -/
def type? : ExpandTarget → Option ModelType
  | .star => none
  | .path _ steps => steps.getLast?.bind Resource.type?

/-- A star, or a path through complex properties to a navigation property, each found in the type that
the one before it leads to. It starts at the given type or at a cast of it. -/
def LeadsFrom (type : Option ModelType) : ExpandTarget → Prop
  | .star => True
  | .path start steps => ∃ owner, type = some owner ∧
      (∀ cast, start = some cast → derivesFrom cast owner = true) ∧
      (∃ complexes navigation, steps = complexes ++ [navigation] ∧ navigation.isNavigation = true ∧
        ∀ r ∈ complexes, r.isComplexProperty = true) ∧
      ∀ before r after, steps = before ++ r :: after →
        ∃ type, reachedType (some (start.getD owner)) before = some type ∧ r.IsPropertyOf type

end ExpandTarget

/-- Properties that lead to a navigation property. -/
theorem exists_of_navigates {steps : List Resource} (h : navigates steps = true) :
    ∃ complexes navigation, steps.reverse = complexes ++ [navigation] ∧
      navigation.isNavigation = true ∧ ∀ r ∈ complexes, r.isComplexProperty = true := by
  cases steps with
  | nil => cases h
  | cons last earlier =>
    obtain ⟨hlast, hearlier⟩ := Bool.and_eq_true_iff.mp h
    refine ⟨earlier.reverse, last, List.reverse_cons, hlast, fun r hr => ?_⟩
    exact List.all_eq_true.mp hearlier r (List.mem_reverse.mp hr)

/-- A path that navigates has no operations in it. -/
theorem isPropertyOf_of_navigates {complexes : List Resource} {navigation r : Resource}
    {type : ModelType} (hnavigation : navigation.isNavigation = true)
    (hcomplexes : ∀ r ∈ complexes, r.isComplexProperty = true) (hr : r ∈ complexes ++ [navigation])
    (hfound : r.FoundIn type) : r.IsPropertyOf type := by
  refine hfound.resolve_right ?_
  rcases List.mem_append.mp hr with hr | hr
  · exact Resource.not_isOperation_of_isComplexProperty (hcomplexes r hr)
  · rw [List.mem_singleton.mp hr]
    exact Resource.not_isOperation_of_isNavigation hnavigation

/-- What an item expands is found from the type of the scope, and leads to the type that the options
of the item are read against. -/
theorem gives_expandTarget {owner type : Option ModelType} {item head : String}
    {segments : List String} {target : ExpandTarget}
    (h : (expandTarget owner item head segments).Gives answers (target, type)) :
    target.LeadsFrom owner ∧ type = target.type? := by
  unfold expandTarget at h
  split at h
  · cases Resolution.gives_pure.mp h
    exact ⟨trivial, rfl⟩
  · simp only [Resolution.gives_bind, Resolution.gives_require] at h
    obtain ⟨owner, rfl, p, hpath, h⟩ := h
    have htrail := gives_propertyPath hpath
    cases hsteps : p.steps with
    | nil =>
      rw [hsteps] at h
      exact absurd h Resolution.not_gives_refuse
    | cons last earlier =>
      rw [hsteps] at h
      dsimp only at h
      split at h
      · next hnavigates =>
        cases Resolution.gives_pure.mp h
        rw [← hsteps] at hnavigates
        obtain ⟨complexes, navigation, hform, hnavigation, hcomplexes⟩ :=
          exists_of_navigates hnavigates
        have hform : p.path = complexes ++ [navigation] := hform
        have hproperties : ∀ before r after, p.path = before ++ r :: after →
            ∃ type, reachedType (some (p.start.getD owner)) before = some type ∧
              r.IsPropertyOf type := by
          intro before r after hsplit
          obtain ⟨type, htype, hfound⟩ := htrail.steps before r after hsplit
          have hmem : r ∈ complexes ++ [navigation] := by
            rw [← hform, hsplit]
            simp
          exact ⟨type, htype, isPropertyOf_of_navigates hnavigation hcomplexes hmem hfound⟩
        have htype : last.type? = (ExpandTarget.path p.start p.path).type? := by
          simp [ExpandTarget.type?, Position.path, hsteps]
        exact ⟨⟨owner, rfl, htrail.start, ⟨complexes, navigation, hform, hnavigation, hcomplexes⟩,
          hproperties⟩, htype⟩
      · exact absurd h Resolution.not_gives_reject

/-- The options of an item are of distinct kinds that may stand there, and each of them is read with
the given reader. -/
structure ItemOptions (answers : Answers) (nested : OptionKind → String → Resolution OptionValue)
    (options : List SystemOption) : Prop where
  distinct : (options.map SystemOption.kind).Nodup
  stands : ∀ o ∈ options, standsInItem o.kind = true
  read : ∀ o ∈ options, (nested o.kind o.raw).Gives answers o.value

theorem ItemOptions.nil (nested : OptionKind → String → Resolution OptionValue) :
    ItemOptions answers nested [] where
  distinct := List.nodup_nil
  stands := by simp
  read := by simp

/-- One option more, of a kind that is not there yet. -/
theorem ItemOptions.concat {nested : OptionKind → String → Resolution OptionValue}
    {options : List SystemOption} {o : SystemOption} (h : ItemOptions answers nested options)
    (hnew : SystemOption.find? options o.kind = none) (hstands : standsInItem o.kind = true)
    (hread : (nested o.kind o.raw).Gives answers o.value) :
    ItemOptions answers nested (options ++ [o]) where
  distinct := by
    have hfresh : o.kind ∉ options.map SystemOption.kind := by
      intro hmem
      obtain ⟨other, hother, hkind⟩ := List.mem_map.mp hmem
      have hdiffers := List.find?_eq_none.mp hnew other hother
      simp [hkind] at hdiffers
    rw [List.map_append, List.map_singleton, List.nodup_append]
    refine ⟨h.distinct, List.nodup_singleton _, ?_⟩
    intro kind hkind kind' hkind' heq
    rw [heq, List.mem_singleton.mp hkind'] at hkind
    exact hfresh hkind
  stands := List.forall_mem_append.mpr ⟨h.stands, List.forall_mem_singleton.mpr hstands⟩
  read := List.forall_mem_append.mpr ⟨h.read, List.forall_mem_singleton.mpr hread⟩

/-- An item is found from the type of the scope, and its options are read against the type that it
leads to. -/
theorem gives_expandItem_inner {item : String} {i : ExpandItem}
    (hkind : ∀ {scope : Scope} {kind text value}, (nested scope kind text).Gives answers value →
      value.kind = kind)
    (h : (expandItem config nested scope item).Gives answers i) :
    i.target.LeadsFrom scope.it ∧
      ItemOptions answers (nested { scope with it := i.target.type? }) i.options := by
  obtain ⟨head, given, type, -, htarget, -, hoptions⟩ := gives_expandItem.mp h
  obtain ⟨hleads, rfl⟩ := gives_expandTarget htarget
  refine ⟨hleads, hoptions.foldlM_rule (ItemOptions answers _) ?_ (.nil _)⟩
  intro options text options' hread hoption
  obtain ⟨name, raw, kind, value, -, -, hstands, hnew, hvalue, rfl⟩ := gives_itemOption.mp hoption
  have hsame : (⟨String.ofList raw, value⟩ : SystemOption).kind = kind := hkind hvalue
  refine hread.concat ?_ ?_ ?_ <;> rw [hsame]
  · exact hnew
  · exact hstands
  · exact hvalue

/-! ### Options under expansions -/

namespace SystemOption

/-- The option stands so many expansions deep among options that are read against a type, and is read
against the second type: the one that the innermost item around it leads to. -/
inductive WithinAt : Option ModelType → List SystemOption → Nat → Option ModelType →
    SystemOption → Prop
  | here {type : Option ModelType} {options : List SystemOption} {o : SystemOption}
      (h : o ∈ options) : WithinAt type options 0 type o
  | nested {type inner : Option ModelType} {options : List SystemOption} {level : Nat}
      {expansion o : SystemOption} {items : List ExpandItem} {item : ExpandItem}
      (h : expansion ∈ options) (expands : expansion.value = .expand items) (hitem : item ∈ items)
      (inside : WithinAt item.target.type? item.options level inner o) :
      WithinAt type options (level + 1) inner o

variable {type inner : Option ModelType} {options : List SystemOption} {level : Nat}
variable {o : SystemOption}

/-- The options at all depths are those within the options. -/
theorem exists_withinAt (type : Option ModelType) (h : Within options o) :
    ∃ level inner, WithinAt type options level inner o := by
  induction h generalizing type with
  | here h => exact ⟨0, type, .here h⟩
  | @nested options expansion o items item h expands hitem inside ih =>
    obtain ⟨level, inner, hinner⟩ := ih item.target.type?
    exact ⟨level + 1, inner, .nested h expands hitem hinner⟩

theorem WithinAt.within (h : WithinAt type options level inner o) : Within options o := by
  induction h with
  | here h => exact .here h
  | nested h expands hitem _ ih => exact .nested h expands hitem ih

end SystemOption

open SystemOption

/-- The items of an expansion are found from the type of the scope, with one level of nesting less for
their options. -/
theorem gives_optionValue_expand {room : Nat} {kind : OptionKind} {text : String}
    {items : List ExpandItem}
    (h : (optionValue config room scope kind text).Gives answers (.expand items)) :
    ∃ left, room = left + 1 ∧ ∀ item ∈ items, item.target.LeadsFrom scope.it ∧
      ItemOptions answers (optionValue config left { scope with it := item.target.type? })
        item.options := by
  cases kind_of_gives_optionValue h
  cases room with
  | zero =>
    simp only [optionValue, OptionValue.kind, optionValueWith, Resolution.gives_bind] at h
    obtain ⟨_, hrefused, -⟩ := h
    exact absurd hrefused Resolution.not_gives_refuse
  | succ left =>
    simp only [optionValue, OptionValue.kind, optionValueWith, Resolution.gives_bind,
      Resolution.gives_pure] at h
    obtain ⟨_, hitems, heq⟩ := h
    cases heq
    refine ⟨left, rfl, fun item hitem => ?_⟩
    obtain ⟨part, -, hpart⟩ := exists_left_of_forall₂ (gives_expandItems.mp hitems) hitem
    exact gives_expandItem_inner kind_of_gives_optionValue hpart

/-- An option at any depth is read with the levels that are left there, in the scope of the item
around it. -/
theorem gives_optionValue_of_withinAt {type inner : Option ModelType} {options : List SystemOption}
    {level room : Nat} {o : SystemOption} (hwithin : WithinAt type options level inner o)
    (h : ∀ o ∈ options,
      (optionValue config room { scope with it := type } o.kind o.raw).Gives answers o.value) :
    ∃ left, room = left + level ∧
      (optionValue config left { scope with it := inner } o.kind o.raw).Gives answers o.value := by
  induction hwithin generalizing room with
  | here ho => exact ⟨room, rfl, h _ ho⟩
  | nested hexpansion expands hitem _ ih =>
    have hvalue := h _ hexpansion
    rw [expands] at hvalue
    obtain ⟨left, rfl, hitems⟩ := gives_optionValue_expand hvalue
    obtain ⟨-, hoptions⟩ := hitems _ hitem
    obtain ⟨left', rfl, ho⟩ := ih hoptions.read
    exact ⟨left', by omega, ho⟩

/-- An option of an accepted request, at any depth. -/
theorem Request.gives_optionValue_of_withinAt {path : String} {query fragment : Option String}
    {r : Request} (h : (read config path query fragment).Gives answers r) {level : Nat}
    {type : Option ModelType} {o : SystemOption}
    (hwithin : WithinAt r.address.target? r.options level type o) :
    ∃ left, config.maxNesting = left + level ∧
      (optionValue config left { r.address.scope r.aliases with it := type } o.kind
        o.raw).Gives answers o.value := by
  obtain ⟨_, _, -, -, -, -, hoptions, -⟩ := gives_read.mp h
  refine ODataRequest.gives_optionValue_of_withinAt hwithin fun o ho => ?_
  obtain ⟨option, -, hoption⟩ := exists_left_of_forall₂ hoptions ho
  obtain ⟨hkind, hraw, hvalue⟩ := gives_systemOption.mp hoption
  rw [hkind, hraw]
  exact hvalue

end ODataRequest
