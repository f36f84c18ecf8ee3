import ODataRequest.Proofs.Query.Expansion
import ODataRequest.Proofs.Request.Reader
import ODataRequest.Proofs.Token.Reader

/-!
# ODataRequest.Proofs.Request.Expressions

Where the expressions of an accepted request come from. An option of a request may be an expansion,
whose items have options of their own (`SystemOption.Within`). Whatever expression stands in an
option, at whatever depth, has been read by the reader of expressions in a scope where no quantifier
is open (`Request.read_expressions`), so what is known of that reader is known of all of them.

The reader of option values is one level of expansion above itself, so what holds of the values it
gives is shown by induction on the levels (`gives_optionValue_allRead`).
-/

namespace ODataRequest

variable {answers : Answers} {config : Config} {nested : OptionReader} {scope : Scope}

/-! ### Options at any depth -/

/-- The option is one of the options, or stands in an item of an expansion that is within them. -/
inductive SystemOption.Within : List SystemOption → SystemOption → Prop
  | here {options : List SystemOption} {o : SystemOption} (h : o ∈ options) : Within options o
  | nested {options : List SystemOption} {expansion o : SystemOption} {items : List ExpandItem}
      {item : ExpandItem} (h : expansion ∈ options) (expands : expansion.value = .expand items)
      (hitem : item ∈ items) (inside : Within item.options o) : Within options o

/-- The condition of a filter, or the expressions to order by. -/
def OptionValue.expressions : OptionValue → List Expression
  | .filter e => [e]
  | .orderBy items => items.map OrderItem.expression
  | _ => []

/-- The expression has been read in the scope, at the start of a text. -/
def Expression.StartsText (answers : Answers) (config : Config) (scope : Scope) (e : Expression) :
    Prop :=
  ∃ source ts rest, tokenize source = .ok ts ∧
    TokenReader.Reads answers (expression config scope) source ts e rest

/-- The expression has been read somewhere in a text, where no quantifier is open. -/
def Expression.IsRead (answers : Answers) (config : Config) (e : Expression) : Prop :=
  ∃ scope source ts rest, scope.bound = [] ∧
    TokenReader.Reads answers (expression config scope) source ts e rest

/-- The expression has been read in the scope, somewhere in a text. -/
def Expression.IsReadIn (answers : Answers) (config : Config) (scope : Scope) (e : Expression) :
    Prop :=
  ∃ source ts rest, TokenReader.Reads answers (expression config scope) source ts e rest

theorem Expression.StartsText.isReadIn {e : Expression} (h : e.StartsText answers config scope) :
    e.IsReadIn answers config scope := by
  obtain ⟨source, ts, rest, -, hread⟩ := h
  exact ⟨source, ts, rest, hread⟩

/-- The expressions of a value have been read where no quantifier is open, and a filter has been found
to be a condition. -/
structure OptionValue.ExpressionsRead (answers : Answers) (config : Config) (value : OptionValue) :
    Prop where
  inTexts : ∀ e ∈ value.expressions, ∃ scope, scope.bound = [] ∧ e.StartsText answers config scope
  condition : ∀ e, value = .filter e →
    (requireCondition OptionKind.filter.name e).Gives answers ()

theorem OptionValue.ExpressionsRead.expressions {value : OptionValue}
    (h : value.ExpressionsRead answers config) :
    ∀ e ∈ value.expressions, e.IsRead answers config := by
  intro e he
  obtain ⟨scope, hscope, source, ts, rest, -, hread⟩ := h.inTexts e he
  exact ⟨scope, source, ts, rest, hscope, hread⟩

/-- All expressions within the options have been read. -/
def SystemOption.AllRead (answers : Answers) (config : Config) (options : List SystemOption) :
    Prop :=
  ∀ o, Within options o → o.value.ExpressionsRead answers config

/-- All expressions of a value have been read, those in the items of an expansion included. -/
structure OptionValue.AllRead (answers : Answers) (config : Config) (value : OptionValue) :
    Prop where
  here : value.ExpressionsRead answers config
  items : ∀ items, value = .expand items → ∀ item ∈ items,
    SystemOption.AllRead answers config item.options

open SystemOption in
theorem allRead_iff {options : List SystemOption} :
    AllRead answers config options ↔ ∀ o ∈ options, o.value.AllRead answers config := by
  constructor
  · intro h o ho
    refine ⟨h o (.here ho), ?_⟩
    intro items hvalue item hitem inner hinner
    exact h inner (.nested ho hvalue hitem hinner)
  · intro h o ho
    cases ho with
    | here ho => exact (h o ho).here
    | nested hexpansion hvalue hitem hinner =>
      exact (h _ hexpansion).items _ hvalue _ hitem o hinner

/-! ### Values -/

theorem filterCondition_startsText {text : String} {e : Expression}
    (h : (filterCondition config scope text).Gives answers e) :
    e.StartsText answers config scope ∧
      (requireCondition OptionKind.filter.name e).Gives answers () := by
  unfold filterCondition at h
  simp only [Resolution.gives_bind, Resolution.gives_pure, TokenReader.gives_readAll] at h
  obtain ⟨_, ⟨tokens, rest, htokens, hread, -⟩, ⟨⟩, hcondition, rfl⟩ := h
  exact ⟨⟨text, tokens, rest, htokens, hread⟩, hcondition⟩

theorem orderItem_startsText {source : String} {ts rest : List Token} {i : OrderItem}
    (htokens : tokenize source = .ok ts)
    (h : TokenReader.Reads answers (orderItem config scope) source ts i rest) :
    i.expression.StartsText answers config scope := by
  unfold orderItem at h
  rw [TokenReader.reads_bind] at h
  obtain ⟨e, between, hread, h⟩ := h
  have hexpression : i.expression = e := by
    simp only [TokenReader.reads_bind, TokenReader.reads_ite, TokenReader.reads_pure] at h
    obtain ⟨_, _, -, ⟨-, _, _, -, rfl, -⟩ | ⟨-, rfl, -⟩⟩ := h <;> rfl
  rw [hexpression]
  exact ⟨source, ts, between, htokens, hread⟩

theorem orderItems_startText {text : String} {items : List OrderItem}
    (h : (orderItems config scope text).Gives answers items) :
    ∀ item ∈ items, item.expression.StartsText answers config scope := by
  intro item hitem
  obtain ⟨part, -, hpart⟩ := exists_left_of_forall₂ (Resolution.gives_mapM.mp h) hitem
  obtain ⟨tokens, rest, htokens, hread, -⟩ := TokenReader.gives_readAll.mp hpart
  exact orderItem_startsText htokens hread

/-- The expressions of a value have been read in the scope of the value. -/
theorem gives_optionValueWith_startText {readItems : Scope → String → Resolution (List ExpandItem)}
    {kind : OptionKind} {text : String} {value : OptionValue}
    (h : (optionValueWith config readItems scope kind text).Gives answers value) :
    ∀ e ∈ value.expressions, e.StartsText answers config scope := by
  unfold optionValueWith at h
  cases kind <;> simp only [Resolution.gives_bind, Resolution.gives_pure] at h
  case filter =>
    obtain ⟨e, he, rfl⟩ := h
    exact List.forall_mem_singleton.mpr (filterCondition_startsText he).1
  case orderBy =>
    obtain ⟨items, hread, rfl⟩ := h
    exact List.forall_mem_map.mpr (orderItems_startText hread)
  all_goals
    obtain ⟨_, -, rfl⟩ := h
    exact List.forall_mem_nil _

/-- The expressions of an item have been read if those of the values of its options have. -/
theorem expandItem_allRead {item : String} {i : ExpandItem} (hscope : scope.bound = [])
    (hnested : ∀ {scope : Scope} {kind text value}, scope.bound = [] →
      (nested scope kind text).Gives answers value → OptionValue.AllRead answers config value)
    (h : (expandItem config nested scope item).Gives answers i) :
    SystemOption.AllRead answers config i.options := by
  obtain ⟨head, given, type, -, -, -, hoptions⟩ := gives_expandItem.mp h
  refine allRead_iff.mpr
    (hoptions.foldlM_rule (fun options => ∀ o ∈ options, o.value.AllRead answers config) ?_
      (by simp))
  intro options text options' hall hoption
  obtain ⟨name, raw, kind, value, -, -, -, -, hvalue, rfl⟩ := gives_itemOption.mp hoption
  refine List.forall_mem_append.mpr ⟨hall, ?_⟩
  intro o ho
  rw [List.mem_singleton.mp ho]
  have hinner : ({ scope with it := type } : Scope).bound = [] := hscope
  exact hnested hinner hvalue

theorem OptionValue.AllRead.ofPlain {value : OptionValue} (plain : value.expressions = [])
    (notFilter : ∀ e, value ≠ .filter e) (notExpand : ∀ items, value ≠ .expand items) :
    value.AllRead answers config where
  here := {
    inTexts := by simp [plain]
    condition := fun e hvalue => absurd hvalue (notFilter e) }
  items := fun items hvalue => absurd hvalue (notExpand items)

/-- The expressions of a value have been read, whichever option it is of, if those in the items of
an expansion have. -/
theorem gives_optionValueWith_allRead {readItems : Scope → String → Resolution (List ExpandItem)}
    (hscope : scope.bound = [])
    (hitems : ∀ text items, (readItems scope text).Gives answers items →
      ∀ item ∈ items, SystemOption.AllRead answers config item.options)
    {kind : OptionKind} {text : String} {value : OptionValue}
    (h : (optionValueWith config readItems scope kind text).Gives answers value) :
    value.AllRead answers config := by
  have hinTexts : ∀ e ∈ value.expressions,
      ∃ scope, scope.bound = [] ∧ e.StartsText answers config scope := fun e he =>
    ⟨scope, hscope, gives_optionValueWith_startText h e he⟩
  unfold optionValueWith at h
  cases kind <;> simp only [Resolution.gives_bind, Resolution.gives_pure] at h
  case filter =>
    obtain ⟨e, he, rfl⟩ := h
    refine ⟨⟨hinTexts, ?_⟩, by simp⟩
    rintro _ ⟨⟩
    exact (filterCondition_startsText he).2
  case orderBy =>
    obtain ⟨items, hread, rfl⟩ := h
    exact ⟨⟨hinTexts, by simp⟩, by simp⟩
  case expand =>
    obtain ⟨items, hread, rfl⟩ := h
    refine ⟨⟨hinTexts, by simp⟩, ?_⟩
    rintro _ ⟨⟩
    exact hitems _ _ hread
  all_goals
    obtain ⟨_, -, rfl⟩ := h
    exact .ofPlain rfl (by simp) (by simp)

theorem gives_optionValue_isReadIn {room : Nat} {kind : OptionKind} {text : String}
    {value : OptionValue} (h : (optionValue config room scope kind text).Gives answers value) :
    ∀ e ∈ value.expressions, e.IsReadIn answers config scope := by
  cases room <;> exact fun e he => (gives_optionValueWith_startText h e he).isReadIn

theorem gives_optionValue_allRead (room : Nat) {kind : OptionKind} {text : String}
    {value : OptionValue} (hscope : scope.bound = [])
    (h : (optionValue config room scope kind text).Gives answers value) :
    value.AllRead answers config := by
  induction room generalizing scope kind text value with
  | zero =>
    refine gives_optionValueWith_allRead hscope ?_ h
    intro text items hrefused
    exact absurd hrefused Resolution.not_gives_refuse
  | succ room ih =>
    refine gives_optionValueWith_allRead hscope ?_ h
    intro text items hitems item hitem
    obtain ⟨part, -, hpart⟩ := exists_left_of_forall₂ (gives_expandItems.mp hitems) hitem
    exact expandItem_allRead hscope ih hpart

/-! ### Requests -/

/-- The expressions of an accepted request, at the top or in an expansion, have been read. -/
theorem Request.read_expressions {path : String} {query fragment : Option String} {r : Request}
    (h : (read config path query fragment).Gives answers r) :
    SystemOption.AllRead answers config r.options := by
  obtain ⟨_, _, -, -, -, -, hoptions, -⟩ := gives_read.mp h
  refine allRead_iff.mpr fun o ho => ?_
  obtain ⟨option, -, hoption⟩ := exists_left_of_forall₂ hoptions ho
  exact gives_optionValue_allRead config.maxNesting rfl (gives_systemOption.mp hoption).2.2

end ODataRequest
