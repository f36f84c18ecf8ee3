import ODataRequest.Expression.Text
import ODataRequest.Query.Option
import ODataRequest.Search.Basic

/-!
# ODataRequest.Query.Basic

System query options with their values. An option keeps the text it was given as next to its value,
so there is a value exactly where there is a text. The items of an expansion have options of their
own. Options are kept in the order of the request and are written in the order of their kinds.
-/

namespace ODataRequest

/-- An expression to order by. -/
structure OrderItem where
  expression : Expression
  descending : Bool

/-- What to select: everything, all operations of a schema, or what a path leads to. -/
inductive SelectItem where
  | star
  | operations (space : Namespace)
  | path (start : Option ModelType) (steps : List Resource)

/-- What to expand: all navigation properties, or the one that a path leads to. -/
inductive ExpandTarget where
  | star
  | path (start : Option ModelType) (steps : List Resource)

/-- What to give of expanded entities: the entities, references to them, or their number. -/
inductive ExpandForm where
  | entities
  | references
  | number
deriving DecidableEq, Repr

mutual

/-- The value of a system query option. -/
inductive OptionValue where
  | filter (condition : Expression)
  | expand (items : List ExpandItem)
  | select (items : List SelectItem)
  | orderBy (items : List OrderItem)
  | top (n : Nat)
  | skip (n : Nat)
  | count (wanted : Bool)
  | search (expression : SearchExpression)
  | format (format : Format)
  | id (text : String)
  | skipToken (text : String)
  | levels (levels : Levels)

/-- A system query option: the text it was given as, and its value. -/
inductive SystemOption where
  | mk (raw : String) (value : OptionValue)

/-- An item of an expansion with its options. -/
inductive ExpandItem where
  | mk (target : ExpandTarget) (form : ExpandForm) (options : List SystemOption)

end

/-! ### Parts -/

/-- The kind of an option by its value. -/
def OptionValue.kind : OptionValue → OptionKind
  | .filter _ => .filter
  | .expand _ => .expand
  | .select _ => .select
  | .orderBy _ => .orderBy
  | .top _ => .top
  | .skip _ => .skip
  | .count _ => .count
  | .search _ => .search
  | .format _ => .format
  | .id _ => .id
  | .skipToken _ => .skipToken
  | .levels _ => .levels

namespace SystemOption

/-- The text an option was given as. -/
def raw : SystemOption → String
  | ⟨raw, _⟩ => raw

/-- The value of an option. -/
def value : SystemOption → OptionValue
  | ⟨_, value⟩ => value

/-- The kind of an option. -/
def kind (o : SystemOption) : OptionKind :=
  o.value.kind

/-- The option of a kind. -/
def find? (options : List SystemOption) (kind : OptionKind) : Option SystemOption :=
  options.find? (·.kind == kind)

/-- The kinds of options that are given, in the order of writing. -/
def kinds (options : List SystemOption) : List OptionKind :=
  OptionKind.all.filter fun kind => (find? options kind).isSome

end SystemOption

namespace ExpandItem

/-- What an item expands. -/
def target : ExpandItem → ExpandTarget
  | ⟨target, _, _⟩ => target

/-- What an item gives of the expanded entities. -/
def form : ExpandItem → ExpandForm
  | ⟨_, form, _⟩ => form

/-- The options of an item. -/
def options : ExpandItem → List SystemOption
  | ⟨_, _, options⟩ => options

end ExpandItem

/-! ### Texts -/

/-- The text of an expression to order by. -/
def OrderItem.text (i : OrderItem) : String :=
  if i.descending then i.expression.text ++ " desc" else i.expression.text

/-- The text of a selected item. -/
def SelectItem.text : SelectItem → String
  | .star => "*"
  | .operations space => space.text ++ ".*"
  | .path start steps => pathText start (Resource.texts steps)

/-- The text of an expanded path. -/
def ExpandTarget.text : ExpandTarget → String
  | .star => "*"
  | .path start steps => pathText start (Resource.texts steps)

/-- What is written behind an expanded path. -/
def ExpandForm.text : ExpandForm → String
  | .entities => ""
  | .references => "/$ref"
  | .number => "/$count"

/-- Options that are written one by one, in the order of their kinds. -/
def writtenOptions (separator : String) (texts : List (OptionKind × String)) : String :=
  separator.intercalate (OptionKind.all.filterMap fun kind =>
    (texts.lookup kind).map fun text => kind.name ++ "=" ++ text)

mutual

/-- The text of a value. -/
def OptionValue.text : OptionValue → String
  | .filter e => e.text
  | .expand items => commaJoined (ExpandItem.texts items)
  | .select items => commaJoined (items.map SelectItem.text)
  | .orderBy items => commaJoined (items.map OrderItem.text)
  | .top n => toString n
  | .skip n => toString n
  | .count wanted => if wanted then "true" else "false"
  | .search e => e.text
  | .format f => f.text
  | .id text => text
  | .skipToken text => text
  | .levels l => l.text
termination_by structural v => v

/-- The text of the value of an option. -/
def SystemOption.valueText : SystemOption → String
  | ⟨_, value⟩ => value.text
termination_by structural o => o

/-- The kinds of options with the texts of their values. -/
def SystemOption.valueTexts : List SystemOption → List (OptionKind × String)
  | [] => []
  | o :: os => (o.kind, o.valueText) :: SystemOption.valueTexts os
termination_by structural os => os

/-- The text of an item; its options stand in parentheses. -/
def ExpandItem.text : ExpandItem → String
  | ⟨target, form, options⟩ =>
    let nested :=
      if options.isEmpty then ""
      else "(" ++ writtenOptions ";" (SystemOption.valueTexts options) ++ ")"
    target.text ++ form.text ++ nested
termination_by structural i => i

/-- The texts of items. -/
def ExpandItem.texts : List ExpandItem → List String
  | [] => []
  | i :: is => i.text :: ExpandItem.texts is
termination_by structural is => is

end

/-- Options as a query string that is not percent-encoded. -/
def queryText (options : List SystemOption) : String :=
  writtenOptions "&" (SystemOption.valueTexts options)

end ODataRequest
