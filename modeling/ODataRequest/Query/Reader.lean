import ODataRequest.Expression.Reader
import ODataRequest.Path.Property
import ODataRequest.Query.Basic
import ODataRequest.Search.Reader
import ODataRequest.Text.TopLevel

/-!
# ODataRequest.Query.Reader

Reading system query options. Every option is read against the type that the request leads to. The
options of an expanded item are read against the type of its navigation property, one level deeper;
the recursion follows the levels that are left (`optionValue`).
-/

namespace ODataRequest

/-- The parts of a text between separators outside of parentheses and quotes. -/
def topLevelParts (separator : Char) (text : String) : List String :=
  (Text.splitTopLevel separator text.toList).map String.ofList

/-- The parts of a text between separators. -/
def parts (separator : Char) (text : String) : List String :=
  (Text.pieces separator text.toList).map String.ofList

/-- A text without blank space at its ends. -/
def trimmed (text : String) : String :=
  String.ofList (Text.trim text.toList)

/-! ### Names -/

/-- The kind of option that a name stands for; `none` for an option that is no system option. -/
def optionKind? (config : Config) (name : String) : Except GrammarError (Option OptionKind) :=
  if name.toList.head? = some '$' then
    match OptionKind.ofName? config.ignoringCase name with
    | some kind => .ok (some kind)
    | none => .error (.unknownOption name)
  else if config.dollarOptional then .ok (OptionKind.ofName? config.ignoringCase ("$" ++ name))
  else .ok none

/-! ### Filter and order -/

/-- Read a condition. -/
def filterCondition (config : Config) (scope : Scope) (text : String) : Resolution Expression := do
  let e ← TokenReader.readAll (expression config scope) text
  requireCondition OptionKind.filter.name e
  return e

/-- Read an expression to order by with its direction. -/
def orderItem (config : Config) (scope : Scope) : TokenReader OrderItem := do
  let e ← expression config scope
  let direction ← TokenReader.peek
  let descending := direction.isWord "desc"
  if descending || direction.isWord "asc" then
    let _ ← TokenReader.next
  return { expression := e, descending }

/-- Read the expressions to order by. -/
def orderItems (config : Config) (scope : Scope) (text : String) : Resolution (List OrderItem) :=
  (topLevelParts ',' text).mapM (TokenReader.readAll (orderItem config scope))

/-! ### Selection -/

/-- Read a selected item. -/
def selectItem (target : Option ModelType) (item : String) : Resolution SelectItem := do
  if item = "*" then return .star
  match Text.before? ".*".toList item.toList with
  | some space =>
    match Namespace.parse (String.ofList space) with
    | .ok space => return .operations space
    | .error _ => Resolution.refuse (.malformed item)
  | none =>
    let target ← Resolution.require (.onlyForTypedParts OptionKind.select.name) target
    let p ← propertyPath target (parts '/' item)
    return .path p.start p.path

/-- Read the selected items. -/
def selectItems (target : Option ModelType) (text : String) : Resolution (List SelectItem) :=
  (topLevelParts ',' text).mapM fun item => selectItem target (trimmed item)

/-! ### Expansion -/

/-- The path of an expanded item and its options, which stand in parentheses up to its end. -/
def splitItem (item : String) : Except GrammarError (String × Option String) :=
  match Text.cutAt? '(' item.toList with
  | none => .ok (item, none)
  | some (head, rest) =>
    match Text.before? [')'] rest with
    | some nested => .ok (String.ofList head, some (String.ofList nested))
    | none => .error (.malformed item)

/-- The segments of an expanded path, and the form that its last segment asks for. -/
def expandForm (segments : List String) : List String × ExpandForm :=
  if segments.getLast? = some "$ref" then (segments.dropLast, .references)
  else if segments.getLast? = some "$count" then (segments.dropLast, .number)
  else (segments, .entities)

/-- Does a path lead through complex properties to a navigation property? -/
def navigates : List Resource → Bool
  | [] => false
  | last :: earlier => last.isNavigation && earlier.all Resource.isComplexProperty

/-- Read what an item expands, and the type of the entities it leads to. -/
def expandTarget (target : Option ModelType) (item head : String) (segments : List String) :
    Resolution (ExpandTarget × Option ModelType) := do
  if segments = ["*"] then return (.star, none)
  let target ← Resolution.require (.onlyForTypedParts OptionKind.expand.name) target
  let p ← propertyPath target segments
  match p.steps with
  | [] => Resolution.refuse (.malformed item)
  | last :: _ =>
    if navigates p.steps then return (.path p.start p.path, last.type?)
    else Resolution.reject (.propertyNotInType target.text head)

/-- May an option stand inside an expanded item? -/
def standsInItem : OptionKind → Bool
  | .format | .id | .skipToken => false
  | _ => true

/-- A reader of the values of options. -/
abbrev OptionReader :=
  Scope → OptionKind → String → Resolution OptionValue

/-- Read an option of an expanded item, `name=value`, behind the options that are read already. -/
def itemOption (config : Config) (nested : OptionReader) (scope : Scope)
    (options : List SystemOption) (text : String) : Resolution (List SystemOption) := do
  match Text.cutAt? '=' text.toList with
  | none => Resolution.refuse (.malformed text)
  | some (name, raw) =>
    let raw := String.ofList raw
    match ← Resolution.ofGrammar (optionKind? config (String.ofList name)) with
    | none => Resolution.refuse (.malformed text)
    | some kind =>
      if !standsInItem kind then Resolution.refuse (.malformed text)
      else if (SystemOption.find? options kind).isSome then
        Resolution.refuse (.repeatedOption kind.name)
      else return options ++ [⟨raw, ← nested scope kind raw⟩]

/-- Read an expanded item. -/
def expandItem (config : Config) (nested : OptionReader) (scope : Scope) (item : String) :
    Resolution ExpandItem := do
  let (head, options) ← Resolution.ofGrammar (splitItem item)
  let (segments, form) := expandForm (parts '/' head)
  let (target, type) ← expandTarget scope.it item head segments
  let texts := (options.map (topLevelParts ';')).getD []
  let inner := { scope with it := type }
  let options ← (texts.filter (· ≠ "")).foldlM (itemOption config nested inner) []
  return ⟨target, form, options⟩

/-- Read the expanded items. -/
def expandItems (config : Config) (nested : OptionReader) (scope : Scope) (text : String) :
    Resolution (List ExpandItem) :=
  (topLevelParts ',' text).mapM fun item => expandItem config nested scope (trimmed item)

/-! ### All options -/

/-- Read an option whose value is any text but the empty one. -/
def nonEmptyText (kind : OptionKind) (text : String) : Resolution String :=
  if text.isEmpty then Resolution.refuse (kind.wrongValue text) else return text

/-- Read the value of an option, with the given reader for the items of an expansion. -/
def optionValueWith (config : Config) (items : Scope → String → Resolution (List ExpandItem)) :
    OptionReader := fun scope kind text =>
  match kind with
  | .filter => do return .filter (← filterCondition config scope text)
  | .orderBy => do return .orderBy (← orderItems config scope text)
  | .select => do return .select (← selectItems scope.it text)
  | .expand => do return .expand (← items scope text)
  | .top => do return .top (← Resolution.ofGrammar (parseNumber .top text))
  | .skip => do return .skip (← Resolution.ofGrammar (parseNumber .skip text))
  | .count => do return .count (← Resolution.ofGrammar (parseCount text))
  | .search => do
    return .search (← Resolution.ofGrammar (SearchExpression.parse config.maxNesting text))
  | .format => do return .format (← Resolution.ofGrammar (Format.parse text))
  | .id => do return .id (← nonEmptyText .id text)
  | .skipToken => do return .skipToken (← nonEmptyText .skipToken text)
  | .levels => do return .levels (← Resolution.ofGrammar (Levels.parse config.maxLevels text))

/-- Read the value of an option, with so many levels of expansion left. -/
def optionValue (config : Config) : Nat → OptionReader
  | 0 => optionValueWith config fun _ text => Resolution.refuse (.tooDeeplyNested text)
  | room + 1 => optionValueWith config (expandItems config (optionValue config room))

/-- Read an option of a request. -/
def systemOption (config : Config) (scope : Scope) (option : OptionKind × String) :
    Resolution SystemOption := do
  return ⟨option.2, ← optionValue config config.maxNesting scope option.1 option.2⟩

end ODataRequest
