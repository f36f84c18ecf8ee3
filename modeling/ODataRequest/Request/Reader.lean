import ODataRequest.Query.Reader
import ODataRequest.Request.Basic
import ODataRequest.Text.Percent

/-!
# ODataRequest.Request.Reader

Reading a request: a path relative to the service root, a query and a fragment. The query is cut
into its options first; the path is resolved next, from left to right; the system query options are
then read against the type the path leads to.
-/

namespace ODataRequest

/-- Undo the percent encoding of a text. -/
def decoded (text : String) : Except GrammarError String :=
  match Text.percentDecode? text with
  | some s => .ok s
  | none => .error (.malformedEscape text)

/-! ### Query -/

/-- The options of a query by what they are. Their values are still texts. -/
structure QueryParts where
  system : List (OptionKind × String)
  aliases : List (String × String)
  custom : List (String × String)

namespace QueryParts

/-- No options. -/
def empty : QueryParts :=
  ⟨[], [], []⟩

/-- Add an option. No alias and no system query option may be given twice. -/
def add (config : Config) (q : QueryParts) (name text : String) :
    Except GrammarError QueryParts := do
  if name.toList.head? = some '@' then
    if (q.aliases.lookup name).isSome then throw (.repeatedAlias name)
    return { q with aliases := q.aliases ++ [(name, text)] }
  match ← optionKind? config name with
  | none => return { q with custom := q.custom ++ [(name, text)] }
  | some .levels => throw (.levelsNotAllowed name)
  | some kind =>
    if (q.system.lookup kind).isSome then throw (.repeatedOption kind.name)
    return { q with system := q.system ++ [(kind, text)] }

/-- Add an option in the form in which it stands in the query; one without an equals sign has the
empty text. -/
def addPair (config : Config) (q : QueryParts) (pair : List Char) :
    Except GrammarError QueryParts := do
  let (name, text) := (Text.cutAt? '=' pair).getD (pair, [])
  let name ← decoded (String.ofList name)
  let text ← decoded (String.ofList text)
  q.add config name text

/-- Cut a query into its options. -/
def ofQuery (config : Config) (query : String) : Except GrammarError QueryParts :=
  ((Text.pieces '&' query.toList).filter (· ≠ [])).foldlM (addPair config) empty

end QueryParts

/-- Aliases in ascending order of their names. -/
def ascendingByName (aliases : List (String × String)) : List (String × String) :=
  aliases.mergeSort fun a b => decide (a.1 ≤ b.1)

/-! ### Path -/

/-- An address that no segment may follow. -/
def aloneAddress (address : Address) : List String → Except GrammarError Address
  | [] => .ok address
  | next :: _ => .error (.notLast next)

/-- A cast that may follow all entities or an entity that is given by its id. -/
def trailingCast : List String → Resolution (Option EntityType)
  | [] => return none
  | [cast] => do
    let type ← Resolution.answerTo (.entityType (← requireName cast))
    return some (← Resolution.require (.unknownType cast) type)
  | _ :: next :: _ => Resolution.refuse (.notLast next)

/-- The name of an entity set of a container. -/
def joinedName (container : Container) : TokenReader String := do
  let name := (← TokenReader.expect .identifier).text
  let _ ← Resolution.require (.resourceNotFound name) (container.entitySet? name)
  return name

/-- Read a cross join, `$crossjoin(name,...)`. -/
def crossJoin : TokenReader Address := do
  if (← TokenReader.next).text ≠ "$crossjoin" then TokenReader.malformed
  let _ ← TokenReader.expect .openParen
  let container ← requireContainer
  let sets ← TokenReader.commaSeparated (joinedName container)
  let _ ← TokenReader.expect .closeParen
  return .crossJoin sets

/-- The address of a path, given by its segments. -/
def addressOf (aliases : AliasTable) (segments : List String) : Resolution Address :=
  match segments with
  | [] => return .service
  | first :: rest =>
    if first.isEmpty then
      if rest.isEmpty then return .service
      else Resolution.refuse (.malformed ("/".intercalate segments))
    else if first = "$metadata" then Resolution.ofGrammar (aloneAddress .metadata rest)
    else if first = "$batch" then Resolution.ofGrammar (aloneAddress .batch rest)
    else if first = "$all" then return .all (← trailingCast rest)
    else if first = "$entity" then return .entityId (← trailingCast rest)
    else if "$crossjoin".toList.isPrefixOf first.toList then
      match rest with
      | [] => TokenReader.readAll crossJoin first
      | next :: _ => Resolution.refuse (.notLast next)
    else if first.toList.head? = some '$' then Resolution.refuse (.malformed first)
    else return .resource (← resourcePath aliases first rest)

/-- The segments of a path, decoded. Slashes in front are passed over. -/
def pathSegments (path : String) : Except GrammarError (List String) :=
  (Text.splitTopLevel '/' (path.toList.dropWhile (· == '/'))).mapM fun segment =>
    decoded (String.ofList segment)

/-! ### Request -/

/-- An entity that is given by its id needs one. -/
def requireId (address : Address) (options : List SystemOption) : Except GrammarError Unit :=
  match address with
  | .entityId _ =>
    if (SystemOption.find? options .id).isSome then .ok ()
    else .error (OptionKind.id.wrongValue "")
  | _ => .ok ()

/-- Read a request. -/
def Request.read (config : Config) (path : String) (query fragment : Option String) :
    Resolution Request := do
  let parts ← Resolution.ofGrammar (QueryParts.ofQuery config (query.getD ""))
  let aliases := ascendingByName parts.aliases
  let segments ← Resolution.ofGrammar (pathSegments path)
  let address ← addressOf aliases segments
  let scope : Scope :=
    { aliases, joined := address.joined, it := address.target?, bound := [] }
  let options ← parts.system.mapM (systemOption config scope)
  Resolution.ofGrammar (requireId address options)
  return { address, fragment, options, customOptions := parts.custom, aliases }

end ODataRequest
