import ODataRequest.Path.Key
import ODataRequest.Path.Step

/-!
# ODataRequest.Path.Resource

Paths to resources. The first segment is looked up in the default container or names an unbound
operation; each further segment is resolved against what the segments before it lead to. A cast
narrows the last resource and adds none.
-/

namespace ODataRequest

/-! ### Operations -/

/-- A call of an action as a resource. -/
def actionResource (a : Action) (byImport : Option Csdl.ActionImport) : Resolution Resource := do
  return .action a byImport (← a.returnType.mapM fun r => requireType r.type.name)

/-- A call of a function as a resource; its result may have a key if it is a collection of
entities. -/
def functionResource (aliases : AliasTable) (f : Function)
    (byImport : Option Csdl.FunctionImport) (raw : List (String × Token)) :
    TokenReader Resource := do
  let arguments ← argumentsOf f raw
  let returnType ← requireType f.returnType.type.name
  let keys ←
    if ← TokenReader.sees .openParen then
      match returnType with
      | .entity type =>
        if f.returnType.type.isCollection then key aliases type
        else Resolution.reject (.keyNotAllowed f.name.text)
      | _ => Resolution.reject (.keyNotAllowed f.name.text)
    else pure []
  return .function f byImport arguments returnType keys Casts.none

/-- An unbound function if arguments follow, or else an unbound action. -/
def unboundOperation (aliases : AliasTable) (text : String) : TokenReader Resource := do
  let name ← requireName text
  if ← TokenReader.sees .openParen then
    let raw ← rawArguments
    let f ← Resolution.require (.resourceNotFound text)
      (← Resolution.answerTo (.unboundFunction name (raw.map (·.1))))
    functionResource aliases f none raw
  else
    let a ← Resolution.require (.resourceNotFound text)
      (← Resolution.answerTo (.unboundAction name))
    actionResource a none

/-- A function bound to what has been reached if arguments follow, or else an action bound to it. -/
def boundOperation (aliases : AliasTable) (name : QualifiedName) (binding : Binding) :
    TokenReader Resource := do
  if ← TokenReader.sees .openParen then
    let raw ← rawArguments
    let f ← Resolution.require (.functionNotFound name.text)
      (← Resolution.answerTo (.boundFunction name binding (raw.map (·.1))))
    functionResource aliases f none raw
  else
    let a ← Resolution.require (.actionNotFound name.text)
      (← Resolution.answerTo (.boundAction name binding))
    actionResource a none

/-! ### First segment -/

/-- An entity set as a resource, with a key if one follows. -/
def entitySetResource (aliases : AliasTable) (set : EntitySet) : TokenReader Resource := do
  let type ← requireEntityType set.entityType
  let keys ← if ← TokenReader.sees .openParen then key aliases type else pure []
  return .entitySet set type keys Casts.none

/-- A singleton as a resource. -/
def singletonResource (single : Singleton) : Resolution Resource := do
  return .singleton single (← requireEntityType single.entityType) none

/-- The element of a container that a name stands for: an entity set, a singleton, an action import
or a function import, in this order. -/
def containerResource (aliases : AliasTable) (container : Container) (name : String) :
    TokenReader Resource := do
  if let some set := container.entitySet? name then
    entitySetResource aliases set
  else if let some single := container.singleton? name then
    if ← TokenReader.sees .openParen then Resolution.reject (.keyNotAllowed name)
    else singletonResource single
  else if let some byImport := container.actionImport? name then
    let a ← Resolution.require (.actionNotFound name)
      (← Resolution.answerTo (.unboundAction byImport.action))
    if ← TokenReader.skips .openParen then
      let _ ← TokenReader.expect .closeParen
    actionResource a (some byImport)
  else if let some byImport := container.functionImport? name then
    let raw ← rawArguments
    let f ← Resolution.require (.functionNotFound name)
      (← Resolution.answerTo (.unboundFunction byImport.function (raw.map (·.1))))
    functionResource aliases f (some byImport) raw
  else Resolution.reject (.resourceNotFound name)

/-- Is a name a qualified one? -/
def isQualified (name : String) : Bool :=
  name.toList.contains '.'

/-- Read the first segment of a path. -/
def firstSegment (aliases : AliasTable) : TokenReader Resource := do
  let name := (← TokenReader.expect .identifier).text
  if isQualified name then unboundOperation aliases name
  else containerResource aliases (← requireContainer) name

/-! ### Further segments -/

/-- What a segment does to a path: it narrows the last resource or adds one. -/
inductive SegmentEffect where
  | narrow (last : Resource)
  | add (next : Resource)

/-- The step for a segment with a dollar sign. -/
def dollarSegment (previous : Resource) (name : String) : Resolution Resource :=
  let segment := previous.segment
  if name = "$count" then
    if previous.isCollection then return .count
    else Resolution.reject (.onlyForCollections segment)
  else if name = "$ref" then
    if previous.type?.any ModelType.isEntity then return .ref
    else Resolution.reject (.onlyForEntityTypes segment)
  else if name = "$value" then
    match previous.isCollection, previous.type? with
    | false, some (.entity type) =>
      if type.hasStream then return .value else Resolution.reject (.notMedia segment)
    | false, some (.primitive _) | false, some (.enumeration _) | false, some (.definition _) =>
      return .value
    | _, _ => Resolution.reject (.onlyForPrimitiveTypes segment)
  else Resolution.refuse (.malformed name)

/-- Narrow a resource by a cast; a collection may have a key behind the cast. -/
def castSegment (aliases : AliasTable) (previous : Resource) (name : String) (type : ModelType) :
    TokenReader Resource := do
  let narrowed ← Resolution.ofSemantic (previous.cast type)
  if ← TokenReader.sees .openParen then
    match type with
    | .entity entity =>
      if previous.isCollection && previous.takesKey then
        return narrowed.withKeys (← key aliases entity)
      else Resolution.reject (.keyNotAllowed name)
    | _ => Resolution.reject (.keyNotAllowed name)
  else return narrowed

/-- The effect of a segment with a qualified name: a cast, or a bound operation. -/
def qualifiedSegment (aliases : AliasTable) (previous : Resource) (text : String) :
    TokenReader SegmentEffect := do
  let name ← requireName text
  let owner ← Resolution.require (.onlyForTypedParts previous.segment) previous.type?
  match ← Resolution.answerTo (.type name) with
  | some type => return .narrow (← castSegment aliases previous text type)
  | none => return .add (← boundOperation aliases name ⟨owner.name, previous.isCollection⟩)

/-- The step for a segment with the name of a property. -/
def propertySegment (aliases : AliasTable) (previous : Resource) (name : String) :
    TokenReader Resource := do
  let type ← Resolution.require (.onlyForTypedParts previous.segment) previous.type?
  let owner ← Resolution.require (.onlyForStructuredTypes previous.segment) type.structured?
  if previous.isCollection then
    Resolution.reject (.propertyAfterCollection previous.segment name)
  let resource ← Resolution.require (.propertyNotInType owner.name.text name)
    (← propertyResource owner name)
  if ← TokenReader.sees .openParen then
    match resource with
    | .navigation p target _ casts =>
      if p.type.isCollection then return .navigation p target (← key aliases target) casts
      else Resolution.reject (.keyNotAllowed name)
    | _ => Resolution.reject (.keyNotAllowed name)
  else return resource

/-- May a segment that starts with the given kind of token follow a resource? Nothing follows a
number, a value, a reference or an action, and only a segment with a dollar sign follows a function
that is not composable. -/
def mayFollow (previous : Resource) (kind : TokenKind) : Bool :=
  match previous with
  | .count | .value | .ref | .action _ _ _ => false
  | .function f _ _ _ _ _ => f.isComposable || kind == .dollar
  | _ => true

/-- Read a segment behind the first one. -/
def nextSegment (aliases : AliasTable) (previous : Resource) : TokenReader SegmentEffect := do
  let t ← TokenReader.next
  if !mayFollow previous t.kind then Resolution.refuse (.notLast t.text)
  match t.kind with
  | .dollar => return .add (← dollarSegment previous t.text)
  | .identifier =>
    if isQualified t.text then qualifiedSegment aliases previous t.text
    else return .add (← propertySegment aliases previous t.text)
  | _ => TokenReader.malformed

/-- Follow the segments behind `last`; an empty one at the end is passed over. -/
def followSegments (aliases : AliasTable) :
    (last : Resource) → (earlier : List Resource) → List String → Resolution (List Resource)
  | last, earlier, [] => return (last :: earlier).reverse
  | last, earlier, segment :: segments => do
    if segment.isEmpty && segments.isEmpty then return (last :: earlier).reverse
    match ← TokenReader.readAll (nextSegment aliases last) segment with
    | .narrow last => followSegments aliases last earlier segments
    | .add next => followSegments aliases next (last :: earlier) segments

/-- The resources that the segments of a path lead to. -/
def resourcePath (aliases : AliasTable) (first : String) (segments : List String) :
    Resolution (List Resource) := do
  let resource ← TokenReader.readAll (firstSegment aliases) first
  followSegments aliases resource [] segments

end ODataRequest
