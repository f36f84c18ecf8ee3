import ODataRequest.Request.Basic

/-!
# ODataRequest.Request.Validation

Which options and which HTTP method a request may have. A request has one of twenty shapes by what
it addresses, and each shape has its system query options. The method is checked first. Options
come with `GET`; with other methods only an action that is invoked may have them, and a reference
that is deleted from a collection is named by `$id`.
-/

namespace ODataRequest

/-! ### Methods and errors -/

/-- An HTTP method. -/
inductive HttpMethod where
  | get
  | post
  | put
  | patch
  | delete
  | other (text : String)
deriving DecidableEq, Repr

namespace HttpMethod

/-- The text of a method. -/
def text : HttpMethod → String
  | .get => "GET"
  | .post => "POST"
  | .put => "PUT"
  | .patch => "PATCH"
  | .delete => "DELETE"
  | .other text => text

/-- The method of a text; capitals matter. -/
def ofText (text : String) : HttpMethod :=
  let known : List HttpMethod := [.get, .post, .put, .patch, .delete]
  (known.find? (·.text == text)).getD (.other text)

end HttpMethod

/-- Why a request is not valid with a method. -/
inductive ValidationError where
  | unsupportedMethod (method : HttpMethod)
  | optionNotAllowedForMethod (option : OptionKind) (method : HttpMethod)
  | optionNotAllowed (option : OptionKind)
deriving DecidableEq, Repr

namespace ValidationError

/-- The code of a validation error. -/
def code : ValidationError → String
  | .unsupportedMethod _ => "UNSUPPORTED_HTTP_METHOD"
  | .optionNotAllowedForMethod _ _ => "SYSTEM_QUERY_OPTION_NOT_ALLOWED_FOR_HTTP_METHOD"
  | .optionNotAllowed _ => "SYSTEM_QUERY_OPTION_NOT_ALLOWED"

/-- The texts that a validation error is about. -/
def parameters : ValidationError → List String
  | .unsupportedMethod method => [method.text]
  | .optionNotAllowedForMethod option method => [option.name, method.text]
  | .optionNotAllowed option => [option.name]

/-- The wording of a validation error. -/
def message (e : ValidationError) : String :=
  codedMessage e.code e.parameters

/-- The status code to answer with. -/
def status : ValidationError → Nat
  | .unsupportedMethod _ => 405
  | _ => 400

end ValidationError

/-! ### Shapes -/

/-- What a request addresses, as far as it decides about options. -/
inductive RequestShape where
  | all
  | batch
  | crossJoin
  | entityId
  | metadata
  | service
  | entitySet
  | entitySetCount
  | entity
  | mediaStream
  | references
  | reference
  | complex
  | complexCollection
  | complexCollectionCount
  | primitive
  | primitiveCollection
  | primitiveCollectionCount
  | primitiveValue
  | none
deriving DecidableEq, Repr

namespace RequestShape

/-- All shapes. -/
def everything : List RequestShape :=
  [.all, .batch, .crossJoin, .entityId, .metadata, .service, .entitySet, .entitySetCount, .entity,
    .mediaStream, .references, .reference, .complex, .complexCollection, .complexCollectionCount,
    .primitive, .primitiveCollection, .primitiveCollectionCount, .primitiveValue, .none]

/-- The options that a shape may have. `$levels` stands in expanded items only. -/
def options : RequestShape → List OptionKind
  | .all | .crossJoin | .entitySet =>
    [.filter, .expand, .select, .orderBy, .top, .skip, .count, .search, .format, .skipToken]
  | .entityId => [.expand, .select, .format, .id]
  | .entity | .complex => [.expand, .select, .format]
  | .references => [.filter, .orderBy, .top, .skip, .count, .search, .format, .id, .skipToken]
  | .complexCollection =>
    [.filter, .expand, .select, .orderBy, .top, .skip, .count, .format, .skipToken]
  | .primitiveCollection => [.filter, .orderBy, .top, .skip, .count, .format, .skipToken]
  | .entitySetCount | .complexCollectionCount => [.filter, .search]
  | .primitiveCollectionCount => [.filter]
  | .metadata | .service | .reference | .primitive | .primitiveValue | .none => [.format]
  | .batch | .mediaStream => []

/-- May a shape have an option? -/
def allows (shape : RequestShape) (option : OptionKind) : Bool :=
  shape.options.contains option

/-- Is it the number of members of a collection? -/
def isCount : RequestShape → Bool
  | .entitySetCount | .complexCollectionCount | .primitiveCollectionCount => true
  | _ => false

/-- The shape of a value or a collection of a type. -/
def ofType : Option ModelType → Bool → RequestShape
  | .none, _ => .none
  | some (.entity _), true => .entitySet
  | some (.entity _), false => .entity
  | some (.complex _), true => .complexCollection
  | some (.complex _), false => .complex
  | some _, true => .primitiveCollection
  | some _, false => .primitive

/-- The shape of the number of members of a collection. -/
def ofCount : Option ModelType → RequestShape
  | .none => .none
  | some (.entity _) => .entitySetCount
  | some (.complex _) => .complexCollectionCount
  | some _ => .primitiveCollectionCount

/-- The shape of a path, given backwards: the last resource decides, or, where it is an aspect of
the one before it, that one. -/
def ofPath : List Resource → RequestShape
  | [] => .none
  | .count :: earlier => ofCount (earlier.head?.bind Resource.type?)
  | .ref :: earlier => if earlier.head?.any Resource.isCollection then .references else .reference
  | .value :: earlier =>
    if (earlier.head?.bind Resource.type?).any ModelType.isEntity then .mediaStream
    else .primitiveValue
  | .it _ :: _ | .lambdaVariable _ _ :: _ | .lambda _ _ _ :: _ | .notEmpty :: _ => .none
  | last :: _ => ofType last.type? last.isCollection

/-- The shape of a request. -/
def ofAddress : Address → RequestShape
  | .all _ => .all
  | .batch => .batch
  | .crossJoin _ => .crossJoin
  | .entityId _ => .entityId
  | .metadata => .metadata
  | .service => .service
  | .resource path => ofPath path.reverse

end RequestShape

namespace Request

/-- The shape of a request. -/
def shape (r : Request) : RequestShape :=
  .ofAddress r.address

/-! ### Methods -/

/-- Is `GET` the only method that the request may have? -/
def onlyRead (r : Request) : Bool :=
  match r.address with
  | .metadata | .all _ | .crossJoin _ | .entityId _ => true
  | .batch | .service | .resource _ => r.shape.isCount

/-- Does a method change a property in a way the property does not allow? A collection cannot be
patched, and a value that has to be there cannot be deleted. -/
def forbidsChange (method : HttpMethod) : List Resource → Bool
  | .value :: .property p _ _ :: _ => method == .delete && !p.nullable
  | .property p _ _ :: _ =>
    (method == .patch && p.type.isCollection) || (method == .delete && !p.nullable)
  | _ => false

/-- Can the method be applied to what is addressed? -/
def supports (r : Request) (method : HttpMethod) : Bool :=
  match method with
  | .other _ => false
  | _ =>
    let isBatch := match r.address with
      | .batch => true
      | _ => false
    !(isBatch && method != .post) && !(r.onlyRead && method != .get) &&
      !forbidsChange method r.address.path.reverse

/-! ### Options -/

/-- The kinds of options that are given. -/
def optionKinds (r : Request) : List OptionKind :=
  (SystemOption.kinds r.options).filter (· ≠ .levels)

/-- Is the last resource an action? -/
def invokesAction (r : Request) : Bool :=
  match r.lastResource? with
  | some (.action _ _ _) => true
  | _ => false

/-- The first option that may not come with the method. -/
def optionAgainstMethod? (r : Request) (method : HttpMethod) : Option OptionKind :=
  let kinds := r.optionKinds
  if method = .get then
    if r.shape = .references ∧ kinds.contains .id then some .id else none
  else if method = .post ∧ r.invokesAction then none
  else if method = .delete ∧ r.shape = .references ∧ kinds = [.id] then none
  else kinds.head?

/-- Check a request with a method. -/
def validate (r : Request) (method : HttpMethod) : Except ValidationError Unit :=
  if !r.supports method then .error (.unsupportedMethod method)
  else
    match r.optionAgainstMethod? method with
    | some option => .error (.optionNotAllowedForMethod option method)
    | none =>
      match r.optionKinds.find? (!r.shape.allows ·) with
      | some option => .error (.optionNotAllowed option)
      | none => .ok ()

end Request

end ODataRequest
