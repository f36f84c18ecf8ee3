import ODataRequest.Query.Basic

/-!
# ODataRequest.Request.Basic

Requests that are resolved against a model: what they address, their system query options, their
other options, and their parameter aliases.
-/

namespace ODataRequest

/-- What a request addresses. Only all entities, and an entity that is given by its id, can be cast
without a path. -/
inductive Address where
  | service
  | metadata
  | batch
  | all (cast : Option EntityType)
  | entityId (cast : Option EntityType)
  | crossJoin (sets : List String)
  | resource (path : List Resource)

namespace Address

/-- The path to a resource. -/
def path : Address → List Resource
  | .resource path => path
  | _ => []

/-- The cast of all entities or of an entity that is given by its id. -/
def cast? : Address → Option EntityType
  | .all cast => cast
  | .entityId cast => cast
  | _ => none

/-- The entity sets of a cross join. -/
def joined : Address → List String
  | .crossJoin sets => sets
  | _ => []

/-- Is a resource one that options look behind: a number, a reference or a value? -/
def isAspect : Resource → Bool
  | .count | .ref | .value => true
  | _ => false

/-- The type that options are read against. -/
def target? : Address → Option ModelType
  | .resource path => (path.reverse.find? (!isAspect ·)).bind Resource.type?
  | .all cast => cast.map .entity
  | .entityId cast => cast.map .entity
  | _ => none

end Address

/-- A request. Parameter aliases stand in ascending order of their names, all other options in the
order of the request. -/
structure Request where
  address : Address
  fragment : Option String
  options : List SystemOption
  customOptions : List (String × String)
  aliases : List (String × String)

/-- The last resource of a request. -/
def Request.lastResource? (r : Request) : Option Resource :=
  r.address.path.getLast?

end ODataRequest
