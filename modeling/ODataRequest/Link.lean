import ODataRequest.Request.Reader

/-!
# ODataRequest.Link

Links to entities: the canonical URL of an entity, which is the key of the entity behind the name
of its entity set, and the way back from an entity id to the entity set and the key.
-/

namespace ODataRequest

/-! ### Writing -/

/-- Why a URL cannot be built. -/
inductive UrlError where
  | missingKey (name : String)
  | directory (error : DirectoryError)
  | contradiction (reason : String)
deriving DecidableEq

/-- The wording of a URL error. -/
def UrlError.message : UrlError → String
  | .missingKey name => "missing value for key property " ++ name
  | .directory e => "edm error: " ++ e.message
  | .contradiction reason => "invalid context URL: " ++ reason

/-- The values of a key by the names of the key properties. -/
abbrev EntityKey := List (String × PrimitiveValue)

/-- A key property with its value; its name is left out if it is the only one. -/
def keyPart (key : EntityKey) (named : Bool) (k : KeyProperty) : Except UrlError String :=
  match key.lookup k.name with
  | none => .error (.missingKey k.name)
  | some value =>
    let text := Text.percentEncode value.literal
    .ok (if named then Text.percentEncode k.name ++ "=" ++ text else text)

/-- The key of an entity without parentheses, its properties in the order of the declaration. -/
def keyPredicateText (type : EntityType) (key : EntityKey) : Except UrlError String := do
  return commaJoined (← type.keys.mapM (keyPart key (type.keys.length > 1)))

/-- The canonical URL of an entity, relative to the service root. -/
def canonicalUrl (set : EntitySet) (key : EntityKey) :
    ExceptT UrlError (StateM Directory) String := do
  match ← ExceptT.adapt UrlError.directory (entityType set.entityType) with
  | none => throw (.directory (.unresolvedType set.entityType))
  | some type =>
    match keyPredicateText type key with
    | .ok text => return Text.percentEncode set.name.text ++ "(" ++ text ++ ")"
    | .error e => throw e

/-! ### Reading -/

/-- An entity id that leads to no entity set; `cause` is there if it is no request at all. -/
structure LinkError where
  id : String
  cause : Option RequestError
deriving DecidableEq

namespace LinkError

/-- The code of a link error. -/
def code : String :=
  "INVALID_ENTITY_BINDING_LINK"

/-- The texts that a link error is about. -/
def parameters (e : LinkError) : List String :=
  [e.id]

/-- The status code to answer with. -/
def status : Nat :=
  400

/-- The wording of a link error, that of its cause on a line of its own. -/
def message (e : LinkError) : String :=
  codedMessage code e.parameters ++
    match e.cause with
    | some cause => "\n" ++ cause.message
    | none => ""

end LinkError

/-- The path of an entity id behind the service root, without slashes in front. -/
def entityIdPath (root : Option String) (id : String) : String :=
  let path := (root.bind fun root => Text.behind? root.toList id.toList).getD id.toList
  String.ofList (path.dropWhile (· == '/'))

/-- The resource of a request that addresses an entity set and nothing behind it. -/
def entitySetOf? (r : Request) : Option Resource :=
  match r.address.path with
  | [.entitySet set type keys casts] => some (.entitySet set type keys casts)
  | _ => none

/-- Read an entity id: the entity set, with the key, that it leads to. -/
def readEntityId (root : Option String) (id : String) :
    ExceptT LinkError (StateM Directory) Resource := do
  match ← modifyGet (Request.read .standard (entityIdPath root id) none none).runOn with
  | .error e => throw ⟨id, some e⟩
  | .ok r =>
    match entitySetOf? r with
    | some resource => return resource
    | none => throw ⟨id, none⟩

end ODataRequest
