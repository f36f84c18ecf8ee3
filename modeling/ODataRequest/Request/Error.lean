import ODataRequest.Directory.Error

/-!
# ODataRequest.Request.Error

Why a request is refused. A grammar error means that the text is no request; a semantic error means
that the text cannot be resolved against the model; a directory error is a defect of the model or a
failure of its source that was met on the way.

Each grammar error and each semantic error has a code of a closed set and the offending texts as
parameters; its wording is made of the two.
-/

namespace ODataRequest

/-- The wording of a coded error. -/
def codedMessage (code : String) (parameters : List String) : String :=
  if parameters.isEmpty then code else code ++ ": " ++ ", ".intercalate parameters

/-! ### Grammar errors -/

/-- A text that does not match the grammar of requests. -/
inductive GrammarError where
  | malformed (text : String)
  | malformedSearch (text : String)
  | unknownOption (name : String)
  | repeatedOption (name : String)
  | wrongOptionValue (name text : String)
  | levelsNotAllowed (name : String)
  | notLast (segment : String)
  | repeatedAlias (name : String)
  | tooDeeplyNested (found : String)
  | malformedEscape (text : String)
deriving DecidableEq, Repr

namespace GrammarError

/-- The code of a grammar error. -/
def code : GrammarError → String
  | .malformed _ => "SYNTAX"
  | .malformedSearch _ => "SYNTAX"
  | .unknownOption _ => "UNKNOWN_SYSTEM_QUERY_OPTION"
  | .repeatedOption _ => "DOUBLE_SYSTEM_QUERY_OPTION"
  | .wrongOptionValue _ _ => "WRONG_VALUE_FOR_SYSTEM_QUERY_OPTION"
  | .levelsNotAllowed _ => "SYSTEM_QUERY_OPTION_LEVELS_NOT_ALLOWED_HERE"
  | .notLast _ => "MUST_BE_LAST_SEGMENT"
  | .repeatedAlias _ => "DUPLICATED_ALIAS"
  | .tooDeeplyNested _ => "TOO_DEEPLY_NESTED"
  | .malformedEscape _ => "WRONG_PERCENT_ENCODING"

/-- The texts that a grammar error is about. -/
def parameters : GrammarError → List String
  | .malformed text => [text]
  | .malformedSearch text => ["$search", text]
  | .unknownOption name => [name]
  | .repeatedOption name => [name]
  | .wrongOptionValue name text => [name, text]
  | .levelsNotAllowed name => [name]
  | .notLast segment => [segment]
  | .repeatedAlias name => [name]
  | .tooDeeplyNested found => [found]
  | .malformedEscape text => [text]

/-- The wording of a grammar error. -/
def message (e : GrammarError) : String :=
  codedMessage e.code e.parameters

end GrammarError

/-! ### Semantic errors -/

/-- A text that the model gives no meaning. -/
inductive SemanticError where
  | resourceNotFound (name : String)
  | propertyNotInType (type name : String)
  | propertyAfterCollection (owner name : String)
  | expressionPropertyNotInType (type name : String)
  | unknownType (name : String)
  | incompatibleCast (cast type : String)
  | repeatedCast (cast : String)
  | functionNotFound (name : String)
  | actionNotFound (name : String)
  | keyNotAllowed (name : String)
  | invalidKey (name : String)
  | invalidKeyValue (name text : String)
  | repeatedKey (name : String)
  | wrongNumberOfKeys (type : String)
  | notMedia (segment : String)
  | onlyForTypedParts (segment : String)
  | onlyForCollections (segment : String)
  | onlyForStructuredTypes (segment : String)
  | onlyForPrimitiveTypes (segment : String)
  | onlyForEntityTypes (segment : String)
  | typeMismatch (place : String) (found : List String)
  | unknownAlias (name : String)
  | unknownPart (name : String)
deriving DecidableEq, Repr

namespace SemanticError

/-- The code of a semantic error. -/
def code : SemanticError → String
  | .resourceNotFound _ => "RESOURCE_NOT_FOUND"
  | .propertyNotInType _ _ => "PROPERTY_NOT_IN_TYPE"
  | .propertyAfterCollection _ _ => "PROPERTY_AFTER_COLLECTION"
  | .expressionPropertyNotInType _ _ => "EXPRESSION_PROPERTY_NOT_IN_TYPE"
  | .unknownType _ => "UNKNOWN_TYPE"
  | .incompatibleCast _ _ => "INCOMPATIBLE_TYPE_FILTER"
  | .repeatedCast _ => "TYPE_FILTER_NOT_CHAINABLE"
  | .functionNotFound _ => "FUNCTION_NOT_FOUND"
  | .actionNotFound _ => "ACTION_NOT_FOUND"
  | .keyNotAllowed _ => "KEY_NOT_ALLOWED"
  | .invalidKey _ => "INVALID_KEY_PROPERTY"
  | .invalidKeyValue _ _ => "INVALID_KEY_PROPERTY"
  | .repeatedKey _ => "DOUBLE_KEY_PROPERTY"
  | .wrongNumberOfKeys _ => "WRONG_NUMBER_OF_KEY_PROPERTIES"
  | .notMedia _ => "NOT_A_MEDIA_RESOURCE"
  | .onlyForTypedParts _ => "ONLY_FOR_TYPED_PARTS"
  | .onlyForCollections _ => "ONLY_FOR_COLLECTIONS"
  | .onlyForStructuredTypes _ => "ONLY_FOR_STRUCTURAL_TYPES"
  | .onlyForPrimitiveTypes _ => "ONLY_FOR_PRIMITIVE_TYPES"
  | .onlyForEntityTypes _ => "ONLY_FOR_ENTITY_TYPES"
  | .typeMismatch _ _ => "TYPE_MISMATCH"
  | .unknownAlias _ => "UNKNOWN_ALIAS"
  | .unknownPart _ => "UNKNOWN_PART"

/-- The texts that a semantic error is about. -/
def parameters : SemanticError → List String
  | .resourceNotFound name => [name]
  | .propertyNotInType type name => [type, name]
  | .propertyAfterCollection owner name => [owner, name]
  | .expressionPropertyNotInType type name => [type, name]
  | .unknownType name => [name]
  | .incompatibleCast cast type => [cast, type]
  | .repeatedCast cast => [cast]
  | .functionNotFound name => [name]
  | .actionNotFound name => [name]
  | .keyNotAllowed name => [name]
  | .invalidKey name => [name]
  | .invalidKeyValue name text => [name, text]
  | .repeatedKey name => [name]
  | .wrongNumberOfKeys type => [type]
  | .notMedia segment => [segment]
  | .onlyForTypedParts segment => [segment]
  | .onlyForCollections segment => [segment]
  | .onlyForStructuredTypes segment => [segment]
  | .onlyForPrimitiveTypes segment => [segment]
  | .onlyForEntityTypes segment => [segment]
  | .typeMismatch place found => place :: found
  | .unknownAlias name => [name]
  | .unknownPart name => [name]

/-- The wording of a semantic error. -/
def message (e : SemanticError) : String :=
  codedMessage e.code e.parameters

end SemanticError

/-! ### Any error -/

/-- Why a request is refused. -/
inductive RequestError where
  | grammar (error : GrammarError)
  | semantic (error : SemanticError)
  | directory (error : DirectoryError)
deriving DecidableEq

namespace RequestError

/-- The status code to answer with: a resource that is unknown is not found, any other fault of the
request is a bad request, and a fault of the model is one of the server. -/
def status : RequestError → Nat
  | .grammar _ => 400
  | .semantic (.resourceNotFound _) => 404
  | .semantic _ => 400
  | .directory _ => 500

/-- The wording of an error. -/
def message : RequestError → String
  | .grammar e => "syntax error: " ++ e.message
  | .semantic e => "semantic error: " ++ e.message
  | .directory e => "schema error: " ++ e.message

end RequestError

end ODataRequest
