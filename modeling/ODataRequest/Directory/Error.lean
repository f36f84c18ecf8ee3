import ODataRequest.Model.Operation

/-!
# ODataRequest.Directory.Error

Failures of the type directory: the source of the schemas refuses an answer, or a schema has a
defect. That an element is absent is no failure. A failure inside an element is reported with the
elements around it, the outermost first.
-/

namespace ODataRequest

/-- Why the directory has no answer. -/
inductive DirectoryError where
  | source (reason : String)
  | duplicateOverload (key : OverloadKey)
  | cyclicBaseType (name : QualifiedName)
  | unresolvedType (name : QualifiedName)
  | unresolvedKeyProperty (path : String)
  | missingBindingParameter (name : QualifiedName)
  | invalidName (error : NameError)
  | inEntityType (name : QualifiedName) (error : DirectoryError)
  | inComplexType (name : QualifiedName) (error : DirectoryError)
  | inOperation (name : QualifiedName) (error : DirectoryError)
deriving DecidableEq

namespace DirectoryError

/-- The wording of a failure, one line for each level. -/
def message : DirectoryError → String
  | .source reason => "provider error: " ++ reason
  | .duplicateOverload key => "duplicate operation overload: " ++ key.text
  | .cyclicBaseType name => "cyclic base type: " ++ name.text
  | .unresolvedType name => "type not found: " ++ name.text
  | .unresolvedKeyProperty path => "key property not found: " ++ path
  | .missingBindingParameter name => "missing binding parameter for bound operation: " ++ name.text
  | .invalidName error => error.message
  | .inEntityType name error =>
    "while resolving entity type: " ++ name.text ++ "\n" ++ error.message
  | .inComplexType name error =>
    "while resolving complex type: " ++ name.text ++ "\n" ++ error.message
  | .inOperation name error => "while resolving operation: " ++ name.text ++ "\n" ++ error.message

/-- The wording of the cause of a failure that lies outside the directory itself: the refusal of
the source, or a name that is not well formed. -/
def cause? : DirectoryError → Option String
  | .source reason => some (DirectoryError.source reason).message
  | .invalidName error => some error.message
  | _ => none

end DirectoryError

end ODataRequest
