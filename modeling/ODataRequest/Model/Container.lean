import ODataRequest.Csdl.Schema

/-!
# ODataRequest.Model.Container

Entity containers with their references resolved. Elements are found by name, the first one of a
name counting.
-/

namespace ODataRequest

/-- An entity set of a container. -/
structure EntitySet extends Csdl.EntitySet where
  container : QualifiedName

/-- A singleton of a container. -/
structure Singleton extends Csdl.Singleton where
  container : QualifiedName

/-- An entity container. -/
structure Container where
  name : QualifiedName
  entitySets : List EntitySet
  singletons : List Singleton
  actionImports : List Csdl.ActionImport
  functionImports : List Csdl.FunctionImport

/-- The entity set or singleton bound to a path. -/
def bindingTarget? (bindings : List Csdl.NavigationBinding) (path : String) : Option String :=
  (bindings.find? (·.path == path)).map (·.target)

namespace Container

/-- The entity set of a name. -/
def entitySet? (c : Container) (name : String) : Option EntitySet :=
  c.entitySets.find? (·.name.text == name)

/-- The singleton of a name. -/
def singleton? (c : Container) (name : String) : Option Singleton :=
  c.singletons.find? (·.name.text == name)

/-- The action import of a name. -/
def actionImport? (c : Container) (name : String) : Option Csdl.ActionImport :=
  c.actionImports.find? (·.name.text == name)

/-- The function import of a name. -/
def functionImport? (c : Container) (name : String) : Option Csdl.FunctionImport :=
  c.functionImports.find? (·.name.text == name)

/-- Where a navigation path of an entity set or singleton leads; entity sets are asked first. -/
def navigationTarget? (c : Container) (source path : String) : Option String :=
  match c.entitySet? source with
  | some set => bindingTarget? set.bindings path
  | none => (c.singleton? source).bind fun single => bindingTarget? single.bindings path

end Container

end ODataRequest
