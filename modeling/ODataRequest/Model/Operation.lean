import ODataRequest.Csdl.Schema

/-!
# ODataRequest.Model.Operation

Actions and functions with their references resolved, and the keys that tell overloads apart.
Unbound operations have no binding, so a bound and an unbound key are never equal. Actions do not
overload by their parameters. The parameter names of a function are kept in ascending order,
without the binding parameter.
-/

namespace ODataRequest

/-- The type an operation is bound to. -/
structure Binding where
  type : QualifiedName
  isCollection : Bool
deriving DecidableEq

/-- The key of an overload. -/
structure OverloadKey where
  name : QualifiedName
  binding : Option Binding
  parameters : Option (List String)
deriving DecidableEq

/-- Texts in ascending order. -/
def ascending (texts : List String) : List String :=
  texts.mergeSort fun a b => decide (a ≤ b)

namespace OverloadKey

/-- The key of an action. -/
def action (name : QualifiedName) (binding : Option Binding) : OverloadKey :=
  ⟨name, binding, none⟩

/-- The key of a function with the given parameters, in any order. -/
def function (name : QualifiedName) (binding : Option Binding) (parameters : List String) :
    OverloadKey :=
  ⟨name, binding, some (ascending parameters)⟩

/-- The same key with a binding to another type. -/
def rebind (k : OverloadKey) (type : QualifiedName) : OverloadKey :=
  { k with binding := k.binding.map fun b => { b with type } }

/-- The wording of a key. -/
def text (k : OverloadKey) : String :=
  let bound :=
    match k.binding with
    | none => ""
    | some b =>
      if b.isCollection then " bound to Collection(" ++ b.type.text ++ ")"
      else " bound to " ++ b.type.text
  let parameters :=
    match k.parameters with
    | none => ""
    | some names => " with parameters [" ++ ", ".intercalate names ++ "]"
  k.name.text ++ bound ++ parameters

end OverloadKey

/-- What actions and functions have in common. -/
structure Operation where
  name : QualifiedName
  isBound : Bool
  entitySetPath : Option String
  allParameters : List Csdl.Parameter

namespace Operation

/-- The first parameter of a bound operation. -/
def bindingParameter? (o : Operation) : Option Csdl.Parameter :=
  if o.isBound then o.allParameters.head? else none

/-- The type the operation is bound to. -/
def binding? (o : Operation) : Option Binding :=
  o.bindingParameter?.map fun p => ⟨p.type.name, p.type.isCollection⟩

/-- The parameters that a call supplies: all but the binding parameter. -/
def parameters (o : Operation) : List Csdl.Parameter :=
  if o.isBound then o.allParameters.drop 1 else o.allParameters

/-- The parameter of a name, among those that a call supplies. -/
def parameter? (o : Operation) (name : String) : Option Csdl.Parameter :=
  o.parameters.find? (·.name.text == name)

end Operation

/-- An action. -/
structure Action extends Operation where
  returnType : Option Csdl.ReturnType

/-- The overload key of an action. -/
def Action.key (a : Action) : OverloadKey :=
  .action a.name a.binding?

/-- A function. -/
structure Function extends Operation where
  isComposable : Bool
  returnType : Csdl.ReturnType

/-- The overload key of a function. -/
def Function.key (f : Function) : OverloadKey :=
  .function f.name f.binding? (f.parameters.map (·.name.text))

end ODataRequest
