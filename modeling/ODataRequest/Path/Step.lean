import ODataRequest.Expression.Basic
import ODataRequest.Request.Resolution

/-!
# ODataRequest.Path.Step

The steps that paths of every kind have in common: a property of a structured type, and a cast that
narrows what has been reached. Requested paths, paths in expressions and paths of selected and
expanded properties are all made of them.
-/

namespace ODataRequest

/-- The property of a name of a structured type as a resource. -/
def propertyResource (owner : StructuredType) (name : String) : Resolution (Option Resource) := do
  match owner.property? name with
  | some p => return some (.property p (← requireType p.type.name) Casts.none)
  | none =>
    match owner.navigationProperty? name with
    | some p => return some (.navigation p (← requireEntityType p.type.name) [] Casts.none)
    | none => return none

/-- Is `cast` a structured type derived from `declared`? -/
def derivesFrom (cast declared : ModelType) : Bool :=
  match cast.structured?, declared.structured? with
  | some c, some d => c.derivesFrom d.name
  | _, _ => false

/-- Narrow a resource by a cast. A collection is narrowed as a whole, any other resource as a
single value, and each of the two at most once. -/
def Resource.cast (r : Resource) (type : ModelType) : Except SemanticError Resource :=
  match r.type? with
  | none => .error (.onlyForTypedParts r.segment)
  | some current =>
    if current.structured?.isNone then .error (.onlyForStructuredTypes r.segment)
    else if !(type.isEntity == current.isEntity && derivesFrom type current) then
      .error (.incompatibleCast type.text current.text)
    else if !r.takesCast then .error (.onlyForStructuredTypes r.segment)
    else if (r.casts.slot r.isCollection).isSome then .error (.repeatedCast type.text)
    else .ok (r.withCasts (r.casts.add r.isCollection type))

/-- A position inside a path of an expression or an option: a cast of the value the path starts at,
and the steps from there, the last one first. -/
structure Position where
  start : Option ModelType
  steps : List Resource

namespace Position

/-- In front of all steps. -/
def origin : Position :=
  ⟨none, []⟩

/-- The steps in the order of the path. -/
def path (p : Position) : List Resource :=
  p.steps.reverse

/-- Go one step further. -/
def push (p : Position) (r : Resource) : Position :=
  { p with steps := r :: p.steps }

/-- Narrow the start of a path, once. -/
def castStart (p : Position) (owner type : ModelType) (name : String) :
    Except SemanticError Position :=
  if !derivesFrom type owner then .error (.incompatibleCast name owner.text)
  else if p.start.isSome then .error (.repeatedCast name)
  else .ok { p with start := some type }

end Position

end ODataRequest
