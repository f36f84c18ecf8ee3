import ODataRequest.Path.Resource

/-!
# ODataRequest.Path.Property

Paths of selected and expanded properties. Each segment is a single name: a property, a cast, or an
operation that is bound to the value reached so far and takes no arguments. A path may go through
collections.
-/

namespace ODataRequest

/-- Read a segment, which is a single name. -/
def segmentName : TokenReader String := do
  return (← TokenReader.expect .identifier).text

/-- The type that a segment is looked up in. -/
def Position.owner (p : Position) (target : ModelType) : Resolution ModelType :=
  match p.steps with
  | last :: _ => Resolution.require (.onlyForTypedParts last.segment) last.type?
  | [] => return p.start.getD target

/-- Narrow what a path has reached. -/
def castProperty (p : Position) (target : ModelType) (name : String) (type : ModelType) :
    Except SemanticError Position :=
  match p.steps with
  | last :: earlier => do return { p with steps := (← last.cast type) :: earlier }
  | [] => if p.start.isSome then .error (.repeatedCast name) else p.castStart target type name

/-- An operation bound to a single value of a type: an action, or else a function without
arguments. -/
def boundProperty (owner : ModelType) (text : String) (name : QualifiedName) :
    Resolution Resource := do
  let binding : Binding := ⟨owner.name, false⟩
  match ← Resolution.answerTo (.boundAction name binding) with
  | some a =>
    match a.returnType with
    | none => return .action a none none
    | some r => return .action a none (← Resolution.answerTo (.type r.type.name))
  | none =>
    match ← Resolution.answerTo (.boundFunction name binding []) with
    | some f =>
      let returnType ← Resolution.require (.functionNotFound text)
        (← Resolution.answerTo (.type f.returnType.type.name))
      return .function f none [] returnType [] Casts.none
    | none => Resolution.reject (.unknownPart text)

/-- Follow a segment. -/
def propertyStep (target : ModelType) (p : Position) (segment : String) : Resolution Position := do
  let text ← TokenReader.readAll segmentName segment
  let owner ← p.owner target
  let notInType := SemanticError.propertyNotInType owner.text text
  if isQualified text then
    let name ← requireName text
    match ← Resolution.answerTo (.type name) with
    | some type => Resolution.ofSemantic (castProperty p target text type)
    | none => return p.push (← boundProperty owner text name)
  else
    let structured ← Resolution.require notInType owner.structured?
    return p.push (← Resolution.require notInType (← propertyResource structured text))

/-- Follow the segments of a path that starts at a value of type `target`. -/
def propertyPath (target : ModelType) (segments : List String) : Resolution Position :=
  segments.foldlM (propertyStep target) Position.origin

end ODataRequest
