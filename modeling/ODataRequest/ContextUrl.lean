import ODataRequest.Link

/-!
# ODataRequest.ContextUrl

Context URLs, which say what a response holds: the metadata document of the service, and in its
fragment an entity set, a singleton or a type with what narrows it down. The select list names
the selected properties and, with a list of its own, every expanded one.
-/

namespace ODataRequest

/-! ### Select lists -/

/-- The names of steps with slashes between them. -/
def segmentsText (steps : List Resource) : String :=
  "/".intercalate (steps.map Resource.segment)

/-- A selected item in a select list. A leading cast to the type itself is left out. -/
def selectListItem (type : QualifiedName) : SelectItem → String
  | .star => ""
  | .operations space => space.text ++ ".*"
  | .path start steps =>
    let casts := (start.filter (·.name ≠ type)).toList.map ModelType.text
    "/".intercalate (casts ++ steps.map Resource.segment)

/-- Is everything selected? -/
def selectsAll (items : List SelectItem) : Bool :=
  items.any fun
    | .star => true
    | _ => false

/-- Is everything expanded? -/
def expandsAll (items : List ExpandItem) : Bool :=
  items.any fun
    | ⟨.star, _, _⟩ => true
    | _ => false

/-- The selected items of a select list. -/
def selectListItems (type : QualifiedName) : Option SystemOption → List String
  | some ⟨_, .select items⟩ => if selectsAll items then [] else items.map (selectListItem type)
  | _ => []

mutual

/-- The expanded items of an option in a select list; references and numbers are left out. -/
def OptionValue.expandedParts : OptionValue → List String
  | .expand items => if expandsAll items then [] else ExpandItem.expandedParts items
  | _ => []
termination_by structural v => v

/-- The expanded items of an option in a select list. -/
def SystemOption.expandedParts : SystemOption → List String
  | ⟨_, value⟩ => value.expandedParts
termination_by structural o => o

/-- The expanded items of the first expansion among some options. -/
def SystemOption.expandedPartsOf : List SystemOption → List String
  | [] => []
  | o :: os => if o.kind = .expand then o.expandedParts else SystemOption.expandedPartsOf os
termination_by structural os => os

/-- An expanded item in a select list: its path, and the select list of its options. -/
def ExpandItem.expandedPart : ExpandItem → List String
  | ⟨.path _ steps, .entities, options⟩ =>
    let nested :=
      match (steps.getLast?.bind Resource.type?).bind ModelType.structured? with
      | none => ""
      | some type =>
        commaJoined (selectListItems type.name (SystemOption.find? options .select) ++
          SystemOption.expandedPartsOf options)
    [segmentsText steps ++ "(" ++ nested ++ ")"]
  | _ => []
termination_by structural i => i

/-- The expanded items in a select list. -/
def ExpandItem.expandedParts : List ExpandItem → List String
  | [] => []
  | i :: is => i.expandedPart ++ ExpandItem.expandedParts is
termination_by structural is => is

end

/-- The select list for a type: selected properties, then expanded ones. It is empty if everything
is selected and nothing is expanded. -/
def selectList (type : QualifiedName) (options : List SystemOption) : String :=
  commaJoined (selectListItems type (SystemOption.find? options .select) ++
    SystemOption.expandedPartsOf options)

/-! ### Context URLs -/

/-- What ends a context URL. -/
inductive ContextSuffix where
  | entity
  | reference
  | delta
  | deletedEntity
  | link
  | deletedLink
deriving DecidableEq, Repr

/-- The text of a suffix. -/
def ContextSuffix.text : ContextSuffix → String
  | .entity => "$entity"
  | .reference => "$ref"
  | .delta => "$delta"
  | .deletedEntity => "$deletedEntity"
  | .link => "$link"
  | .deletedLink => "$deletedLink"

/-- The parts of a context URL. `subject` is the name of an entity set, a singleton or a type; the
key, the path and the select list are texts as they are written. -/
structure ContextUrl where
  serviceRoot : Option String
  subject : Option String
  asCollection : Bool
  derivedType : Option QualifiedName
  key : Option String
  path : Option String
  selectList : Option String
  suffix : Option ContextSuffix

namespace ContextUrl

/-- The URL of the metadata document alone. -/
def empty : ContextUrl :=
  { serviceRoot := none, subject := none, asCollection := false, derivedType := none, key := none,
    path := none, selectList := none, suffix := none }

/-- The text of the subject. -/
def subjectText (u : ContextUrl) : String :=
  match u.subject with
  | none => ""
  | some name =>
    let name := Text.percentEncode name
    if u.asCollection then "#Collection(" ++ name ++ ")" else "#" ++ name

/-- The text of the derived type, which needs a subject. -/
def derivedText (u : ContextUrl) : Except UrlError String :=
  match u.derivedType, u.subject with
  | none, _ => .ok ""
  | some _, none => .error (.contradiction "derived type without entity set")
  | some type, some _ => .ok ("/" ++ Text.percentEncode type.text)

/-- The text of the suffix. A reference stands without a subject, all others need one. -/
def suffixText (u : ContextUrl) : Except UrlError String :=
  match u.suffix, u.subject with
  | none, _ => .ok ""
  | some .reference, none => .ok "#$ref"
  | some .reference, some _ => .error (.contradiction "reference with entity set")
  | some _, none => .error (.contradiction "suffix without entity set")
  | some suffix, some _ => .ok ("/" ++ suffix.text)

/-- A text between parentheses, if there is one. -/
def parenthesized : Option String → String
  | none => ""
  | some text => "(" ++ text ++ ")"

/-- The text of a path. -/
def pathPart : Option String → String
  | none => ""
  | some path => "/" ++ path

/-- The text of a context URL. -/
def text (u : ContextUrl) : Except UrlError String := do
  let derived ← u.derivedText
  let suffix ← u.suffixText
  return u.serviceRoot.getD "" ++ "$metadata" ++ u.subjectText ++ derived ++ parenthesized u.key ++
    pathPart u.path ++ parenthesized (u.selectList.filter (!·.isEmpty)) ++ suffix

end ContextUrl

end ODataRequest
