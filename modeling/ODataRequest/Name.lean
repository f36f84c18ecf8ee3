import ODataRequest.Text.Cut

/-!
# ODataRequest.Name

Names of model elements. An identifier is a letter or underscore followed by letters, digits and
underscores; a namespace is a dotted sequence of identifiers; a qualified name is an identifier in
a namespace (or in the alias of one); a type reference names a single value or a collection.

Each kind of name has a reader that says why a text is refused and a `text` that writes it. The
types hold well-formed names only, so writing and reading again cannot fail.
-/

namespace ODataRequest

/-- Why a text is not a name of the kind asked for. -/
inductive NameError where
  | identifier (text : String)
  | qualifiedName (text : String)
  | typeReference (text : String)
deriving DecidableEq, Repr

/-- The wording of a name error. -/
def NameError.message : NameError → String
  | .identifier text => "invalid simple identifier " ++ text
  | .qualifiedName text => "invalid qualified name " ++ text
  | .typeReference text => "invalid type reference " ++ text

/-! ### Identifiers -/

/-- A character an identifier can start with. -/
def isIdentifierStart (c : Char) : Bool :=
  Text.isAlphabetic c || c == '_'

/-- A character an identifier can go on with. -/
def isIdentifierPart (c : Char) : Bool :=
  Text.isAlphanumeric c || c == '_'

/-- The form of an identifier. -/
def isIdentifier : List Char → Bool
  | [] => false
  | c :: cs => isIdentifierStart c && cs.all isIdentifierPart

/-- A name without dots. -/
structure Identifier where
  text : String
  wellFormed : isIdentifier text.toList = true

namespace Identifier

theorem eq_of_text_eq {a b : Identifier} (h : a.text = b.text) : a = b := by
  cases a; cases b; cases h; rfl

instance : DecidableEq Identifier := fun a b =>
  decidable_of_iff (a.text = b.text) ⟨eq_of_text_eq, fun h => h ▸ rfl⟩

/-- Read an identifier. -/
def ofString? (s : String) : Option Identifier :=
  if h : isIdentifier s.toList = true then some ⟨s, h⟩ else none

/-- Read an identifier, or report the text. -/
def parse (s : String) : Except NameError Identifier :=
  match ofString? s with
  | some id => .ok id
  | none => .error (.identifier s)

theorem text_of_ofString? {s : String} {id : Identifier} (h : ofString? s = some id) :
    id.text = s := by
  simp only [ofString?] at h
  split at h
  · cases h; rfl
  · simp at h

theorem ofString?_text (id : Identifier) : ofString? id.text = some id := by
  simp [ofString?, id.wellFormed]

end Identifier

/-! ### Namespaces -/

/-- A dotted sequence of one or more identifiers. The alias of a namespace has the same form. -/
structure Namespace where
  first : Identifier
  rest : List Identifier
deriving DecidableEq

namespace Namespace

/-- The identifiers of a namespace. -/
def identifiers (ns : Namespace) : List Identifier :=
  ns.first :: ns.rest

/-- The dotted text. -/
def text (ns : Namespace) : String :=
  ".".intercalate (ns.identifiers.map Identifier.text)

/-- Read a namespace; the first piece that is no identifier is reported. -/
def parse (s : String) : Except NameError Namespace := do
  match ← (Text.pieces '.' s.toList).mapM fun piece => Identifier.parse (String.ofList piece) with
  | [] => throw (.identifier s)
  | id :: ids => return ⟨id, ids⟩

/-- The reserved namespace of the primitive types. -/
def isEdm (ns : Namespace) : Bool :=
  ns.first.text == "Edm" && ns.rest.isEmpty

end Namespace

/-! ### Qualified names -/

/-- An identifier in a namespace or in the alias of one. -/
structure QualifiedName where
  space : Namespace
  name : Identifier
deriving DecidableEq

namespace QualifiedName

/-- The dotted text. -/
def text (q : QualifiedName) : String :=
  q.space.text ++ "." ++ q.name.text

/-- The last identifier is the name, those in front of it (one at least) are the namespace. -/
def ofIdentifiers? : List Identifier → Option QualifiedName
  | [] => none
  | [_] => none
  | first :: second :: rest =>
    let front := (second :: rest).dropLast
    some ⟨⟨first, front⟩, (second :: rest).getLast (by simp)⟩

/-- Read a qualified name: two or more identifiers with dots between them. -/
def ofString? (s : String) : Option QualifiedName := do
  let ids ← (Text.pieces '.' s.toList).mapM fun piece => Identifier.ofString? (String.ofList piece)
  ofIdentifiers? ids

/-- Read a qualified name, or report the text. -/
def parse (s : String) : Except NameError QualifiedName :=
  match ofString? s with
  | some q => .ok q
  | none => .error (.qualifiedName s)

/-- A qualified name of two texts; the namespace is read first. -/
def ofParts (space name : String) : Except NameError QualifiedName := do
  return ⟨← Namespace.parse space, ← Identifier.parse name⟩

/-- A name of the reserved namespace of the primitive types. -/
def isEdm (q : QualifiedName) : Bool :=
  q.space.isEdm

end QualifiedName

/-! ### Type references -/

/-- A type, and whether a single value of it or a collection is meant. -/
structure TypeReference where
  name : QualifiedName
  isCollection : Bool
deriving DecidableEq

namespace TypeReference

/-- The text of a type reference. -/
def text (t : TypeReference) : String :=
  if t.isCollection then "Collection(" ++ t.name.text ++ ")" else t.name.text

/-- Read a type reference. -/
def ofString? (s : String) : Option TypeReference :=
  let cs := s.toList
  match (Text.behind? "Collection(".toList cs).bind (Text.before? [')']) with
  | some inner => (QualifiedName.ofString? (String.ofList inner)).map fun name => ⟨name, true⟩
  | none => (QualifiedName.ofString? s).map fun name => ⟨name, false⟩

/-- Read a type reference, or report the text. -/
def parse (s : String) : Except NameError TypeReference :=
  match ofString? s with
  | some t => .ok t
  | none => .error (.typeReference s)

end TypeReference

end ODataRequest
