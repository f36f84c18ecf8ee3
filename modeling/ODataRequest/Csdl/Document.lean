/-!
# ODataRequest.Csdl.Document

Documents of the JSON data model, and readers for the members of their objects. A member that may
be missing may also be `null`; a list or a flag may be missing but not be `null`. Members that no
reader asks for are ignored.
-/

namespace ODataRequest.Csdl

/-- A JSON document. Of numbers, only integers carry their value. -/
inductive Document where
  | null
  | bool (value : Bool)
  | integer (value : Int)
  | fraction
  | string (text : String)
  | list (items : List Document)
  | object (members : List (String × Document))
deriving Inhabited

namespace Document

/-! ### Values -/

/-- A text. -/
def string? : Document → Option String
  | .string s => some s
  | _ => none

/-- A truth value. -/
def bool? : Document → Option Bool
  | .bool b => some b
  | _ => none

/-- A signed 64-bit integer. -/
def int64? : Document → Option Int
  | .integer n => if -(Nat.pow 2 63 : Int) ≤ n ∧ n < Nat.pow 2 63 then some n else none
  | _ => none

/-- An unsigned 32-bit integer. -/
def nat32? : Document → Option Nat
  | .integer n => if 0 ≤ n ∧ n < Nat.pow 2 32 then some n.toNat else none
  | _ => none

/-- A text of a form that `parse` reads. -/
def parsed? {ε α : Type} (parse : String → Except ε α) (d : Document) : Option α := do
  (parse (← d.string?)).toOption

/-! ### Members of an object -/

/-- The value of a member. -/
def member? (name : String) : Document → Option Document
  | .object members => members.lookup name
  | _ => none

/-- A member that has to be there. -/
def required {α : Type} (read : Document → Option α) (name : String) (d : Document) : Option α := do
  read (← d.member? name)

/-- A member that may be missing or `null`. -/
def optional {α : Type} (read : Document → Option α) (name : String) (d : Document) :
    Option (Option α) :=
  match d.member? name with
  | none => some none
  | some .null => some none
  | some v => (read v).map some

/-- A list that may be missing. -/
def listOf {α : Type} (read : Document → Option α) (name : String) (d : Document) :
    Option (List α) :=
  match d.member? name with
  | none => some []
  | some (.list items) => items.mapM read
  | some _ => none

/-- A flag that may be missing, which then is off. -/
def flag (name : String) (d : Document) : Option Bool :=
  match d.member? name with
  | none => some false
  | some v => v.bool?

/-- A flag with a default, which may be missing or `null`. -/
def flagOr (default : Bool) (name : String) (d : Document) : Option Bool :=
  (d.optional bool? name).map fun v => v.getD default

/-- Is it an object? -/
def isObject : Document → Bool
  | .object _ => true
  | _ => false

end Document

end ODataRequest.Csdl
