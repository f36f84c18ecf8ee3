import ODataRequest.Directory.Types

/-!
# ODataRequest.Directory.Operations

Actions and functions in the directory. All overloads of a name are resolved together, and none of
them is stored if one is defective or two have the same key. A bound operation that is not found
for a type is looked for with the base types of that type, the nearest first.
-/

namespace ODataRequest

/-! ### Overloads of one name -/

/-- A declared parameter, resolved. -/
def resolveParameter (p : Csdl.Parameter) : InDirectory Csdl.Parameter := do
  return { p with type := ← resolveReference p.type }

/-- A declared result, resolved. -/
def resolveReturnType (r : Csdl.ReturnType) : InDirectory Csdl.ReturnType := do
  return { r with type := ← resolveReference r.type }

/-- A bound operation has a first parameter to bind to. -/
def requireBindingParameter (name : QualifiedName) (o : Csdl.Operation) : InDirectory Unit :=
  if o.isBound && o.parameters.isEmpty then throw (.missingBindingParameter name) else return ()

/-- A declared action, resolved. -/
def resolveAction (name : QualifiedName) (a : Csdl.Action) : InDirectory Action := do
  requireBindingParameter name a.toOperation
  let returnType ← a.returnType.mapM resolveReturnType
  let allParameters ← a.parameters.mapM resolveParameter
  return { name, isBound := a.isBound, entitySetPath := a.entitySetPath, allParameters, returnType }

/-- A declared function, resolved. -/
def resolveFunction (name : QualifiedName) (f : Csdl.Function) : InDirectory Function := do
  requireBindingParameter name f.toOperation
  let returnType ← resolveReturnType f.returnType
  let allParameters ← f.parameters.mapM resolveParameter
  return { name, isBound := f.isBound, entitySetPath := f.entitySetPath, allParameters, returnType,
           isComposable := f.isComposable }

/-- The first key that repeats an earlier one. -/
def repeatedKey? : List OverloadKey → List OverloadKey → Option OverloadKey
  | _, [] => none
  | seen, key :: keys => if seen.contains key then some key else repeatedKey? (key :: seen) keys

/-- Overloads of one name; two of one key are refused. -/
def distinctOverloads {α : Type} (keyOf : α → OverloadKey) (overloads : List α) :
    InDirectory (List α) :=
  match repeatedKey? [] (overloads.map keyOf) with
  | some key => throw (.duplicateOverload key)
  | none => return overloads

/-- Operations of one sort: actions, or functions. -/
structure OperationFamily (α : Type) where
  store : StoreIn OverloadKey α
  keyOf : α → OverloadKey
  /-- All overloads of a real name, resolved. -/
  load : QualifiedName → InDirectory (List α)

namespace OperationFamily

/-- All overloads of a name. -/
def named {α : Type} (family : OperationFamily α) (name : QualifiedName) :
    InDirectory (List α) := do
  (← family.load name).mapM fun o => family.store.put (family.keyOf o) o

/-- The overload of a key. -/
def ofKey {α : Type} (family : OperationFamily α) (key : OverloadKey) :
    InDirectory (Option α) := do
  match ← family.store.find? key with
  | some o => return some o
  | none => return (← family.named key.name).find? (family.keyOf · == key)

end OperationFamily

/-- The declared overloads of a real name, resolved. -/
def loadOverloads {δ α : Type} (keyOf : α → OverloadKey) (ask : InDirectory (List δ))
    (resolve : δ → InDirectory α) (name : QualifiedName) : InDirectory (List α) := do
  let declared ← ask
  InDirectory.inContext (.inOperation name) do
    distinctOverloads keyOf (← declared.mapM resolve)

/-- The actions. -/
def actionFamily : OperationFamily Action :=
  { store := actionStore
    keyOf := Action.key
    load := fun name =>
      loadOverloads Action.key (askSource (.actions name)) (resolveAction name) name }

/-- The functions. -/
def functionFamily : OperationFamily Function :=
  { store := functionStore
    keyOf := Function.key
    load := fun name =>
      loadOverloads Function.key (askSource (.functions name)) (resolveFunction name) name }

/-! ### Base types of a binding -/

/-- The name of the direct base type of a structured type. -/
def baseTypeName (name : QualifiedName) : InDirectory (Option QualifiedName) := do
  match ← entityType name with
  | some t => return t.baseName?
  | none => return (← complexType name).bind StructuredType.baseName?

/-- Look a key up with the type it is bound to, then with the base types of it. -/
def nearestOverload {α : Type} (find : OverloadKey → InDirectory (Option α)) :
    Nat → OverloadKey → InDirectory (Option α)
  | bound, key => do
    match ← find key with
    | some found => return some found
    | none =>
      match bound, key.binding with
      | bound + 1, some binding =>
        match ← baseTypeName binding.type with
        | some base => nearestOverload find bound (key.rebind base)
        | none => return none
      | _, _ => return none

/-! ### Lookups -/

/-- The unbound action of a name. -/
def unboundAction (name : QualifiedName) : InDirectory (Option Action) := do
  actionFamily.ofKey (.action (← resolveAlias name) none)

/-- The key parts of a binding, with its alias replaced. -/
def resolveBinding (b : Binding) : InDirectory Binding := do
  return { b with type := ← resolveAlias b.type }

/-- The action of a name that is bound to a type or to the nearest of its base types. -/
def boundAction (name : QualifiedName) (binding : Binding) : InDirectory (Option Action) := do
  let key := OverloadKey.action (← resolveAlias name) (some (← resolveBinding binding))
  nearestOverload actionFamily.ofKey (← get).source.chainBound key

/-- All unbound functions of a name. -/
def unboundFunctions (name : QualifiedName) : InDirectory (List Function) := do
  let name ← resolveAlias name
  match ← functionListStore.find? name with
  | some unbound => return unbound
  | none =>
    let unbound := (← functionFamily.named name).filter (!·.isBound)
    if unbound.isEmpty then return unbound else functionListStore.put name unbound

/-- The unbound function of a name with exactly these parameters. -/
def unboundFunction (name : QualifiedName) (parameters : List String) :
    InDirectory (Option Function) := do
  functionFamily.ofKey (.function (← resolveAlias name) none parameters)

/-- The function of a name with exactly these parameters that is bound to a type or to the nearest
of its base types. -/
def boundFunction (name : QualifiedName) (binding : Binding) (parameters : List String) :
    InDirectory (Option Function) := do
  let key := OverloadKey.function (← resolveAlias name) (some (← resolveBinding binding)) parameters
  nearestOverload functionFamily.ofKey (← get).source.chainBound key

end ODataRequest
