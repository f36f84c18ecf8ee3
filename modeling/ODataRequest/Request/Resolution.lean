import ODataRequest.Directory.Schemas
import ODataRequest.Request.Error

/-!
# ODataRequest.Request.Resolution

Reading a request means asking the model now and then: what type has this name, which functions are
bound to it. A `Resolution` is such a computation with its questions kept apart from their answers.
It either is done, or fails, or asks a question and goes on with the answer. What it comes to
depends on the answers alone, so the same reading can be run on a directory in any state.
-/

namespace ODataRequest

/-- A question about the model. -/
inductive Question where
  | entityType (name : QualifiedName)
  | type (name : QualifiedName)
  | enumType (name : QualifiedName)
  | container
  | unboundAction (name : QualifiedName)
  | unboundFunction (name : QualifiedName) (parameters : List String)
  | boundAction (name : QualifiedName) (binding : Binding)
  | boundFunction (name : QualifiedName) (binding : Binding) (parameters : List String)
deriving DecidableEq

namespace Question

/-- What answers a question. -/
@[reducible] def Answer : Question → Type
  | .entityType _ => Option EntityType
  | .type _ => Option ModelType
  | .enumType _ => Option EnumType
  | .container => Option Container
  | .unboundAction _ => Option Action
  | .unboundFunction _ _ => Option Function
  | .boundAction _ _ => Option Action
  | .boundFunction _ _ _ => Option Function

/-- Put a question to a directory. -/
def ask : (q : Question) → InDirectory q.Answer
  | .entityType name => ODataRequest.entityType name
  | .type name => resolveType name
  | .enumType name => ODataRequest.enumType name
  | .container => ODataRequest.container none
  | .unboundAction name => ODataRequest.unboundAction name
  | .unboundFunction name parameters => ODataRequest.unboundFunction name parameters
  | .boundAction name binding => ODataRequest.boundAction name binding
  | .boundFunction name binding parameters => ODataRequest.boundFunction name binding parameters

end Question

/-- A computation that asks questions about the model. -/
inductive Resolution (α : Type) where
  | done (value : α)
  | fail (error : RequestError)
  | ask (question : Question) (next : question.Answer → Resolution α)

namespace Resolution

/-- One computation after another. -/
def bind {α β : Type} : Resolution α → (α → Resolution β) → Resolution β
  | .done value, f => f value
  | .fail e, _ => .fail e
  | .ask q next, f => .ask q fun answer => (next answer).bind f

instance : Monad Resolution where
  pure := .done
  bind := .bind

/-- Refuse a text. -/
def refuse {α : Type} (e : GrammarError) : Resolution α :=
  .fail (.grammar e)

/-- Report that a text has no meaning. -/
def reject {α : Type} (e : SemanticError) : Resolution α :=
  .fail (.semantic e)

/-- The answer to a question. -/
def answerTo (q : Question) : Resolution q.Answer :=
  .ask q .done

/-- A value that has to be there. -/
def require {α : Type} (e : SemanticError) : Option α → Resolution α
  | some value => .done value
  | none => reject e

/-- A result of a check that asks no questions. -/
def ofGrammar {α : Type} : Except GrammarError α → Resolution α
  | .ok value => .done value
  | .error e => refuse e

/-- A result of a type check. -/
def ofSemantic {α : Type} : Except SemanticError α → Resolution α
  | .ok value => .done value
  | .error e => reject e

/-- Run a computation on a directory: its result, and the directory after it. -/
def runOn {α : Type} : Resolution α → Directory → Except RequestError α × Directory
  | .done value, d => (.ok value, d)
  | .fail e, d => (.error e, d)
  | .ask q next, d =>
    match q.ask.runOn d with
    | (.ok answer, d) => (next answer).runOn d
    | (.error e, d) => (.error (.directory e), d)

/-! ### Laws -/

/-- Doing nothing first changes nothing. -/
@[simp] theorem pure_bind {α β : Type} (a : α) (f : α → Resolution β) :
    (pure a : Resolution α) >>= f = f a := rfl

/-- Doing nothing afterwards changes nothing. -/
theorem bind_done {α : Type} (x : Resolution α) : x.bind .done = x := by
  induction x with
  | done => rfl
  | fail => rfl
  | ask q next ih => simp only [bind, ih]

/-- The grouping of steps does not matter. -/
theorem bind_assoc {α β γ : Type} (x : Resolution α) (f : α → Resolution β)
    (g : β → Resolution γ) : (x.bind f).bind g = x.bind fun a => (f a).bind g := by
  induction x with
  | done => rfl
  | fail => rfl
  | ask q next ih => simp only [bind, ih]

/-- Run one computation after another: the second one starts from the directory that the first
one leaves. -/
theorem runOn_bind {α β : Type} (x : Resolution α) (f : α → Resolution β) (d : Directory) :
    (x.bind f).runOn d =
      match x.runOn d with
      | (.ok a, d) => (f a).runOn d
      | (.error e, d) => (.error e, d) := by
  induction x generalizing d with
  | done => rfl
  | fail => rfl
  | ask q next ih =>
    simp only [bind, runOn]
    split
    · rw [ih]
    · rfl

end Resolution

/-! ### Types that have to be there -/

/-- The entity type of a name that the model refers to. -/
def requireEntityType (name : QualifiedName) : Resolution EntityType := do
  match ← Resolution.answerTo (.entityType name) with
  | some t => return t
  | none => .fail (.directory (.unresolvedType name))

/-- The type of a name that the model refers to. -/
def requireType (name : QualifiedName) : Resolution ModelType := do
  match ← Resolution.answerTo (.type name) with
  | some t => return t
  | none => .fail (.directory (.unresolvedType name))

/-- The default container. -/
def requireContainer : Resolution Container := do
  Resolution.require (.resourceNotFound "$metadata") (← Resolution.answerTo .container)

/-- A name that a request has to give. -/
def requireName (text : String) : Resolution QualifiedName :=
  match QualifiedName.ofString? text with
  | some name => return name
  | none => Resolution.refuse (.malformed text)

end ODataRequest
