import ODataRequest.Proofs.Directory.Elements
import ODataRequest.Proofs.Directory.Overloads
import ODataRequest.Request.Resolution

/-!
# ODataRequest.Proofs.Directory.Schemas

Looking up a whole schema is settled, since it looks up one element after the other. So is putting
a question to a directory, and with it every resolution.
-/

namespace ODataRequest

open InDirectory

variable {s : Source}

/-! ### Schemas -/

theorem elementsOf_settled {α β : Type} {find : β → InDirectory (Option α)}
    (hfind : ∀ key, Settled s (find key)) (keys : List β) : Settled s (elementsOf find keys) :=
  Settled.bind (.mapM fun key _ => hfind key) fun _ _ => .pure _

theorem declaredContainer_settled (declared : Csdl.Schema) :
    Settled s (declaredContainer declared) := by
  unfold declaredContainer
  split
  · exact (containerNamed_settles _).settled
  · exact .pure none

/-- What resolving a declared schema comes to: one look-up after the other. -/
def resolvedSchema (s : Source) (declared : Csdl.Schema) : Except DirectoryError Schema := do
  let qualify (id : Identifier) : QualifiedName := ⟨declared.space, id⟩
  let entityTypes ← (elementsOf entityType (declared.entityTypes.map (qualify ·.name))).result s
  let complexTypes ← (elementsOf complexType (declared.complexTypes.map (qualify ·.name))).result s
  let enumTypes ← (elementsOf enumType (declared.enumTypes.map (qualify ·.name))).result s
  let typeDefinitions ←
    (elementsOf typeDefinition (declared.typeDefinitions.map (qualify ·.name))).result s
  let terms ← (elementsOf term (declared.terms.map (qualify ·.name))).result s
  let actions ← ((distinctAscending (declared.actions.map (·.name))).mapM fun id =>
    actionFamily.named (qualify id)).result s
  let functions ← ((distinctAscending (declared.functions.map (·.name))).mapM fun id =>
    functionFamily.named (qualify id)).result s
  let container ← (declaredContainer declared).result s
  let annotations ←
    (elementsOf (fun t => annotationGroup t.1 t.2) (namedTargets declared.annotations)).result s
  return { space := declared.space, aliasName := declared.aliasName, entityTypes, complexTypes,
           enumTypes, typeDefinitions, terms, actions := actions.flatten,
           functions := functions.flatten, container, annotations }

theorem resolveSchema_settles (declared : Csdl.Schema) :
    Settles s (resolveSchema declared) (resolvedSchema s declared) := by
  have hnamed {α : Type} {family : OperationFamily α} (lawful : family.Lawful s)
      (ids : List Identifier) :
      Settled s (ids.mapM fun id => family.named ⟨declared.space, id⟩) :=
    .mapM fun _ _ => OperationFamily.named_settled lawful _
  have hannotations (key : QualifiedName × Option String) :
      Settled s (annotationGroup key.1 key.2) := annotationGroup_settled key.1 key.2
  unfold resolveSchema resolvedSchema
  refine Settles.bind (elementsOf_settled entityType_settled _) fun _ _ => ?_
  refine Settles.bind (elementsOf_settled complexType_settled _) fun _ _ => ?_
  refine Settles.bind (elementsOf_settled enumType_settled _) fun _ _ => ?_
  refine Settles.bind (elementsOf_settled typeDefinition_settled _) fun _ _ => ?_
  refine Settles.bind (elementsOf_settled term_settled _) fun _ _ => ?_
  refine Settles.bind (hnamed (actionFamily_lawful s) _) fun _ _ => ?_
  refine Settles.bind (hnamed (functionFamily_lawful s) _) fun _ _ => ?_
  refine Settles.bind (declaredContainer_settled declared) fun _ _ => ?_
  refine Settles.bind (elementsOf_settled hannotations _) fun _ _ => ?_
  exact .pure _

theorem resolveSchema_settled (declared : Csdl.Schema) :
    Settled s (resolveSchema declared) :=
  (resolveSchema_settles declared).settled

/-- The schema that the source declares for a namespace; one with only the basic requests goes through
all its schemas. -/
def Source.declaredSchema? (s : Source) (space : Namespace) : Option Csdl.Schema :=
  if s.basicOnly then s.schemas.find? (·.space == space) else s.schema? space

theorem askSchema_settles (space : Namespace) :
    Settles s (askSchema space) (.ok (s.declaredSchema? space)) := by
  refine Settles.readDirectory fun d hd => ?_
  rw [hd.source]
  unfold Source.declaredSchema?
  split
  · exact (askSource_settles .schemas).bind_ok (.pure _)
  · exact askSource_settles (.schema space)

theorem loadSchema_settled (space : Namespace) :
    Settled s (loadSchema space) :=
  (askSchema_settles space).bind_settled
    (.optionMapM fun declared _ => resolveSchema_settled declared)

theorem schema_settled (space : Namespace) : Settled s (schema space) :=
  (resolveNamespace_settles space).bind_settled
    (remembered_load_settled (schemaStore_keeps s) (loadSchema_settled _))

/-! ### Resolutions -/

theorem Question.ask_settled (names : s.WellNamed) (q : Question) : Settled s q.ask := by
  cases q with
  | entityType name => exact entityType_settled name
  | type name => exact resolveType_settled name
  | enumType name => exact enumType_settled name
  | container => exact container_settled names none
  | unboundAction name => exact unboundAction_settled name
  | unboundFunction name parameters => exact unboundFunction_settled name parameters
  | boundAction name binding => exact boundAction_settled name binding
  | boundFunction name binding parameters =>
    exact boundFunction_settled name binding parameters

/-- A resolution comes to the same on every consistent directory, question by question, and leaves
it consistent. -/
theorem Resolution.runOn_consistent {α : Type} (names : s.WellNamed) (x : Resolution α)
    {d : Directory} (hd : d.Consistent s) :
    (x.runOn d).1 = (x.runOn (Directory.ofSource s)).1 ∧ (x.runOn d).2.Consistent s := by
  suffices h : ∀ d e : Directory, d.Consistent s → e.Consistent s →
      (x.runOn d).1 = (x.runOn e).1 ∧ (x.runOn d).2.Consistent s from h d _ hd (.ofSource s)
  induction x with
  | done value => exact fun d e hd _ => ⟨rfl, hd⟩
  | fail error => exact fun d e hd _ => ⟨rfl, hd⟩
  | ask q next ih =>
    intro d e hd he
    obtain ⟨hvalue, hafter⟩ := Question.ask_settled names q d hd
    obtain ⟨hvalue', hafter'⟩ := Question.ask_settled names q e he
    unfold runOn
    rcases hd' : q.ask.runOn d with ⟨r, d'⟩
    rcases he' : q.ask.runOn e with ⟨r', e'⟩
    rw [hd'] at hvalue hafter
    rw [he'] at hvalue' hafter'
    obtain rfl : r = r' := hvalue.trans hvalue'.symm
    cases r with
    | error error => exact ⟨rfl, hafter⟩
    | ok answer => exact ih answer d' e' hafter hafter'

end ODataRequest
