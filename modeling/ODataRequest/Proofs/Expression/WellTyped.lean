import ODataRequest.Proofs.Expression.Nodes

/-!
# ODataRequest.Proofs.Expression.WellTyped

The types of accepted expressions. Each node of an expression (`Expression.nodes`) has to *fit*
(`Expression.Fits`): an operator takes the types of its operands, a call has as many arguments as the
method takes, and the body of a quantifier is a condition. Each way to make an accepted expression
checks this of the new expression (`fits_rule`), so it holds all through (`wellTyped_expression`).

Nothing is assumed of the model: the answers to the questions that are asked may be any answers.
-/

namespace ODataRequest

open TokenReader

namespace Expression

/-- If its type is known, it is `Edm.Boolean` or a definition over it. -/
def IsCondition (e : Expression) : Prop :=
  ∀ type, e.type? = some type →
    type = booleanType ∨ ∃ definition, type = .definition definition ∧
      definition.underlying = .boolean

/-- What is directly in an expression fits it. An item of a list that `left` is looked up in has to
be comparable with `left`. -/
def Fits : Expression → Prop
  | .binary op left right type =>
    op.resultType left.type? right.type? = .ok type ∧
      (op = .isIn → ∀ items, right = .list items → ∀ item ∈ items,
        ∃ compared, BinaryOperator.eq.resultType left.type? item.type? = .ok compared)
  | .unary op operand type => op.resultType operand.type? = .ok type
  | .call method arguments =>
    method.arity.1 ≤ arguments.length ∧ arguments.length ≤ method.arity.2
  | .member _ path => ∀ quantifier name body, .lambda quantifier name body ∈ path → body.IsCondition
  | _ => True

/-- Every part of the expression fits. -/
def WellTyped (e : Expression) : Prop :=
  ∀ n ∈ e.nodes, n.Fits

end Expression

variable {answers : Answers} {scope : Scope} {source : String}
variable {ts rest : List Token} {e : Expression}

theorem isCondition_of_requireCondition {place : String}
    (h : (requireCondition place e).Gives answers ()) : e.IsCondition := by
  intro type htype
  unfold requireCondition at h
  rw [htype] at h
  dsimp only at h
  split at h
  · next hboolean =>
    cases type with
    | primitive kind =>
      have hkind : kind = .boolean := by simpa [ModelType.isBoolean, ModelType.primitive?] using hboolean
      exact Or.inl (by rw [hkind]; rfl)
    | definition definition =>
      exact Or.inr ⟨definition, rfl, by
        simpa [ModelType.isBoolean, ModelType.primitive?] using hboolean⟩
    | entity | complex | enumeration => simp [ModelType.isBoolean, ModelType.primitive?] at hboolean
  · exact absurd h Resolution.not_gives_reject

/-- Each way to make an accepted expression makes one that fits. -/
theorem fits_rule : ReadingRule answers (fun _ => True) fun _ e => e.Fits where
  literal _ _ _ := trivial
  enumeration _ _ _ := trivial
  parameterAlias _ _ := trivial
  typeName _ _ := trivial
  boundVariable _ _ _ _ := trivial
  unary _ _ _ _ htype _ := htype
  call _ _ _ takes _ := by simpa [Expression.Fits, Method.takes] using takes
  list _ _ _ := trivial
  binary _ _ _ _ _ htype _ _ hitems := ⟨htype, hitems⟩
  member _ _ h quantifier name body hmem :=
    isCondition_of_requireCondition (h.bodies quantifier name body hmem).2

/-- Every expression that is accepted is well typed. -/
theorem wellTyped_expression {config : Config}
    (h : Reads answers (expression config scope) source ts e rest) : e.WellTyped :=
  (fits_rule.nodes id).expression h

end ODataRequest
