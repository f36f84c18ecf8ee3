import ODataRequest.Proofs.Expression.Induction

/-!
# ODataRequest.Proofs.Expression.Nodes

All the expressions that an expression is made of, the bodies of quantifiers included
(`Expression.nodes`). The rules of reading say something of one expression; what they say of it
without regard to the variables around it holds of each of its nodes as well (`ReadingRule.nodes`).
-/

namespace ODataRequest

open TokenReader

namespace Expression

/-! ### Nodes -/

mutual

/-- All expressions that an expression is made of, the expression itself being the first. -/
def nodes : Expression → List Expression
  | .binary op left right type => .binary op left right type :: (left.nodes ++ right.nodes)
  | .unary op operand type => .unary op operand type :: operand.nodes
  | .call method arguments => .call method arguments :: itemNodes arguments
  | .literal text type => [.literal text type]
  | .member start path => .member start path :: pathNodes path
  | .parameterAlias name => [.parameterAlias name]
  | .typeName type => [.typeName type]
  | .enumeration type members => [.enumeration type members]
  | .boundVariable name type => [.boundVariable name type]
  | .list items => .list items :: itemNodes items
termination_by structural e => e

/-- All expressions that some expressions are made of. -/
def itemNodes : List Expression → List Expression
  | [] => []
  | e :: es => e.nodes ++ itemNodes es
termination_by structural es => es

/-- All expressions in a step of a path: what the body of a quantifier is made of. -/
def stepNodes : Resource → List Expression
  | .lambda _ _ body => body.nodes
  | _ => []
termination_by structural r => r

/-- All expressions in the steps of a path. -/
def pathNodes : List Resource → List Expression
  | [] => []
  | r :: rs => stepNodes r ++ pathNodes rs
termination_by structural rs => rs

end

section Equations

variable {op : BinaryOperator} {left right operand e : Expression} {type : Option ModelType}
variable {arguments es : List Expression} {path rs : List Resource}

theorem nodes_binary :
    (binary op left right type).nodes =
      binary op left right type :: (left.nodes ++ right.nodes) := rfl

theorem nodes_unary {op : UnaryOperator} :
    (unary op operand type).nodes = unary op operand type :: operand.nodes := rfl

theorem nodes_call {m : Method} :
    (call m arguments).nodes = call m arguments :: itemNodes arguments := rfl

theorem nodes_member : (member type path).nodes = member type path :: pathNodes path := rfl

theorem nodes_list : (list es).nodes = list es :: itemNodes es := rfl

theorem itemNodes_cons : itemNodes (e :: es) = e.nodes ++ itemNodes es := rfl

theorem pathNodes_cons {r : Resource} : pathNodes (r :: rs) = stepNodes r ++ pathNodes rs := rfl

end Equations

section Members

variable {n : Expression}

theorem mem_itemNodes {es : List Expression} : n ∈ itemNodes es ↔ ∃ e ∈ es, n ∈ e.nodes := by
  induction es with
  | nil => exact iff_of_false nofun nofun
  | cons e es ih => rw [itemNodes_cons, List.mem_append, ih, List.exists_mem_cons_iff]

theorem mem_pathNodes {rs : List Resource} :
    n ∈ pathNodes rs ↔ ∃ quantifier variableName body,
      .lambda quantifier variableName body ∈ rs ∧ n ∈ body.nodes := by
  have hstep {r : Resource} : n ∈ stepNodes r ↔ ∃ quantifier variableName body,
      r = .lambda quantifier variableName body ∧ n ∈ body.nodes := by
    cases r <;> simp [stepNodes]
  induction rs with
  | nil => exact iff_of_false nofun nofun
  | cons r rs ih =>
    simp only [pathNodes_cons, List.mem_append, ih, hstep, List.mem_cons]
    grind

end Members

theorem mem_nodes_self (e : Expression) : e ∈ e.nodes := by
  cases e <;> simp [nodes]

/-- The nodes of a node of an expression are nodes of the expression. -/
theorem mem_nodes_trans {e n m : Expression} (hn : n ∈ e.nodes) (hm : m ∈ n.nodes) :
    m ∈ e.nodes := by
  match e with
  | .binary op left right result =>
    rw [nodes_binary, List.mem_cons, List.mem_append] at hn
    obtain rfl | hleft | hright := hn
    · exact hm
    · exact List.mem_cons_of_mem _ (List.mem_append_left _ (mem_nodes_trans hleft hm))
    · exact List.mem_cons_of_mem _ (List.mem_append_right _ (mem_nodes_trans hright hm))
  | .unary op operand result =>
    rw [nodes_unary, List.mem_cons] at hn
    obtain rfl | hoperand := hn
    · exact hm
    · exact List.mem_cons_of_mem _ (mem_nodes_trans hoperand hm)
  | .call method arguments =>
    rw [nodes_call, List.mem_cons, mem_itemNodes] at hn
    obtain rfl | ⟨argument, hmem, hargument⟩ := hn
    · exact hm
    · exact List.mem_cons_of_mem _ (mem_itemNodes.mpr ⟨argument, hmem, mem_nodes_trans hargument hm⟩)
  | .list items =>
    rw [nodes_list, List.mem_cons, mem_itemNodes] at hn
    obtain rfl | ⟨item, hmem, hitem⟩ := hn
    · exact hm
    · exact List.mem_cons_of_mem _ (mem_itemNodes.mpr ⟨item, hmem, mem_nodes_trans hitem hm⟩)
  | .member start path =>
    rw [nodes_member, List.mem_cons, mem_pathNodes] at hn
    obtain rfl | ⟨quantifier, name, body, hmem, hbody⟩ := hn
    · exact hm
    · have hsmaller : sizeOf body < sizeOf path := by
        have hstep := List.sizeOf_lt_of_mem hmem
        rw [Resource.lambda.sizeOf_spec] at hstep
        omega
      exact List.mem_cons_of_mem _
        (mem_pathNodes.mpr ⟨quantifier, name, body, hmem, mem_nodes_trans hbody hm⟩)
  | .literal _ _ | .parameterAlias _ | .typeName _ | .enumeration _ _ | .boundVariable _ _ =>
    rw [List.mem_singleton.mp hn] at hm
    exact hm
termination_by sizeOf e

end Expression

open Expression

variable {answers : Answers} {scope : Scope}

/-! ### Quantifiers in a path -/

section Bodies

variable {Body Body' : Scope → Expression → Prop} {p p' : MemberPosition}

theorem MemberStep.mono (himp : ∀ scope e, Body scope e → Body' scope e)
    (h : MemberStep answers Body scope p p') : MemberStep answers Body' scope p p' := by
  cases h with
  | it start isIt => exact .it start isIt
  | count collection => exact .count collection
  | lambdaVariable start bound => exact .lambdaVariable start bound
  | property h => exact .property h
  | narrow cast known => exact .narrow cast known
  | root start h => exact .root start h
  | joined start h isJoined => exact .joined start h isJoined
  | function h => exact .function h
  | notEmpty collection => exact .notEmpty collection
  | lambda collection isMember inside condition =>
    exact .lambda collection isMember (himp _ _ inside) condition

theorem MemberTrail.mono (himp : ∀ scope e, Body scope e → Body' scope e)
    (h : MemberTrail answers Body scope p) : MemberTrail answers Body' scope p := by
  induction h with
  | first h => exact .first (h.mono himp)
  | further _ h ih => exact .further ih (h.mono himp)

/-- A step adds the body of one quantifier at most. -/
theorem MemberStep.body_of_mem (h : MemberStep answers Body scope p p') {quantifier : Quantifier}
    {name : String} {body : Expression} (hmem : .lambda quantifier name body ∈ p'.steps) :
    .lambda quantifier name body ∈ p.steps ∨
      (∃ member, Body (scope.bind name member) body) ∧
        (requireCondition quantifier.name body).Gives answers () := by
  have hplain {r : Resource} (plain : r.ofExpression = false) :
      r ≠ .lambda quantifier name body := by
    rintro rfl
    cases plain
  have heffect := h.effect
  generalize p'.steps = steps at heffect hmem
  -- whatever else a step adds is no quantifier
  cases heffect with
  | kept => exact Or.inl hmem
  | narrowed before plain =>
    obtain heq | hmem := List.mem_cons.mp hmem
    · exact absurd heq.symm (hplain plain)
    · exact Or.inl (before ▸ List.mem_cons_of_mem _ hmem)
  | resource plain =>
    obtain heq | hmem := List.mem_cons.mp hmem
    · exact absurd heq.symm (hplain plain)
    · exact Or.inl hmem
  | it | notEmpty | lambdaVariable =>
    obtain heq | hmem := List.mem_cons.mp hmem
    · cases heq
    · exact Or.inl hmem
  | lambda _ _ _ inside condition =>
    obtain heq | hmem := List.mem_cons.mp hmem
    · cases heq
      exact Or.inr ⟨⟨_, inside⟩, condition⟩
    · exact Or.inl hmem

/-- The body of each quantifier in a path has been read one variable further in, and has been found
to be a condition. -/
theorem MemberTrail.bodies (h : MemberTrail answers Body scope p) :
    ∀ quantifier name body, .lambda quantifier name body ∈ p.path →
      (∃ member, Body (scope.bind name member) body) ∧
        (requireCondition quantifier.name body).Gives answers () := by
  have hsteps := h.rule (fun p => ∀ quantifier name body, .lambda quantifier name body ∈ p.steps →
    (∃ member, Body (scope.bind name member) body) ∧
      (requireCondition quantifier.name body).Gives answers ())
    (fun p p' hp hstep quantifier name body hmem =>
      (hstep.body_of_mem hmem).elim (hp quantifier name body) id)
    (fun _ _ _ hmem => absurd hmem List.not_mem_nil)
  intro quantifier name body hmem
  exact hsteps quantifier name body (List.mem_reverse.mp hmem)

end Bodies

/-! ### All nodes -/

/-- What the rules give each accepted expression, whatever variables are bound around it, holds of all
its nodes. -/
theorem ReadingRule.nodes {IsLiteral : String → Prop} {P : Scope → Expression → Prop}
    (rule : ReadingRule answers IsLiteral P)
    (outwards : ∀ {scope name type e}, P (Scope.bind scope name type) e → P scope e) :
    ReadingRule answers IsLiteral fun scope e => ∀ n ∈ e.nodes, P scope n := by
  have hself {scope : Scope} {e : Expression} (h : ∀ n ∈ e.nodes, P scope n) : P scope e :=
    h e e.mem_nodes_self
  have hitems {scope : Scope} {es : List Expression} (h : ∀ e ∈ es, ∀ n ∈ e.nodes, P scope n) :
      ∀ n ∈ itemNodes es, P scope n := by
    intro n hn
    obtain ⟨e, he, hn⟩ := mem_itemNodes.mp hn
    exact h e he n hn
  exact {
    literal := fun scope text h => List.forall_mem_singleton.mpr (rule.literal scope text h)
    enumeration := fun scope type members =>
      List.forall_mem_singleton.mpr (rule.enumeration scope type members)
    parameterAlias := fun scope name => List.forall_mem_singleton.mpr (rule.parameterAlias scope name)
    typeName := fun scope type => List.forall_mem_singleton.mpr (rule.typeName scope type)
    boundVariable := fun scope name type bound =>
      List.forall_mem_singleton.mpr (rule.boundVariable scope name type bound)
    unary := by
      intro scope op operand type htype hoperand
      rw [nodes_unary, List.forall_mem_cons]
      exact ⟨rule.unary scope op operand type htype (hself hoperand), hoperand⟩
    call := by
      intro scope m arguments takes harguments
      rw [nodes_call, List.forall_mem_cons]
      exact ⟨rule.call scope m arguments takes fun a ha => hself (harguments a ha),
        hitems harguments⟩
    list := by
      intro scope items h
      rw [nodes_list, List.forall_mem_cons]
      exact ⟨rule.list scope items fun item hitem => hself (h item hitem), hitems h⟩
    binary := by
      intro scope op left right type htype hleft hright hcompared
      rw [nodes_binary, List.forall_mem_cons, List.forall_mem_append]
      exact ⟨rule.binary scope op left right type htype (hself hleft) (hself hright) hcompared,
        hleft, hright⟩
    member := by
      intro scope p h
      rw [nodes_member, List.forall_mem_cons]
      -- a node of the path that is not the path itself is one of a body, read further in
      refine ⟨rule.member scope p (h.mono fun _ _ => hself), fun n hn => ?_⟩
      obtain ⟨quantifier, name, body, hmem, hn⟩ := mem_pathNodes.mp hn
      obtain ⟨⟨_, hbody⟩, -⟩ := h.bodies quantifier name body hmem
      exact outwards (hbody n hn) }

end ODataRequest
