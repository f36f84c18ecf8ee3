import ODataRequest.Proofs.Expression.Nodes

/-!
# ODataRequest.Proofs.Expression.Height

How deep the trees of accepted expressions are. The limit of a reader counts its own recursion, which
goes into parentheses, behind a sign and to the right of an operator; operands to the left are put
together by a loop. So it bounds how often a way down the tree turns away from the left operands, or
enters one that stands between parentheses (`Expression.turns`): a level of the reader adds two turns
at most, an operator and a list to its right (`turns_levelRule`). Between two turns there may be any
number of left operands, and the height of the tree is bounded only together with the longest chain
of these (`Expression.height_le`).
-/

namespace ODataRequest

open TokenReader

namespace Expression

/-! ### Heights -/

/-- Can an expression be the left operand of an operator without parentheses around it? A result of
`in` is read as such an operand whatever operator follows. -/
def bareLeft (op : BinaryOperator) (left : Expression) : Bool :=
  decide (op.precedence ≤ left.precedence) || left.isMembership

mutual

/-- The greatest number of nodes on a way down an expression, the bodies of quantifiers included, if
a step to the left operand of an operator counts as `leftStep` says. -/
def heightBy (leftStep : BinaryOperator → Expression → Nat) : Expression → Nat
  | .binary op left right _ =>
    max (left.heightBy leftStep + leftStep op left) (right.heightBy leftStep + 1)
  | .unary _ operand _ => operand.heightBy leftStep + 1
  | .call _ arguments => itemHeightBy leftStep arguments + 1
  | .list items => itemHeightBy leftStep items + 1
  | .member _ path => pathHeightBy leftStep path + 1
  | .literal _ _ => 1
  | .parameterAlias _ => 1
  | .typeName _ => 1
  | .enumeration _ _ => 1
  | .boundVariable _ _ => 1
termination_by structural e => e

/-- The greatest height of some expressions. -/
def itemHeightBy (leftStep : BinaryOperator → Expression → Nat) : List Expression → Nat
  | [] => 0
  | e :: es => max (e.heightBy leftStep) (itemHeightBy leftStep es)
termination_by structural es => es

/-- The height of what is applied in a step of a path. -/
def stepHeightBy (leftStep : BinaryOperator → Expression → Nat) : Resource → Nat
  | .lambda _ _ body => body.heightBy leftStep
  | _ => 0
termination_by structural r => r

/-- The greatest height of what is applied in the steps of a path. -/
def pathHeightBy (leftStep : BinaryOperator → Expression → Nat) : List Resource → Nat
  | [] => 0
  | r :: rs => max (stepHeightBy leftStep r) (pathHeightBy leftStep rs)
termination_by structural rs => rs

end

/-- Every step counts. -/
def everyStep : BinaryOperator → Expression → Nat :=
  fun _ _ => 1

/-- A step to a left operand counts if there have to be parentheses. -/
def groupStep : BinaryOperator → Expression → Nat :=
  fun op left => if bareLeft op left then 0 else 1

/-- The height of an expression as a tree: how deep a walk through all its operands, arguments, items
and bodies of quantifiers recurses. -/
def height (e : Expression) : Nat :=
  e.heightBy everyStep

/-- The height of an expression if a chain of operators with their left operands counts as one node,
as long as no operand of the chain needs parentheses. -/
def turns (e : Expression) : Nat :=
  e.heightBy groupStep

/-- How many left operands without parentheses stand below each other at the top of an expression. -/
def leftChain : Expression → Nat
  | .binary op left _ _ => if bareLeft op left then left.leftChain + 1 else 0
  | _ => 0

theorem itemHeightBy_le {leftStep : BinaryOperator → Expression → Nat} {n : Nat}
    {es : List Expression} :
    itemHeightBy leftStep es ≤ n ↔ ∀ e ∈ es, e.heightBy leftStep ≤ n := by
  induction es with
  | nil => exact iff_of_true (Nat.zero_le n) nofun
  | cons e es ih => rw [itemHeightBy, Nat.max_le, ih, List.forall_mem_cons]

theorem pathHeightBy_le {leftStep : BinaryOperator → Expression → Nat} {n : Nat}
    {rs : List Resource} :
    pathHeightBy leftStep rs ≤ n ↔ ∀ quantifier name body, .lambda quantifier name body ∈ rs →
      body.heightBy leftStep ≤ n := by
  have hstep {r : Resource} : stepHeightBy leftStep r ≤ n ↔ ∀ quantifier name body,
      r = .lambda quantifier name body → body.heightBy leftStep ≤ n := by
    cases r <;> simp [stepHeightBy]
  induction rs with
  | nil => exact iff_of_true (Nat.zero_le n) nofun
  | cons r rs ih =>
    simp only [pathHeightBy, Nat.max_le, ih, hstep, List.mem_cons]
    grind

section Equations

variable {op : BinaryOperator} {left right : Expression} {type : Option ModelType}

theorem height_binary :
    (binary op left right type).height = max (left.height + 1) (right.height + 1) := rfl

theorem turns_binary : (binary op left right type).turns =
    max (left.turns + if bareLeft op left then 0 else 1) (right.turns + 1) := rfl

theorem leftChain_binary : (binary op left right type).leftChain =
    if bareLeft op left then left.leftChain + 1 else 0 := rfl

end Equations

/-! ### Chains of left operands -/

section LeftChains

variable {k : Nat}

theorem itemHeightBy_everyStep_le {es : List Expression}
    (h : ∀ e ∈ es, e.height ≤ e.turns * (k + 1)) :
    itemHeightBy everyStep es ≤ itemHeightBy groupStep es * (k + 1) := by
  refine itemHeightBy_le.mpr fun e he => ?_
  have hturns : e.turns ≤ itemHeightBy groupStep es := itemHeightBy_le.mp (Nat.le_refl _) e he
  exact Nat.le_trans (h e he) (Nat.mul_le_mul_right (k + 1) hturns)

theorem pathHeightBy_everyStep_le {rs : List Resource} (h : ∀ quantifier name body,
    .lambda quantifier name body ∈ rs → body.height ≤ body.turns * (k + 1)) :
    pathHeightBy everyStep rs ≤ pathHeightBy groupStep rs * (k + 1) := by
  refine pathHeightBy_le.mpr fun quantifier name body hmem => ?_
  have hturns : body.turns ≤ pathHeightBy groupStep rs :=
    pathHeightBy_le.mp (Nat.le_refl _) quantifier name body hmem
  exact Nat.le_trans (h quantifier name body hmem) (Nat.mul_le_mul_right (k + 1) hturns)

/-- With chains of at most `k` left operands at the top of every node, an expression is at most
`k + 1` times as high as it has turns. Of the chain at its own top only what is there counts. -/
theorem height_add_le {e : Expression} (h : ∀ n ∈ e.nodes, n.leftChain ≤ k) :
    e.height + k ≤ e.leftChain + e.turns * (k + 1) := by
  -- below a step that turns there may be a chain of any length up to `k`
  have hturn {height turns : Nat} (hle : height ≤ turns * (k + 1)) :
      height + 1 + k ≤ 0 + (turns + 1) * (k + 1) := by
    rw [Nat.succ_mul]
    omega
  have hpart {n : Expression} (hchain : n.leftChain ≤ k)
      (hn : n.height + k ≤ n.leftChain + n.turns * (k + 1)) : n.height ≤ n.turns * (k + 1) := by
    omega
  match e with
  | .binary op left right type =>
    rw [nodes_binary, List.forall_mem_cons, List.forall_mem_append] at h
    obtain ⟨-, hleft, hright⟩ := h
    have hright := hturn (hpart (hright _ right.mem_nodes_self) (height_add_le hright))
    have hchain := height_add_le hleft
    have hgroup := hturn (hpart (hleft _ left.mem_nodes_self) hchain)
    rw [height_binary, turns_binary, leftChain_binary, ← Nat.mul_max_mul_right]
    split
    · rw [Nat.add_zero left.turns]
      omega
    · omega
  | .unary op operand type =>
    rw [nodes_unary, List.forall_mem_cons] at h
    exact hturn (hpart (h.2 _ operand.mem_nodes_self) (height_add_le h.2))
  | .call method arguments =>
    rw [nodes_call, List.forall_mem_cons] at h
    refine hturn (itemHeightBy_everyStep_le fun argument hmem => ?_)
    have hchains : ∀ n ∈ argument.nodes, n.leftChain ≤ k := fun n hn =>
      h.2 n (mem_itemNodes.mpr ⟨argument, hmem, hn⟩)
    exact hpart (hchains _ argument.mem_nodes_self) (height_add_le hchains)
  | .list items =>
    rw [nodes_list, List.forall_mem_cons] at h
    refine hturn (itemHeightBy_everyStep_le fun item hmem => ?_)
    have hchains : ∀ n ∈ item.nodes, n.leftChain ≤ k := fun n hn =>
      h.2 n (mem_itemNodes.mpr ⟨item, hmem, hn⟩)
    exact hpart (hchains _ item.mem_nodes_self) (height_add_le hchains)
  | .member start path =>
    rw [nodes_member, List.forall_mem_cons] at h
    refine hturn (pathHeightBy_everyStep_le fun quantifier name body hmem => ?_)
    have hchains : ∀ n ∈ body.nodes, n.leftChain ≤ k := fun n hn =>
      h.2 n (mem_pathNodes.mpr ⟨quantifier, name, body, hmem, hn⟩)
    have hsmaller : sizeOf body < sizeOf path := by
      have hstep := List.sizeOf_lt_of_mem hmem
      rw [Resource.lambda.sizeOf_spec] at hstep
      omega
    exact hpart (hchains _ body.mem_nodes_self) (height_add_le hchains)
  | .literal _ _ | .parameterAlias _ | .typeName _ | .enumeration _ _ | .boundVariable _ _ =>
    exact hturn (Nat.zero_le _)
termination_by sizeOf e

/-- With chains of at most `k` left operands, an expression is at most `k + 1` times as high as it has
turns. -/
theorem height_le {e : Expression} (h : ∀ n ∈ e.nodes, n.leftChain ≤ k) :
    e.height ≤ e.turns * (k + 1) := by
  have hheight := height_add_le h
  have hchain := h e e.mem_nodes_self
  omega

end LeftChains

end Expression

/-! ### Turns in accepted expressions -/

variable {answers : Answers} {scope : Scope} {source : String} {ts rest : List Token}
variable {e : Expression}

open Expression

/-- A left operand counts as one turn more only where it has been read one level deeper. -/
theorem turns_left {n : Nat} {op : BinaryOperator} {left : Expression} (hleft : left.turns ≤ n + 2)
    (stands : StandsLeft (fun _ e => e.turns ≤ n) scope op left) :
    left.turns + groupStep op left ≤ n + 2 := by
  unfold groupStep
  split
  · exact hleft
  · next hgroup =>
    simp only [bareLeft, Bool.or_eq_true, decide_eq_true_eq, not_or] at hgroup
    obtain htight | hmember | hinner := stands
    · exact absurd htight hgroup.1
    · exact absurd hmember hgroup.2
    · exact Nat.le_succ_of_le (Nat.succ_le_succ hinner)

/-- A level adds two turns: one to the right of an operator, and one from the list there to its
items. -/
theorem turns_levelRule (n : Nat) : LevelRule answers (fun _ => True) (fun _ e => e.turns ≤ n)
    (fun _ e => e.turns ≤ n + 2) where
  group := fun _ _ h => Nat.le_add_right_of_le h
  literal := fun _ _ _ => Nat.le_add_left 1 (n + 1)
  enumeration := fun _ _ _ => Nat.le_add_left 1 (n + 1)
  parameterAlias := fun _ _ => Nat.le_add_left 1 (n + 1)
  boundVariable := fun _ _ _ _ => Nat.le_add_left 1 (n + 1)
  unary := fun _ _ _ _ _ hoperand => Nat.le_succ_of_le (Nat.succ_le_succ hoperand)
  call := by
    intro scope m arguments takes harguments
    refine Nat.succ_le_succ (itemHeightBy_le.mpr fun argument hmem => ?_)
    obtain ⟨type, rfl⟩ | hargument := harguments argument hmem
    · exact Nat.le_add_left 1 n
    · exact Nat.le_succ_of_le hargument
  member := by
    intro scope p h
    refine Nat.succ_le_succ (pathHeightBy_le.mpr fun quantifier name body hmem => ?_)
    obtain ⟨⟨_, hbody⟩, -⟩ := h.bodies quantifier name body hmem
    exact Nat.le_succ_of_le hbody
  binary := fun _ _ _ _ _ _ _ hleft stands hright =>
    Nat.max_le.mpr ⟨turns_left hleft stands, Nat.le_succ_of_le (Nat.succ_le_succ hright)⟩
  inAlias := fun _ _ _ _ _ hleft stands =>
    Nat.max_le.mpr ⟨turns_left hleft stands, Nat.le_add_left 2 n⟩
  inList := by
    intro scope left items type htype hleft stands hitems
    have hlist : itemHeightBy groupStep items ≤ n :=
      itemHeightBy_le.mpr fun item hmem => (hitems item hmem).1
    exact Nat.max_le.mpr ⟨turns_left hleft stands, Nat.add_le_add_right hlist 2⟩

theorem turns_expressionWithin (answers : Answers) (limit room : Nat) :
    (expressionWithin limit room).Ensures answers (fun _ => True) fun _ e => e.turns ≤ 2 * room :=
  LevelRule.expressionWithin (P := fun room _ e => e.turns ≤ 2 * room)
    (fun room => turns_levelRule (2 * room)) limit room

/-- An accepted expression has at most two turns for each level of the limit. -/
theorem turns_le {config : Config} (h : Reads answers (expression config scope) source ts e rest) :
    e.turns ≤ 2 * config.maxNesting :=
  turns_expressionWithin answers config.maxNesting config.maxNesting .of_any h

end ODataRequest
