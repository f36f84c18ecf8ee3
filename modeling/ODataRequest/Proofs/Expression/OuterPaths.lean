import ODataRequest.Proofs.Expression.Balanced

/-!
# ODataRequest.Proofs.Expression.OuterPaths

Where the paths of an accepted expression come from, but for those in the bodies of quantifiers: each of
them has been read as an operand from an end of the tokens of the expression, in the scope of the
expression itself (`PathReadIn`).

No reader changes the tokens that it leaves, so what is read behind them is still read from an end of
what there was. This carries a path from the operand that it is to everything around it, level by level.
-/

namespace ODataRequest

open TokenReader

namespace Expression

/-! ### Nodes outside quantifiers -/

mutual

/-- The nodes of an expression, but for those in the bodies of quantifiers. -/
def outerNodes : Expression → List Expression
  | .binary op left right type => .binary op left right type :: (left.outerNodes ++ right.outerNodes)
  | .unary op operand type => .unary op operand type :: operand.outerNodes
  | .call method arguments => .call method arguments :: outerItemNodes arguments
  | .list items => .list items :: outerItemNodes items
  | .literal text type => [.literal text type]
  | .member start path => [.member start path]
  | .parameterAlias name => [.parameterAlias name]
  | .typeName type => [.typeName type]
  | .enumeration type members => [.enumeration type members]
  | .boundVariable name type => [.boundVariable name type]
termination_by structural e => e

/-- The nodes of some expressions, but for those in the bodies of quantifiers. -/
def outerItemNodes : List Expression → List Expression
  | [] => []
  | e :: es => e.outerNodes ++ outerItemNodes es
termination_by structural es => es

end

section Paths

variable {start start' : Option ModelType} {path path' : List Resource}
variable {left right operand : Expression} {es : List Expression} {type : Option ModelType}

theorem mem_outerItemNodes {n : Expression} :
    n ∈ outerItemNodes es ↔ ∃ e ∈ es, n ∈ e.outerNodes := by
  induction es with
  | nil => exact iff_of_false nofun nofun
  | cons e es ih =>
    show n ∈ e.outerNodes ++ outerItemNodes es ↔ _
    rw [List.mem_append, ih, List.exists_mem_cons_iff]

/-! A path is no node of its own in what it stands in. -/

theorem member_mem_binary {op : BinaryOperator} :
    member start path ∈ (binary op left right type).outerNodes ↔
      member start path ∈ left.outerNodes ∨ member start path ∈ right.outerNodes := by
  simp [outerNodes]

theorem member_mem_unary {op : UnaryOperator} :
    member start path ∈ (unary op operand type).outerNodes ↔
      member start path ∈ operand.outerNodes := by
  simp [outerNodes]

theorem member_mem_call {m : Method} :
    member start path ∈ (call m es).outerNodes ↔ ∃ e ∈ es, member start path ∈ e.outerNodes := by
  simp [outerNodes, mem_outerItemNodes]

theorem member_mem_list :
    member start path ∈ (list es).outerNodes ↔ ∃ e ∈ es, member start path ∈ e.outerNodes := by
  simp [outerNodes, mem_outerItemNodes]

theorem member_mem_member :
    member start path ∈ (member start' path').outerNodes ↔ start = start' ∧ path = path' := by
  simp [outerNodes]

end Paths

end Expression

variable {answers : Answers} {scope : Scope} {nested : OperandReader} {source : String}
variable {ts us rest : List Token} {e : Expression}

/-! ### Paths in tokens -/

/-- The path has been read as an operand from an end of the tokens. -/
inductive PathReadIn (answers : Answers) (scope : Scope) (ts : List Token) (start : Option ModelType)
    (path : List Resource) : Prop
  | operand {nested : OperandReader} {source : String} {t : Token} {us rest : List Token}
      (balances : Balances answers nested) (isSuffix : t :: us <:+ ts) (begins : BeginsPath t us)
      (h : Reads answers (memberPath scope nested t) source us (.member start path) rest)

/-- The paths of the expression outside the bodies of quantifiers have been read in the tokens. -/
def Expression.PathsReadIn (answers : Answers) (scope : Scope) (ts : List Token) (e : Expression) :
    Prop :=
  ∀ start path, .member start path ∈ e.outerNodes → PathReadIn answers scope ts start path

/-- Whatever the reader accepts, it has read the paths in its tokens. -/
def ReadsPaths (answers : Answers) (nested : OperandReader) : Prop :=
  ∀ ⦃scope : Scope⦄ ⦃least : Nat⦄ ⦃source : String⦄ ⦃ts rest : List Token⦄ ⦃e : Expression⦄,
    Reads answers (nested scope least) source ts e rest → e.PathsReadIn answers scope ts

theorem Expression.PathsReadIn.of_isSuffix (h : e.PathsReadIn answers scope us) (hus : us <:+ ts) :
    e.PathsReadIn answers scope ts := by
  intro start path hmem
  obtain ⟨balances, isSuffix, begins, hread⟩ := h start path hmem
  exact .operand balances (isSuffix.trans hus) begins hread

theorem Expression.PathsReadIn.of_cons {t : Token} (h : e.PathsReadIn answers scope us) :
    e.PathsReadIn answers scope (t :: us) :=
  h.of_isSuffix (List.suffix_cons t us)

/-! ### Readers -/

theorem pathsReadIn_memberPath (balances : Balances answers nested) {t : Token}
    (begins : BeginsPath t ts) (h : Reads answers (memberPath scope nested t) source ts e rest) :
    e.PathsReadIn answers scope (t :: ts) := by
  intro start path hmem
  obtain ⟨name, type, rfl⟩ | ⟨start', path', rfl⟩ := reads_memberPath h
  · simp [Expression.outerNodes] at hmem
  · obtain ⟨rfl, rfl⟩ := Expression.member_mem_member.mp hmem
    exact .operand balances (List.suffix_refl _) begins h

section Level

variable (balances : Balances answers nested) (readsPaths : ReadsPaths answers nested)
include readsPaths

theorem pathsReadIn_unaryExpression {op : UnaryOperator}
    (h : Reads answers (unaryExpression scope nested op) source ts e rest) :
    e.PathsReadIn answers scope ts := by
  obtain ⟨operand, type, hoperand, -, rfl⟩ := reads_unaryExpression.mp h
  intro start path hmem
  exact readsPaths hoperand start path (Expression.member_mem_unary.mp hmem)

theorem pathsReadIn_methodArgument {m : Method}
    (h : Reads answers (methodArgument scope nested m) source ts e rest) :
    e.PathsReadIn answers scope ts := by
  obtain ⟨t, type, -, -, rfl⟩ | h := methodArgument_cases h
  · intro start path hmem
    simp [Expression.outerNodes] at hmem
  · exact readsPaths h

include balances

theorem pathsReadIn_methodCall {m : Method}
    (h : Reads answers (methodCall scope nested m) source ts e rest) :
    e.PathsReadIn answers scope ts := by
  obtain ⟨opening, us, arguments, closing, rfl, -, -, -, rfl, harguments⟩ := reads_methodCall.mp h
  intro start path hmem
  obtain ⟨argument, hargument, hmem⟩ := Expression.member_mem_call.mp hmem
  obtain ⟨rfl, -⟩ | ⟨-, hitems⟩ := harguments
  · cases hargument
  · obtain ⟨vs, _, hvs, hread⟩ := hitems.exists_isSuffix_of_mem
      (fun _ _ _ => balanced_methodArgument balances) hargument
    have hpaths := (pathsReadIn_methodArgument readsPaths hread).of_isSuffix hvs
    exact hpaths.of_cons start path hmem

theorem pathsReadIn_operand (h : Reads answers (operand scope nested) source ts e rest) :
    e.PathsReadIn answers scope ts := by
  cases operandForm h with
  | group _ inside => exact (readsPaths inside).of_cons
  | minus _ h | not _ _ h => exact (pathsReadIn_unaryExpression readsPaths h).of_cons
  | literal | enumeration | parameterAlias =>
    intro start path hmem
    simp [literalExpression, Expression.outerNodes] at hmem
  | call _ _ h => exact (pathsReadIn_methodCall balances readsPaths h).of_cons
  | path begins h => exact pathsReadIn_memberPath balances begins h

theorem pathsReadIn_listOperand {left : Expression}
    (h : Reads answers (listOperand scope nested left) source ts e rest) :
    e.PathsReadIn answers scope ts := by
  intro start path hmem
  obtain ⟨t, -, -, rfl⟩ | ⟨opening, us, items, closing, rfl, -, hitems, -, rfl⟩ :=
    reads_listOperand.mp h
  · simp [Expression.outerNodes] at hmem
  · obtain ⟨item, hitem, hmem⟩ := Expression.member_mem_list.mp hmem
    obtain ⟨vs, _, hvs, hread⟩ := hitems.exists_isSuffix_of_mem
      (fun _ _ _ h => balances (reads_listItem.mp h).1) hitem
    have hpaths := (readsPaths (reads_listItem.mp hread).1).of_isSuffix hvs
    exact hpaths.of_cons start path hmem

theorem pathsReadIn_binaryExpression {left : Expression} {op : BinaryOperator}
    (hleft : left.PathsReadIn answers scope ts) (hus : us <:+ ts)
    (h : Reads answers (binaryExpression scope nested left op) source us e rest) :
    e.PathsReadIn answers scope ts := by
  obtain ⟨right, type, hright, -, rfl⟩ := reads_binaryExpression.mp h
  have hright : right.PathsReadIn answers scope us := by
    obtain ⟨-, hright⟩ | ⟨-, hright⟩ := hright
    · exact pathsReadIn_listOperand balances readsPaths hright
    · exact readsPaths hright
  intro start path hmem
  obtain hmem | hmem := Expression.member_mem_binary.mp hmem
  · exact hleft start path hmem
  · exact hright.of_isSuffix hus start path hmem

theorem pathsReadIn_operands {least : Nat}
    (h : Reads answers (operands scope nested least) source ts e rest) :
    e.PathsReadIn answers scope ts := by
  obtain ⟨first, between, hfirst, hloop⟩ := reads_operands.mp h
  -- the loop over operators leaves an end of the tokens, and has read the paths so far in them
  refine (hloop.foldWhile_rule (fun left behind => behind <:+ ts ∧ left.PathsReadIn answers scope ts) ?_
    ⟨(balanced_operand balances hfirst).isSuffix, pathsReadIn_operand balances readsPaths hfirst⟩).1.2
  rintro left t us reader e' behind ⟨hsuffix, hleft⟩ hselect hread
  obtain ⟨op, -, rfl⟩ := Option.map_eq_some_iff.mp hselect
  have hus : us <:+ ts := (List.suffix_cons t us).trans hsuffix
  exact ⟨(balanced_binaryExpression balances hread).isSuffix.trans hus,
    pathsReadIn_binaryExpression balances readsPaths hleft hus hread⟩

end Level

/-- Every level of the reader reads the paths in its tokens, since the next one does. -/
theorem readsPaths_expressionWithin (answers : Answers) (limit room : Nat) :
    ReadsPaths answers (expressionWithin limit room) := by
  induction room with
  | zero =>
    intro scope least source ts rest e h
    exact absurd h not_reads_expressionWithin_zero
  | succ room ih =>
    intro scope least source ts rest e h
    exact pathsReadIn_operands (balances_expressionWithin answers limit room) ih h

end ODataRequest
