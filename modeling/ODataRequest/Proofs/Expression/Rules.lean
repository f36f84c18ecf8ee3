import ODataRequest.Expression.Reader
import ODataRequest.Proofs.Token.Reader

/-!
# ODataRequest.Proofs.Expression.Rules

One rule for each part of the reader of expressions: what it reads, and when.
-/

namespace ODataRequest

open TokenReader

variable {answers : Answers} {scope : Scope} {nested : OperandReader} {source : String}

/-! ### Operators between operands -/

/-- The step of the loop over operators. -/
def operatorStep (scope : Scope) (nested : OperandReader) (least : Nat) (left : Expression)
    (t : Token) : Option (TokenReader Expression) :=
  (operator? least t).map fun op => binaryExpression scope nested left op

/-- No operator follows that binds as tight as `least`. -/
def Closed (least : Nat) (rest : List Token) : Prop :=
  ∀ t ∈ rest.head?, operator? least t = none

theorem operator?_of_kind_ne {t : Token} (h : t.kind ≠ .identifier) (least : Nat) :
    operator? least t = none := by
  simp [operator?, h]

theorem closed_cons {t : Token} {least : Nat} (h : operator? least t = none) (ts : List Token) :
    Closed least (t :: ts) := by
  simpa [Closed] using h

theorem operator?_eq_some {least : Nat} {t : Token} {op : BinaryOperator} :
    operator? least t = some op ↔
      (t.kind = .identifier ∧ t.spaceBefore = true) ∧ BinaryOperator.ofName? t.text = some op ∧
        least ≤ op.precedence := by
  unfold operator?
  split
  · rename_i h
    simp [h, Option.filter_eq_some_iff]
  · rename_i h
    simp [h]

theorem Closed.mono {least least' : Nat} (hle : least ≤ least') {rest : List Token}
    (h : Closed least rest) : Closed least' rest := by
  intro t ht
  cases hop : operator? least' t with
  | none => rfl
  | some op =>
    obtain ⟨hword, hname, hleast⟩ := operator?_eq_some.mp hop
    have hnone := h t ht
    rw [operator?_eq_some.mpr ⟨hword, hname, Nat.le_trans hle hleast⟩] at hnone
    cases hnone

/-- No operator binds as tight as one in front of its operand. -/
theorem closed_unary (rest : List Token) : Closed unaryPrecedence rest := by
  intro t _
  cases hop : operator? unaryPrecedence t with
  | none => rfl
  | some op =>
    obtain ⟨-, -, hleast⟩ := operator?_eq_some.mp hop
    exact absurd op.precedence_lt (Nat.not_lt.mpr hleast)

/-- The loop ends in front of what it does not take. -/
theorem reads_operatorStep_closed {least : Nat} {e : Expression} {rest : List Token}
    (h : Closed least rest) :
    Reads answers (foldWhile (operatorStep scope nested least) e) source rest e rest := by
  refine reads_foldWhile.mpr (Or.inl ⟨fun t ht => ?_, rfl, rfl⟩)
  simp [operatorStep, h t ht]

/-- The operand comes first, the operators behind it follow. -/
theorem reads_operands {least : Nat} {e : Expression} {ts rest : List Token} :
    Reads answers (operands scope nested least) source ts e rest ↔
      ∃ first between, Reads answers (operand scope nested) source ts first between ∧
        Reads answers (foldWhile (operatorStep scope nested least) first) source between e rest :=
  reads_bind

/-- With no level left nothing is read. -/
theorem not_reads_expressionWithin_zero {limit least : Nat} {e : Expression} {ts rest : List Token} :
    ¬Reads answers (expressionWithin limit 0 scope least) source ts e rest := by
  rintro ⟨_, hrefused⟩
  exact Resolution.not_gives_refuse hrefused

/-! ### Operands -/

/-- An operand starts with a token. -/
theorem reads_operand {e : Expression} {ts rest : List Token} :
    Reads answers (operand scope nested) source ts e rest ↔
      ∃ t us, ts = t :: us ∧ t.kind ≠ .endOfText ∧
        Reads answers (operandFrom scope nested t (firstToken us)) source us e rest := by
  unfold operand
  simp only [reads_bind, reads_peek]
  constructor
  · rintro ⟨t, _, hnext, _, us, ⟨rfl, rfl⟩, hfrom⟩
    by_cases hend : t.kind = .endOfText
    · simp [operandFrom, hend] at hfrom
    · exact ⟨t, us, (reads_next hend).mp hnext, hend, hfrom⟩
  · rintro ⟨t, us, rfl, hend, hfrom⟩
    exact ⟨t, us, (reads_next hend).mpr rfl, _, us, ⟨rfl, rfl⟩, hfrom⟩

theorem reads_unaryExpression {op : UnaryOperator} {e : Expression} {ts rest : List Token} :
    Reads answers (unaryExpression scope nested op) source ts e rest ↔
      ∃ operand type, Reads answers (nested scope unaryPrecedence) source ts operand rest ∧
        op.resultType operand.type? = .ok type ∧ e = .unary op operand type := by
  unfold unaryExpression
  simp only [reads_bind, reads_lift, reads_pure, Resolution.gives_ofSemantic]
  constructor
  · rintro ⟨operand, _, hoperand, type, _, ⟨htype, rfl⟩, rfl, rfl⟩
    exact ⟨operand, type, hoperand, htype, rfl⟩
  · rintro ⟨operand, type, hoperand, htype, rfl⟩
    exact ⟨operand, rest, hoperand, type, rest, ⟨htype, rfl⟩, rfl, rfl⟩

/-- A call has no arguments, or some with commas between them. -/
theorem reads_methodCall {m : Method} {e : Expression} {ts rest : List Token} :
    Reads answers (methodCall scope nested m) source ts e rest ↔
      ∃ opening us arguments closing, ts = opening :: us ∧ opening.kind = .openParen ∧
        closing.kind = .closeParen ∧ m.takes arguments.length = true ∧ e = .call m arguments ∧
          ((arguments = [] ∧ us = closing :: rest) ∨ ((firstToken us).kind ≠ .closeParen ∧
            ReadsItems answers (methodArgument scope nested m) source us arguments
              (closing :: rest))) := by
  unfold methodCall
  simp only [reads_bind, reads_ite, reads_expect (show TokenKind.openParen ≠ .endOfText by decide),
    reads_expect (show TokenKind.closeParen ≠ .endOfText by decide),
    reads_skips (show TokenKind.closeParen ≠ .endOfText by decide), reads_commaSeparated,
    reads_pure, reads_lift, Resolution.not_gives_refuse, false_and, and_false, or_false]
  constructor
  · rintro ⟨opening, us, ⟨rfl, hopening⟩, skipped, between, hskips, hcall⟩
    rcases hcall with ⟨rfl, _, _, ⟨rfl, rfl⟩, htakes, rfl, rfl⟩ |
      ⟨hnot, arguments, _, hitems, closing, _, ⟨rfl, hclosing⟩, _, _, ⟨rfl, rfl⟩, htakes, rfl, rfl⟩
    · obtain ⟨-, closing, rfl, hclosing⟩ | ⟨hfalse, -⟩ := hskips
      · exact ⟨opening, _, [], closing, rfl, hopening, hclosing, htakes, rfl, Or.inl ⟨rfl, rfl⟩⟩
      · cases hfalse
    · obtain ⟨htrue, -⟩ | ⟨-, hfirst, rfl⟩ := hskips
      · exact absurd htrue hnot
      · exact ⟨opening, _, arguments, closing, rfl, hopening, hclosing, htakes, rfl,
          Or.inr ⟨hfirst, hitems⟩⟩
  · rintro ⟨opening, us, arguments, closing, rfl, hopening, hclosing, htakes, rfl, hcall⟩
    refine ⟨opening, us, ⟨rfl, hopening⟩, ?_⟩
    rcases hcall with ⟨rfl, rfl⟩ | ⟨hfirst, hitems⟩
    · exact ⟨true, rest, Or.inl ⟨rfl, closing, rfl, hclosing⟩,
        Or.inl ⟨rfl, [], rest, ⟨rfl, rfl⟩, htakes, rfl, rfl⟩⟩
    · exact ⟨false, us, Or.inr ⟨rfl, hfirst, rfl⟩, Or.inr ⟨by simp, arguments, _, hitems, closing,
        rest, ⟨rfl, hclosing⟩, arguments, rest, ⟨rfl, rfl⟩, htakes, rfl, rfl⟩⟩

/-- An argument is the name of a type, or an expression. -/
theorem methodArgument_cases {m : Method} {e : Expression} {ts rest : List Token}
    (h : Reads answers (methodArgument scope nested m) source ts e rest) :
    (∃ t type, ts = t :: rest ∧ t.kind = .identifier ∧ e = .typeName type) ∨
      Reads answers (nested scope 0) source ts e rest := by
  unfold methodArgument at h
  simp only [reads_bind, reads_peek, reads_peekAt, reads_ite, reads_pure] at h
  obtain ⟨t, _, ⟨rfl, rfl⟩, _, _, ⟨-, rfl⟩, ⟨hname, u, us, hnext, name, _, hlift, _, _, hanswer,
    type, _, htype, rfl, rfl⟩ | ⟨-, h⟩⟩ := h
  · simp only [Bool.and_eq_true, beq_iff_eq] at hname
    obtain ⟨first, us', rfl, hkind⟩ := firstToken_kind_eq (by decide) hname.1.1.2
    rw [reads_next_cons, if_neg (by rw [hkind]; decide)] at hnext
    obtain ⟨-, rfl⟩ := hnext
    obtain ⟨-, rfl⟩ := reads_lift.mp hlift
    obtain ⟨-, rfl⟩ := reads_lift.mp hanswer
    obtain ⟨-, rfl⟩ := reads_lift.mp htype
    exact Or.inl ⟨first, type, rfl, hkind, rfl⟩
  · exact Or.inr h

/-- A name that is read neither as an operator nor as a method if a group stands behind it. -/
def IsCallable (name : String) : Prop :=
  name ≠ "not" ∧ Method.ofName? name = none

/-- A token that a path starts with if `ts` stand behind it. -/
def BeginsPath (t : Token) (ts : List Token) : Prop :=
  t.kind = .dollar ∨ t.kind = .identifier ∧ ((firstToken ts).kind = .openParen → IsCallable t.text)

/-- What an operand is by its first token. A name with a group behind it is the call of a method if there
is a method of this name, and starts a path otherwise. -/
inductive OperandForm (answers : Answers) (scope : Scope) (nested : OperandReader) (source : String) :
    List Token → Expression → List Token → Prop
  | group {opening closing : Token} {ts rest : List Token} {e : Expression}
      (opens : opening.kind = .openParen)
      (inside : Reads answers (nested scope 0) source ts e (closing :: rest))
      (closes : closing.kind = .closeParen) :
      OperandForm answers scope nested source (opening :: ts) e rest
  | minus {t : Token} {ts rest : List Token} {e : Expression} (isMinus : t.kind = .minus)
      (h : Reads answers (unaryExpression scope nested .minus) source ts e rest) :
      OperandForm answers scope nested source (t :: ts) e rest
  | not {t : Token} {ts rest : List Token} {e : Expression} (isName : t.kind = .identifier)
      (isNot : t.text = "not")
      (h : Reads answers (unaryExpression scope nested .not) source ts e rest) :
      OperandForm answers scope nested source (t :: ts) e rest
  | literal {t : Token} {ts : List Token} (isLiteral : t.kind = .literal) :
      OperandForm answers scope nested source (t :: ts) (literalExpression t.text) ts
  | enumeration {t : Token} {ts : List Token} {type : EnumType} {members : List String}
      (isLiteral : t.kind = .enumLiteral)
      (h : (enumerationLiteral t.text).Gives answers (.enumeration type members)) :
      OperandForm answers scope nested source (t :: ts) (.enumeration type members) ts
  | parameterAlias {t : Token} {ts : List Token} (isAlias : t.kind = .parameterAlias) :
      OperandForm answers scope nested source (t :: ts) (.parameterAlias t.text) ts
  | call {t : Token} {ts rest : List Token} {m : Method} {e : Expression}
      (isName : t.kind = .identifier) (isMethod : Method.ofName? t.text = some m)
      (h : Reads answers (methodCall scope nested m) source ts e rest) :
      OperandForm answers scope nested source (t :: ts) e rest
  | path {t : Token} {ts rest : List Token} {e : Expression}
      (begins : BeginsPath t ts)
      (h : Reads answers (memberPath scope nested t) source ts e rest) :
      OperandForm answers scope nested source (t :: ts) e rest

theorem gives_enumerationLiteral {text : String} {e : Expression}
    (h : (enumerationLiteral text).Gives answers e) :
    ∃ type members, e = .enumeration type members := by
  unfold enumerationLiteral at h
  split at h
  · cases h
  · simp only [Resolution.gives_bind, Resolution.gives_pure] at h
    obtain ⟨_, _, _, _, _, _, _, _, rfl⟩ := h
    exact ⟨_, _, rfl⟩

theorem operandForm {e : Expression} {ts rest : List Token}
    (h : Reads answers (operand scope nested) source ts e rest) :
    OperandForm answers scope nested source ts e rest := by
  obtain ⟨t, us, rfl, -, h⟩ := reads_operand.mp h
  unfold operandFrom at h
  dsimp only at h
  split at h
  · next hkind =>
    simp only [reads_bind, reads_pure,
      reads_expect (show TokenKind.closeParen ≠ .endOfText by decide)] at h
    obtain ⟨inner, _, hinner, closing, _, ⟨rfl, hclosing⟩, rfl, rfl⟩ := h
    exact .group hkind hinner hclosing
  · next hkind => exact .minus hkind h
  · next hkind =>
    obtain ⟨rfl, rfl⟩ := reads_pure.mp h
    exact .literal hkind
  · next hkind =>
    obtain ⟨hgives, rfl⟩ := reads_lift.mp h
    obtain ⟨type, members, rfl⟩ := gives_enumerationLiteral hgives
    exact .enumeration hkind hgives
  · next hkind =>
    obtain ⟨rfl, rfl⟩ := reads_pure.mp h
    exact .parameterAlias hkind
  · next hkind =>
    split at h
    · next hnot => exact .not hkind hnot.1 h
    · next hnot =>
      split at h
      · next hmethod => exact .call hkind hmethod h
      · next hcall =>
        refine .path (Or.inr ⟨hkind, fun hopens => ⟨fun htext => ?_, ?_⟩⟩) h
        · exact hnot ⟨htext, by simp [hopens]⟩
        · cases hmethod : Method.ofName? t.text with
          | none => rfl
          | some m => exact absurd hmethod (hcall m (by simp [hopens]))
  · next hkind => exact .path (Or.inl hkind) h
  · exact absurd h not_reads_malformed

/-! ### Right operands -/

theorem reads_listItem {left e : Expression} {ts rest : List Token} :
    Reads answers (listItem scope nested left) source ts e rest ↔
      Reads answers (nested scope 0) source ts e rest ∧
        ∃ type, BinaryOperator.eq.resultType left.type? e.type? = .ok type := by
  unfold listItem
  simp only [reads_bind, reads_lift, reads_pure, Resolution.gives_ofSemantic]
  constructor
  · rintro ⟨item, _, hitem, type, _, ⟨htype, rfl⟩, rfl, rfl⟩
    exact ⟨hitem, type, htype⟩
  · rintro ⟨hitem, type, htype⟩
    exact ⟨e, rest, hitem, type, rest, ⟨htype, rfl⟩, rfl, rfl⟩

/-- To the right of `in` stands an alias or a list. -/
theorem reads_listOperand {left e : Expression} {ts rest : List Token} :
    Reads answers (listOperand scope nested left) source ts e rest ↔
      (∃ t, ts = t :: rest ∧ t.kind = .parameterAlias ∧ e = .parameterAlias t.text) ∨
        ∃ opening us items closing, ts = opening :: us ∧ opening.kind = .openParen ∧
          ReadsItems answers (listItem scope nested left) source us items (closing :: rest) ∧
            closing.kind = .closeParen ∧ e = .list items := by
  unfold listOperand
  rw [reads_bind]
  constructor
  · rintro ⟨t, us, hnext, h⟩
    split at h
    · rename_i hkind
      obtain ⟨rfl, rfl⟩ := reads_pure.mp h
      rw [reads_next (by rw [hkind]; decide)] at hnext
      exact Or.inl ⟨t, hnext, hkind, rfl⟩
    · rename_i hkind
      simp only [reads_bind, reads_commaSeparated, reads_pure,
        reads_expect (show TokenKind.closeParen ≠ .endOfText by decide)] at h
      obtain ⟨items, _, hitems, closing, _, ⟨rfl, hclosing⟩, rfl, rfl⟩ := h
      rw [reads_next (by rw [hkind]; decide)] at hnext
      exact Or.inr ⟨t, us, items, closing, hnext, hkind, hitems, hclosing, rfl⟩
    · exact absurd h not_reads_malformed
  · rintro (⟨t, rfl, hkind, rfl⟩ | ⟨opening, us, items, closing, rfl, hkind, hitems, hclosing, rfl⟩)
    · refine ⟨t, rest, (reads_next (by rw [hkind]; decide)).mpr rfl, ?_⟩
      simp [hkind]
    · refine ⟨opening, us, (reads_next (by rw [hkind]; decide)).mpr rfl, ?_⟩
      simp only [hkind, reads_bind, reads_commaSeparated, reads_pure,
        reads_expect (show TokenKind.closeParen ≠ .endOfText by decide)]
      exact ⟨items, _, hitems, closing, rest, ⟨rfl, hclosing⟩, rfl, rfl⟩

/-- Between operators stands an operand that is read one level deeper, but for `in`. -/
theorem reads_binaryExpression {op : BinaryOperator} {left e : Expression} {ts rest : List Token} :
    Reads answers (binaryExpression scope nested left op) source ts e rest ↔
      ∃ right type,
        ((op = .isIn ∧ Reads answers (listOperand scope nested left) source ts right rest) ∨
          (op ≠ .isIn ∧ Reads answers (nested scope (op.precedence + 1)) source ts right rest)) ∧
        op.resultType left.type? right.type? = .ok type ∧ e = .binary op left right type := by
  unfold binaryExpression
  simp only [reads_bind, reads_lift, reads_pure, reads_ite, Resolution.gives_ofSemantic]
  constructor
  · rintro (⟨hop, right, _, hright, type, _, ⟨htype, rfl⟩, rfl, rfl⟩ |
      ⟨hop, right, _, hright, type, _, ⟨htype, rfl⟩, rfl, rfl⟩)
    · exact ⟨_, type, Or.inl ⟨hop, hright⟩, htype, rfl⟩
    · exact ⟨_, type, Or.inr ⟨hop, hright⟩, htype, rfl⟩
  · rintro ⟨right, type, ⟨hop, hright⟩ | ⟨hop, hright⟩, htype, rfl⟩
    · exact Or.inl ⟨hop, right, rest, hright, type, rest, ⟨htype, rfl⟩, rfl, rfl⟩
    · exact Or.inr ⟨hop, right, rest, hright, type, rest, ⟨htype, rfl⟩, rfl, rfl⟩

/-! ### Paths -/

/-- A path leads into the model. -/
theorem reads_memberPath {first : Token} {e : Expression} {ts rest : List Token}
    (h : Reads answers (memberPath scope nested first) source ts e rest) :
    (∃ name type, e = .boundVariable name type) ∨ ∃ start path, e = .member start path := by
  unfold memberPath at h
  simp only [reads_bind] at h
  obtain ⟨_, _, -, h⟩ := h
  split at h
  · obtain ⟨rfl, -⟩ := reads_pure.mp h
    exact Or.inl ⟨_, _, rfl⟩
  · simp only [reads_bind, reads_pure] at h
    obtain ⟨_, _, -, p, _, -, rfl, -⟩ := h
    exact Or.inr ⟨_, _, rfl⟩

end ODataRequest
