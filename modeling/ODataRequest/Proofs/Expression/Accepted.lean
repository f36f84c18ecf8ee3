import ODataRequest.Proofs.Expression.Formed
import ODataRequest.Proofs.Expression.Passes

/-!
# ODataRequest.Proofs.Expression.Accepted

What is known of the expressions of operators that a reader accepts (`Accepted`): they are formed,
their words are those that have been read, and their texts do not nest much deeper than what has
been read.

A text has parentheses where an operand in it had none only where the operand was read on a level of
its own, and that level is counted twice then. The exception are results of `in`, which a loop over
operators may go on from with an operator that binds tighter; these are counted by
`Expression.looseness`.
-/

namespace ODataRequest

open TokenReader

namespace Expression

variable {answers : Answers} {scope : Scope} {nested : OperandReader} {source : String}
variable {room least : Nat}

/-! ### Nesting -/

/-- How deep an expression nests that has been read within `room` levels, with the tokens `rest`
behind it. One level is left for parentheses around it, or it is made by an operator that binds as
tight as `least`, and then no tighter operator follows unless it is made by `in`. -/
def Shallow (room least : Nat) (e : Expression) (rest : List Token) : Prop :=
  e.levels < 2 * room + e.looseness ∨
    (least ≤ e.precedence ∧ e.precedence < unaryPrecedence ∧
      (e.isMembership = false → Closed (e.precedence + 1) rest) ∧
      e.levels ≤ 2 * room + e.looseness)

namespace Shallow

variable {e : Expression} {rest : List Token}

theorem levels_le (h : e.Shallow room least rest) : e.levels ≤ 2 * room + e.looseness := by
  rcases h with h | ⟨-, -, -, h⟩
  · exact Nat.le_of_lt h
  · exact h

/-- In a place that asks for no more than `least` there is room for parentheses. -/
theorem grouped_le (h : e.Shallow room least rest) :
    groupedLevels least e.precedence e.levels ≤ 2 * room + e.looseness := by
  unfold groupedLevels
  rcases h with h | ⟨hleast, -, -, h⟩
  · split <;> omega
  · rw [if_neg (Nat.not_lt.mpr hleast)]
    exact h

/-- What is read as tight as an operand leaves room for parentheses everywhere. -/
theorem levels_lt (h : e.Shallow room unaryPrecedence rest) :
    e.levels < 2 * room + e.looseness := by
  rcases h with h | ⟨hleast, hlt, -, -⟩
  · exact h
  · exact absurd hlt (Nat.not_lt.mpr hleast)

theorem precedence_of_isMembership (h : e.isMembership = true) :
    e.precedence = BinaryOperator.isIn.precedence := by
  unfold isMembership at h
  split at h
  · rfl
  · cases h

/-- To the left of an operator that follows there is room for parentheses, or it is one of those
that `looseness` counts. -/
theorem groupedLeft_le {t : Token} (h : e.Shallow room least (t :: rest)) {op : BinaryOperator}
    (hop : operator? least t = some op) :
    groupedLevels op.precedence e.precedence e.levels ≤
      2 * room + (e.looseness +
        if e.isMembership && decide (BinaryOperator.isIn.precedence < op.precedence) then 1
        else 0) := by
  unfold groupedLevels
  by_cases hlt : e.precedence < op.precedence
  · rw [if_pos hlt]
    rcases h with h | ⟨hleast, -, hclosed, h⟩
    · omega
    · cases hmember : e.isMembership with
      | true =>
        rw [precedence_of_isMembership hmember] at hlt
        simp only [hlt, decide_true, Bool.and_true, if_true]
        omega
      | false =>
        obtain ⟨hword, hname, -⟩ := operator?_eq_some.mp hop
        have hnone := hclosed hmember t (by simp)
        rw [operator?_eq_some.mpr ⟨hword, hname, hlt⟩] at hnone
        cases hnone
  · rw [if_neg hlt]
    have hle := h.levels_le
    omega

/-- One more round of the loop over operators. -/
theorem binary {t : Token} {us : List Token} {left right : Expression} {op : BinaryOperator}
    {type : Option ModelType} (hleft : left.Shallow (room + 1) least (t :: us))
    (hop : operator? least t = some op)
    (hright : groupedLevels (op.precedence + 1) right.precedence right.levels <
      2 * (room + 1) + right.looseness)
    (hclosed : op ≠ .isIn → Closed (op.precedence + 1) rest) :
    (Expression.binary op left right type).Shallow (room + 1) least rest := by
  have hleft := hleft.groupedLeft_le hop
  refine Or.inr ⟨(operator?_eq_some.mp hop).2.2, op.precedence_lt, fun hmember => hclosed ?_, ?_⟩
  · rintro rfl
    cases hmember
  · simp only [levels, looseness]
    omega

end Shallow

/-! ### Accepted expressions -/

/-- What is known of an expression of operators that has been read from `ts`, up to `rest`. -/
structure Accepted (room least : Nat) (ts : List Token) (e : Expression) (rest : List Token) :
    Prop where
  formed : e.Formed
  passes : Passes ts e.words rest
  shallow : e.Shallow room least rest

/-- The reader accepts only what is known of. -/
def Accepts (answers : Answers) (room : Nat) (nested : OperandReader) : Prop :=
  ∀ {scope : Scope} {least : Nat} {source : String} {ts rest : List Token} {e : Expression},
    Reads answers (nested scope least) source ts e rest → (∀ t ∈ ts, t.Genuine) →
      e.isOperatorTree = true → e.Accepted room least ts rest ∧ Closed least rest

/-- Items are accepted one by one. -/
theorem accepted_items {item : TokenReader Expression}
    (hitem : ∀ {ts rest : List Token} {e : Expression}, Reads answers item source ts e rest →
      (∀ t ∈ ts, t.Genuine) → e.isOperatorTree = true → e.Accepted room 0 ts rest)
    {ts rest : List Token} {es : List Expression}
    (h : ReadsItems answers item source ts es rest) (genuine : ∀ t ∈ ts, t.Genuine)
    (trees : areOperatorTrees es = true) :
    (∀ e ∈ es, e.Formed) ∧ Passes ts (itemWords es) rest ∧
      itemLevels es ≤ 2 * room + itemLooseness es := by
  induction h with
  | @last ts rest e h =>
    have trees : (e.isOperatorTree && true) = true := trees
    rw [Bool.and_true] at trees
    have accepted := hitem h genuine trees
    refine ⟨?_, accepted.passes, ?_⟩
    · rintro x hx
      rw [List.mem_singleton.mp hx]
      exact accepted.formed
    · have hle := accepted.shallow.levels_le
      simp only [itemLevels, itemLooseness]
      omega
  | @more ts us rest t e es h comma others ih =>
    rw [areOperatorTrees, Bool.and_eq_true] at trees
    have accepted := hitem h genuine trees.1
    have genuine := accepted.passes.genuine genuine
    obtain ⟨formed, passes, hlevels⟩ :=
      ih (fun u hu => genuine u (List.mem_cons_of_mem t hu)) trees.2
    refine ⟨?_, ?_, ?_⟩
    · rintro x hx
      rcases List.mem_cons.mp hx with rfl | hx
      · exact accepted.formed
      · exact formed x hx
    · have hword : t.word = Word.comma := (genuine t List.mem_cons_self).word_eq comma rfl
      have hcomma : Passes (t :: us) (Word.comma :: itemWords es) rest := by
        rw [← hword]
        exact passes.word (by rw [comma]; decide) (by rw [comma]; decide) (by rw [comma]; decide)
          (by rw [hword]; decide)
      have hall := accepted.passes.trans hcomma
      cases others <;> exact hall
    · have hle := accepted.shallow.levels_le
      simp only [itemLevels, itemLooseness]
      omega

/-! ### Operands -/

/-- What is read as tight as an operand with fewer levels than are there. -/
theorem accepted_operand {ts rest : List Token} {e : Expression} (formed : e.Formed)
    (passes : Passes ts e.words rest) (hlevels : e.levels < 2 * room + e.looseness) :
    e.Accepted room unaryPrecedence ts rest :=
  ⟨formed, passes, Or.inl hlevels⟩

theorem accepted_unary {op : UnaryOperator} {sign : Token} {us rest : List Token} {e : Expression}
    (hnested : Accepts answers room nested)
    (h : Reads answers (unaryExpression scope nested op) source us e rest)
    (hsign : sign.word = op.word) (genuine : ∀ t ∈ us, t.Genuine)
    (tree : e.isOperatorTree = true) :
    e.Accepted (room + 1) unaryPrecedence (sign :: us) rest := by
  obtain ⟨operand, type, hoperand, fits, rfl⟩ := reads_unaryExpression.mp h
  rw [isOperatorTree, Bool.and_eq_true] at tree
  obtain ⟨accepted, -⟩ := hnested hoperand genuine tree.1
  refine accepted_operand (.unary accepted.formed ?_ fits) ?_ ?_
  · rintro rfl
    simpa using tree.2
  · rw [words, ← hsign]
    have hkind : sign.kind = op.word.kind := congrArg Word.kind hsign
    refine accepted.passes.word ?_ ?_ ?_ (by rw [hsign]; exact op.opensItems_word)
    all_goals rw [hkind]; cases op <;> decide
  · have hlt := accepted.shallow.levels_lt
    have hle : groupedLevels unitPrecedence operand.precedence operand.levels ≤
        operand.levels + 1 := by
      unfold groupedLevels
      split <;> omega
    simp only [levels, looseness]
    omega

theorem reads_methodArgument_nested {m : Method} {e : Expression} {ts rest : List Token}
    (h : Reads answers (methodArgument scope nested m) source ts e rest)
    (tree : e.isOperatorTree = true) : Reads answers (nested scope 0) source ts e rest := by
  unfold methodArgument at h
  simp only [reads_bind, reads_peek, reads_peekAt, reads_ite, reads_pure] at h
  obtain ⟨_, _, ⟨-, rfl⟩, _, _, ⟨-, rfl⟩, ⟨-, _, _, -, _, _, -, _, _, -, _, _,
    -, rfl, -⟩ | ⟨-, h⟩⟩ := h
  · cases tree
  · exact h

theorem accepted_call {m : Method} {name : Token} {us rest : List Token} {e : Expression}
    (hnested : Accepts answers room nested)
    (h : Reads answers (methodCall scope nested m) source us e rest)
    (hkind : name.kind = .identifier) (hname : name.word = m.word)
    (genuine : ∀ t ∈ us, t.Genuine) (tree : e.isOperatorTree = true) :
    e.Accepted (room + 1) unaryPrecedence (name :: us) rest := by
  obtain ⟨opening, vs, arguments, closing, rfl, hopening, hclosing, takes, rfl, hitems⟩ :=
    reads_methodCall.mp h
  have hparen : opening.word = Word.openParen :=
    (genuine opening List.mem_cons_self).word_eq hopening rfl
  have genuine : ∀ t ∈ vs, t.Genuine := fun t ht => genuine t (List.mem_cons_of_mem opening ht)
  have hopens : name.word.opensItems = true := by
    rw [hname]
    exact m.opensItems_word
  have tree : areOperatorTrees arguments = true := tree
  obtain ⟨formed, passes, hlevels⟩ : (∀ e ∈ arguments, e.Formed) ∧
      Passes vs (itemWords arguments) (closing :: rest) ∧
        itemLevels arguments ≤ 2 * room + itemLooseness arguments := by
    rcases hitems with ⟨rfl, rfl⟩ | ⟨-, hitems⟩
    · exact ⟨by simp, Passes.refl _, Nat.zero_le _⟩
    · exact accepted_items (fun hitem genuine tree =>
        (hnested (reads_methodArgument_nested hitem tree) genuine tree).1) hitems genuine tree
  have hcall := passes.items hkind hopens hopening hclosing
  have hend : closing.word = Word.closeParen :=
    (passes.genuine genuine closing List.mem_cons_self).word_eq hclosing rfl
  rw [hname, hparen, hend] at hcall
  refine accepted_operand (.call takes formed) hcall ?_
  simp only [levels, looseness]
  omega

/-- An operand is accepted with one level more than what is in it. -/
theorem accepted_of_operand {ts rest : List Token} {e : Expression}
    (hnested : Accepts answers room nested)
    (h : Reads answers (operand scope nested) source ts e rest) (genuine : ∀ t ∈ ts, t.Genuine)
    (tree : e.isOperatorTree = true) : e.Accepted (room + 1) unaryPrecedence ts rest := by
  have of_cons : ∀ {t : Token} {us : List Token}, (∀ u ∈ t :: us, u.Genuine) →
      t.Genuine ∧ ∀ u ∈ us, u.Genuine := List.forall_mem_cons.mp
  cases operandForm h with
  | group opens inside closes =>
    obtain ⟨accepted, -⟩ := hnested inside (of_cons genuine).2 tree
    refine accepted_operand accepted.formed (accepted.passes.group opens closes) ?_
    have hle := accepted.shallow.levels_le
    omega
  | minus isMinus h =>
    obtain ⟨ht, genuine⟩ := of_cons genuine
    exact accepted_unary hnested h (ht.word_eq isMinus rfl) genuine tree
  | @not t _ _ _ isName isNot h =>
    refine accepted_unary hnested h ?_ (of_cons genuine).2 tree
    rw [Token.word, isName, isNot]
    rfl
  | @literal t _ isLiteral =>
    have hstands := (of_cons genuine).1.stands (Or.inl isLiteral)
    rw [Token.word, isLiteral] at hstands
    refine accepted_operand (.literal hstands) ?_ ?_
    · have hword := (Passes.refl rest).word (t := t) (by simp [isLiteral]) (by simp [isLiteral])
        (by simp [isLiteral]) (Word.opensItems_of_kind_ne (by simp [Token.word, isLiteral]))
      rw [Token.word, isLiteral] at hword
      exact hword
    · simp only [literalExpression, levels, looseness]
      omega
  | @parameterAlias t _ isAlias =>
    have hstands := (of_cons genuine).1.stands (Or.inr (Or.inr isAlias))
    rw [Token.word, isAlias] at hstands
    refine accepted_operand (.parameterAlias hstands) ?_ ?_
    · have hword := (Passes.refl rest).word (t := t) (by simp [isAlias]) (by simp [isAlias])
        (by simp [isAlias]) (Word.opensItems_of_kind_ne (by simp [Token.word, isAlias]))
      rw [Token.word, isAlias] at hword
      exact hword
    · simp only [levels, looseness]
      omega
  | enumeration => cases tree
  | @call t _ _ m _ isName isMethod h =>
    refine accepted_call hnested h isName ?_ (of_cons genuine).2 tree
    rw [Token.word, isName, Method.name_of_ofName? isMethod]
    rfl
  | path _ h =>
    -- a path is no tree of operators
    obtain ⟨_, _, rfl⟩ | ⟨_, _, rfl⟩ := reads_memberPath h <;> cases tree

/-! ### Operators -/

theorem word_of_operator? {t : Token} {op : BinaryOperator} (h : operator? least t = some op) :
    t.word = op.word := by
  obtain ⟨⟨hkind, -⟩, hname, -⟩ := operator?_eq_some.mp h
  rw [Token.word, hkind, BinaryOperator.name_of_ofName? hname]
  rfl

/-- What stands to the right of `in` is accepted. -/
theorem accepted_membership {ts us rest : List Token} {t : Token} {left right : Expression}
    {type : Option ModelType} (hnested : Accepts answers room nested)
    (hleft : left.Accepted (room + 1) least ts (t :: us)) (hop : operator? least t = some .isIn)
    (hright : Reads answers (listOperand scope nested left) source us right rest)
    (fits : BinaryOperator.isIn.resultType left.type? right.type? = .ok type)
    (genuine : ∀ t ∈ us, t.Genuine) (tree : right.isOperatorTree = true) :
    (Expression.binary .isIn left right type).Accepted (room + 1) least ts rest := by
  have hword := word_of_operator? hop
  have hkind : t.kind = .identifier := (operator?_eq_some.mp hop).1.1
  rcases reads_listOperand.mp hright with
    ⟨name, rfl, hname, rfl⟩ | ⟨opening, vs, items, closing, rfl, hopening, hitems, hclosing, rfl⟩
  · have hstands := (genuine name List.mem_cons_self).stands (Or.inr (Or.inr hname))
    rw [Token.word, hname] at hstands
    refine ⟨.inAlias hleft.formed hstands fits, ?_, ?_⟩
    · have hpasses := hleft.passes.trans (Passes.wordAlias hkind hname)
      rw [hword, Token.word, hname] at hpasses
      exact hpasses
    · refine hleft.shallow.binary hop ?_ fun hne => absurd rfl hne
      show 1 < 2 * (room + 1) + 0
      omega
  · have hparen : opening.word = Word.openParen :=
      (genuine opening List.mem_cons_self).word_eq hopening rfl
    have genuine : ∀ t ∈ vs, t.Genuine := fun t ht => genuine t (List.mem_cons_of_mem opening ht)
    obtain ⟨formed, passes, hlevels⟩ := accepted_items (fun hitem genuine tree =>
      (hnested (reads_listItem.mp hitem).1 genuine tree).1) hitems genuine tree
    have hend : closing.word = Word.closeParen :=
      (passes.genuine genuine closing List.mem_cons_self).word_eq hclosing rfl
    have comparable : ∀ e ∈ items,
        ∃ itemType, BinaryOperator.eq.resultType left.type? e.type? = .ok itemType := by
      intro e he
      obtain ⟨_, _, he⟩ := hitems.exists_of_mem he
      exact (reads_listItem.mp he).2
    have nonempty : items ≠ [] := by
      rintro rfl
      cases hitems
    refine ⟨.inList hleft.formed nonempty formed comparable fits, ?_, ?_⟩
    · have hopens : t.word.opensItems = true := by
        rw [hword]
        exact BinaryOperator.opensItems_word .isIn
      have hpasses := hleft.passes.trans (passes.items hkind hopens hopening hclosing)
      rw [hword, hparen, hend] at hpasses
      exact hpasses
    · have hlevels : itemLevels items < 2 * (room + 1) + itemLooseness items := by omega
      exact hleft.shallow.binary hop hlevels fun hne => absurd rfl hne

/-- One more operator is accepted. -/
theorem accepted_binary {ts us rest : List Token} {t : Token} {left e : Expression}
    {op : BinaryOperator} (hnested : Accepts answers room nested)
    (hleft : left.Accepted (room + 1) least ts (t :: us)) (hop : operator? least t = some op)
    (h : Reads answers (binaryExpression scope nested left op) source us e rest)
    (genuine : ∀ t ∈ us, t.Genuine) (tree : e.isOperatorTree = true) :
    e.Accepted (room + 1) least ts rest := by
  obtain ⟨right, type, hright, fits, rfl⟩ := reads_binaryExpression.mp h
  rw [isOperatorTree, Bool.and_eq_true] at tree
  rcases hright with ⟨rfl, hright⟩ | ⟨hne, hright⟩
  · exact accepted_membership hnested hleft hop hright fits genuine tree.2
  · obtain ⟨accepted, closed⟩ := hnested hright genuine tree.2
    have hword := word_of_operator? hop
    have hkind : t.kind = .identifier := (operator?_eq_some.mp hop).1.1
    have hopens : t.word.opensItems = false := by
      rw [hword, op.opensItems_word]
      exact decide_eq_false hne
    refine ⟨.binary hne hleft.formed accepted.formed fits, ?_, ?_⟩
    · have hpasses := hleft.passes.trans (accepted.passes.word (t := t) (by simp [hkind])
        (by simp [hkind]) (by simp [hkind]) hopens)
      rw [hword] at hpasses
      exact hpasses
    · have hlevels := accepted.shallow.grouped_le
      exact hleft.shallow.binary hop (by omega) fun _ => closed

/-- A reader of expressions accepts only what is known of, level by level. -/
theorem accepts_expressionWithin (limit room : Nat) :
    Accepts answers room (expressionWithin limit room) := by
  induction room with
  | zero =>
    intro scope least source ts rest e h
    exact absurd h not_reads_expressionWithin_zero
  | succ room hnested =>
    intro scope least source ts rest e h genuine tree
    obtain ⟨first, between, hfirst, hloop⟩ := reads_operands.mp h
    -- the invariant of the loop: what has been put together so far is accepted
    have hrule := hloop.foldWhile_rule
      (fun e between => e.isOperatorTree = true → e.Accepted (room + 1) least ts between) ?_ ?_
    · refine ⟨hrule.1 tree, fun t ht => ?_⟩
      simpa [operatorStep] using hrule.2 t ht
    · intro left t us reader e between hleft hselect hstep tree
      obtain ⟨op, hop, rfl⟩ := Option.map_eq_some_iff.mp hselect
      have hleftTree : left.isOperatorTree = true := by
        obtain ⟨right, type, -, -, rfl⟩ := reads_binaryExpression.mp hstep
        rw [isOperatorTree, Bool.and_eq_true] at tree
        exact tree.1
      have hleft := hleft hleftTree
      have genuine := hleft.passes.genuine genuine
      exact accepted_binary hnested hleft hop hstep
        (fun u hu => genuine u (List.mem_cons_of_mem t hu)) tree
    · intro tree
      have hfirst := accepted_of_operand hnested hfirst genuine tree
      exact ⟨hfirst.formed, hfirst.passes, Or.inl hfirst.shallow.levels_lt⟩

end Expression

end ODataRequest
