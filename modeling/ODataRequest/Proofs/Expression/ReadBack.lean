import ODataRequest.Proofs.Expression.Formed
import ODataRequest.Proofs.Expression.Rules

/-!
# ODataRequest.Proofs.Expression.ReadBack

Reading the pieces of a formed expression gives this expression. The loop over operators builds an
expression up from its leftmost operand, so what is shown of an expression (`ReadsBack`) is that a
reader in front of its pieces comes to the same as the loop behind them with the expression as what
is to the left. The expression as a whole follows (`ReadsBack.within`), and so do its parts in
parentheses, one level deeper.
-/

namespace ODataRequest

open TokenReader

namespace Expression

variable {answers : Answers} {scope : Scope} {source : String} {limit : Nat}

/-- Reading the pieces of an expression, with what follows them, comes to the same as going on
behind them with the expression to the left. -/
def ReadsBack (answers : Answers) (scope : Scope) (source : String) (limit : Nat)
    (e : Expression) : Prop :=
  ∀ {room least : Nat} {spaced : Bool} {ts rest rest' : List Token} {final : Expression},
    e.levels ≤ room + 1 → least ≤ e.precedence → ts.map Token.piece = e.pieces spaced →
    Closed (e.precedence + 1) rest →
    Reads answers (foldWhile (operatorStep scope (expressionWithin limit room) least) e) source
      rest final rest' →
    Reads answers (operands scope (expressionWithin limit room) least) source (ts ++ rest) final
      rest'

/-- In parentheses if its place asks for them. -/
theorem ReadsBack.grouped {e : Expression} (h : e.ReadsBack answers scope source limit)
    (hpos : 0 < e.levels) {room least place : Nat} {spaced : Bool} {ts rest rest' : List Token}
    {final : Expression} (hlevels : groupedLevels place e.precedence e.levels ≤ room + 1)
    (hplace : least ≤ place)
    (hpieces : ts.map Token.piece = groupedPieces place e.precedence e.pieces spaced)
    (hclosed : Closed (place + 1) rest)
    (hrest : Reads answers (foldWhile (operatorStep scope (expressionWithin limit room) least) e)
      source rest final rest') :
    Reads answers (operands scope (expressionWithin limit room) least) source (ts ++ rest) final
      rest' := by
  unfold groupedLevels at hlevels
  unfold groupedPieces at hpieces
  by_cases hgroup : e.precedence < place
  · rw [if_pos hgroup] at hlevels hpieces
    obtain ⟨opening, us, rfl, hopening, -, -, hus⟩ := exists_of_map_piece_cons hpieces
    obtain ⟨inner, behind, rfl, hinner, hbehind⟩ := List.map_eq_append_iff.mp hus
    obtain ⟨closing, none, rfl, hclosing, -, -, hnone⟩ := exists_of_map_piece_cons hbehind
    rw [List.map_eq_nil_iff] at hnone
    subst hnone
    obtain ⟨room, rfl⟩ : ∃ r, room = r + 1 := ⟨room - 1, by omega⟩
    have hopening : opening.kind = .openParen := hopening
    have hclosing : closing.kind = .closeParen := hclosing
    simp only [List.cons_append, List.append_assoc, List.nil_append]
    refine reads_operands.mpr ⟨e, rest, ?_, hrest⟩
    refine reads_operand.mpr ⟨opening, _, rfl, by rw [hopening]; decide, ?_⟩
    simp only [operandFrom, hopening, reads_bind, reads_pure]
    refine ⟨e, closing :: rest, ?_, closing, rest, ?_, rfl, rfl⟩
    · have hclosed' : ∀ least, Closed least (closing :: rest) := fun least =>
        closed_cons (operator?_of_kind_ne (by rw [hclosing]; decide) least) rest
      exact h (by omega) (Nat.zero_le _) hinner (hclosed' _)
        (reads_operatorStep_closed (hclosed' _))
    · exact (reads_expect (by decide)).mpr ⟨rfl, hclosing⟩
  · rw [if_neg hgroup] at hlevels hpieces
    have hle : place ≤ e.precedence := Nat.not_lt.mp hgroup
    exact h hlevels (Nat.le_trans hplace hle) hpieces (hclosed.mono (Nat.succ_le_succ hle)) hrest

/-- The expression as a whole, in parentheses if its place asks for them. -/
theorem ReadsBack.within {e : Expression} (h : e.ReadsBack answers scope source limit)
    (hpos : 0 < e.levels) {room least place : Nat} {spaced : Bool} {ts rest : List Token}
    (hlevels : groupedLevels place e.precedence e.levels ≤ room) (hplace : least ≤ place)
    (hpieces : ts.map Token.piece = groupedPieces place e.precedence e.pieces spaced)
    (hclosed : Closed least rest) :
    Reads answers (expressionWithin limit room scope least) source (ts ++ rest) e rest := by
  have hroom : 0 < room := by
    unfold groupedLevels at hlevels
    split at hlevels <;> omega
  obtain ⟨room, rfl⟩ : ∃ r, room = r + 1 := ⟨room - 1, by omega⟩
  exact h.grouped hpos hlevels hplace hpieces (hclosed.mono (Nat.le_succ_of_le hplace))
    (reads_operatorStep_closed hclosed)

/-! ### Units -/

theorem readsBack_literal {text : String} :
    (literalExpression text).ReadsBack answers scope source limit := by
  intro room least spaced ts rest rest' final _ _ hpieces _ hrest
  obtain ⟨t, us, rfl, hkind, htext, -, hus⟩ := exists_of_map_piece_cons hpieces
  rw [List.map_eq_nil_iff] at hus
  subst hus
  have hkind : t.kind = .literal := hkind
  have htext : t.text = text := htext
  refine reads_operands.mpr ⟨literalExpression text, rest, ?_, hrest⟩
  refine reads_operand.mpr ⟨t, rest, rfl, by rw [hkind]; decide, ?_⟩
  simp [operandFrom, hkind, htext]

theorem readsBack_parameterAlias {name : String} :
    (Expression.parameterAlias name).ReadsBack answers scope source limit := by
  intro room least spaced ts rest rest' final _ _ hpieces _ hrest
  obtain ⟨t, us, rfl, hkind, htext, -, hus⟩ := exists_of_map_piece_cons hpieces
  rw [List.map_eq_nil_iff] at hus
  subst hus
  have hkind : t.kind = .parameterAlias := hkind
  have htext : t.text = name := htext
  refine reads_operands.mpr ⟨.parameterAlias name, rest, ?_, hrest⟩
  refine reads_operand.mpr ⟨t, rest, rfl, by rw [hkind]; decide, ?_⟩
  simp [operandFrom, hkind, htext]

/-! ### Items -/

/-- Items between commas are read one by one. -/
theorem readsItems_of_pieces {item : TokenReader Expression} {es : List Expression}
    (nonempty : es ≠ []) (hitem : ∀ e ∈ es, ∀ ts behind : List Token,
      ts.map Token.piece = e.pieces false → (∀ least, Closed least behind) →
        Reads answers item source (ts ++ behind) e behind)
    {ts rest : List Token} {closing : Token} (hpieces : ts.map Token.piece = itemPieces es)
    (hclosing : closing.kind = .closeParen) :
    ReadsItems answers item source (ts ++ closing :: rest) es (closing :: rest) := by
  induction es generalizing ts with
  | nil => exact absurd rfl nonempty
  | cons e es ih =>
    cases es with
    | nil =>
      refine .last (hitem e List.mem_cons_self ts _ hpieces fun least => ?_) ?_
      · exact closed_cons (operator?_of_kind_ne (by rw [hclosing]; decide) least) rest
      · rw [firstToken_cons, hclosing]
        decide
    | cons e' es =>
      obtain ⟨first, behind, rfl, hfirst, hbehind⟩ := List.map_eq_append_iff.mp hpieces
      obtain ⟨comma, us, rfl, hcomma, -, -, hus⟩ := exists_of_map_piece_cons hbehind
      have hcomma : comma.kind = .comma := hcomma
      rw [List.append_assoc, List.cons_append]
      refine .more (hitem e List.mem_cons_self first _ hfirst fun least => ?_) hcomma ?_
      · exact closed_cons (operator?_of_kind_ne (by rw [hcomma]; decide) least) _
      · exact ih (by simp) (fun x hx => hitem x (List.mem_cons_of_mem e hx)) hus

theorem levels_le_itemLevels {e : Expression} {es : List Expression} (h : e ∈ es) :
    e.levels ≤ itemLevels es := by
  induction es with
  | nil => cases h
  | cons x es ih =>
    rw [itemLevels]
    rcases List.mem_cons.mp h with rfl | h
    · exact Nat.le_max_left _ _
    · exact Nat.le_trans (ih h) (Nat.le_max_right _ _)

/-- An item as a whole, one level deeper. -/
theorem ReadsBack.item {e : Expression} (h : e.ReadsBack answers scope source limit)
    (hpos : 0 < e.levels) {room : Nat} (hlevels : e.levels ≤ room) {ts rest : List Token}
    (hpieces : ts.map Token.piece = e.pieces false) (hclosed : ∀ least, Closed least rest) :
    Reads answers (expressionWithin limit room scope 0) source (ts ++ rest) e rest :=
  have hlevels' : groupedLevels 0 e.precedence e.levels ≤ room := hlevels
  h.within hpos hlevels' (Nat.le_refl 0) hpieces (hclosed 0)

/-! ### Calls -/

/-- The text of a formed expression starts with a piece that ends nothing. -/
theorem Formed.pieces_eq_cons {e : Expression} (h : e.Formed) (spaced : Bool) :
    ∃ w ps, e.pieces spaced = ⟨w, spaced⟩ :: ps ∧ w.kind ≠ .closeParen := by
  have hgrouped : ∀ {e : Expression} (least : Nat),
      (∃ w ps, e.pieces spaced = ⟨w, spaced⟩ :: ps ∧ w.kind ≠ .closeParen) →
        ∃ w ps, groupedPieces least e.precedence e.pieces spaced = ⟨w, spaced⟩ :: ps ∧
          w.kind ≠ .closeParen := by
    intro e least he
    unfold groupedPieces
    split
    · exact ⟨_, _, rfl, by decide⟩
    · exact he
  have happend : ∀ {ps : List Piece} (qs : List Piece),
      (∃ w us, ps = ⟨w, spaced⟩ :: us ∧ w.kind ≠ .closeParen) →
        ∃ w us, ps ++ qs = ⟨w, spaced⟩ :: us ∧ w.kind ≠ .closeParen := by
    rintro _ qs ⟨w, us, rfl, hw⟩
    exact ⟨w, us ++ qs, rfl, hw⟩
  induction h with
  | literal => exact ⟨_, _, rfl, nofun⟩
  | parameterAlias => exact ⟨_, _, rfl, nofun⟩
  | call => exact ⟨_, _, rfl, nofun⟩
  | @unary op => exact ⟨_, _, rfl, by cases op <;> decide⟩
  | binary _ _ _ _ ih _ => exact happend _ (hgrouped _ ih)
  | inAlias _ _ _ ih => exact happend _ (hgrouped _ ih)
  | inList _ _ _ _ _ ih _ => exact happend _ (hgrouped _ ih)

theorem Formed.firstToken_of_itemPieces {e : Expression} (h : e.Formed) {es : List Expression}
    {ts rest : List Token} (hpieces : ts.map Token.piece = itemPieces (e :: es)) :
    (firstToken (ts ++ rest)).kind ≠ .closeParen := by
  obtain ⟨w, ps, he, hkind⟩ := h.pieces_eq_cons false
  obtain ⟨qs, hqs⟩ : ∃ qs, itemPieces (e :: es) = ⟨w, false⟩ :: qs := by
    cases es with
    | nil => exact ⟨ps, he⟩
    | cons e' es => exact ⟨_, by rw [itemPieces, he, List.cons_append]⟩
  obtain ⟨t, us, rfl, ht, -, -, -⟩ := exists_of_map_piece_cons (hpieces.trans hqs)
  rw [List.cons_append, firstToken_cons, ht]
  exact hkind

/-- Do some pieces start with anything but a qualified name that stands alone? -/
def startsAsValue : List Piece → Bool
  | [] => false
  | [p] => p.word.kind != .identifier || !isQualified p.word.text
  | p :: q :: _ =>
    p.word.kind != .identifier || !isQualified p.word.text || q.word.kind == .openParen

theorem startsAsValue_append (ps qs : List Piece) (h : startsAsValue ps = true) :
    startsAsValue (ps ++ qs) = true := by
  match ps, qs, h with
  | [p], [], h => exact h
  | [p], q :: qs, h => exact Bool.or_eq_true_iff.mpr (Or.inl h)
  | p :: q :: ps, qs, h => exact h

theorem startsAsValue_grouped {e : Expression}
    (h : ∀ spaced, startsAsValue (e.pieces spaced) = true) (least : Nat) (spaced : Bool) :
    startsAsValue (groupedPieces least e.precedence e.pieces spaced) = true := by
  unfold groupedPieces
  split
  · exact startsAsValue_append [⟨Word.openParen, spaced⟩] _ rfl
  · exact h spaced

theorem Formed.startsAsValue {e : Expression} (h : e.Formed) (spaced : Bool) :
    Expression.startsAsValue (e.pieces spaced) = true := by
  induction h generalizing spaced with
  | literal => rfl
  | parameterAlias => rfl
  | call =>
    exact Bool.or_eq_true_iff.mpr (Or.inr rfl)
  | @unary op operand type _ _ _ _ =>
    cases op with
    | minus => exact startsAsValue_append [⟨Word.minus, spaced⟩] _ rfl
    | not =>
      exact startsAsValue_append [⟨Word.identifier "not", spaced⟩] _ (by cases spaced <;> decide)
  | binary _ _ _ _ ih _ => exact startsAsValue_append _ _ (startsAsValue_grouped ih _ spaced)
  | inAlias _ _ _ ih => exact startsAsValue_append _ _ (startsAsValue_grouped ih _ spaced)
  | inList _ _ _ _ _ ih _ => exact startsAsValue_append _ _ (startsAsValue_grouped ih _ spaced)

/-- An argument that starts as a value is read as an expression. -/
theorem reads_methodArgument {m : Method} {nested : OperandReader} {e : Expression}
    {ts rest rest' : List Token} (h : Expression.startsAsValue (ts.map Token.piece) = true)
    (hnested : Reads answers (nested scope 0) source (ts ++ rest) e rest') :
    Reads answers (methodArgument scope nested m) source (ts ++ rest) e rest' := by
  unfold methodArgument
  simp only [reads_bind, reads_peek, reads_peekAt, reads_ite]
  refine ⟨_, _, ⟨rfl, rfl⟩, _, _, ⟨rfl, rfl⟩, Or.inr ⟨?_, hnested⟩⟩
  cases ts with
  | nil => cases h
  | cons t us =>
    cases us with
    | nil =>
      rcases Bool.or_eq_true_iff.mp h with hkind | hqualified
      · simp_all [Token.piece, Token.word]
      · simp_all [Token.piece, Token.word]
    | cons u us =>
      rcases Bool.or_eq_true_iff.mp h with h | hcalled
      · rcases Bool.or_eq_true_iff.mp h with hkind | hqualified
        · simp_all [Token.piece, Token.word]
        · simp_all [Token.piece, Token.word]
      · simp_all [Token.piece, Token.word]

theorem readsBack_call {m : Method} {arguments : List Expression}
    (takes : m.takes arguments.length = true) (formed : ∀ e ∈ arguments, e.Formed)
    (h : ∀ e ∈ arguments, e.ReadsBack answers scope source limit) :
    (Expression.call m arguments).ReadsBack answers scope source limit := by
  intro room least spaced ts rest rest' final hlevels _ hpieces _ hrest
  obtain ⟨name, us, rfl, hname, htext, -, hus⟩ := exists_of_map_piece_cons hpieces
  obtain ⟨opening, vs, rfl, hopening, -, -, hvs⟩ := exists_of_map_piece_cons hus
  obtain ⟨items, behind, rfl, hitems, hbehind⟩ := List.map_eq_append_iff.mp hvs
  obtain ⟨closing, none, rfl, hclosing, -, -, hnone⟩ := exists_of_map_piece_cons hbehind
  rw [List.map_eq_nil_iff] at hnone
  subst hnone
  have hname : name.kind = .identifier := hname
  have htext : name.text = m.name := htext
  have hopening : opening.kind = .openParen := hopening
  have hclosing : closing.kind = .closeParen := hclosing
  simp only [List.cons_append, List.append_assoc, List.nil_append]
  refine reads_operands.mpr ⟨.call m arguments, rest, ?_, hrest⟩
  refine reads_operand.mpr ⟨name, _, rfl, by rw [hname]; decide, ?_⟩
  have hnot : m.name ≠ "not" := by cases m <;> decide
  simp only [operandFrom, hname, htext, hnot, m.ofName?_name, firstToken_cons, hopening, false_and,
    if_false, beq_self_eq_true]
  refine reads_methodCall.mpr
    ⟨opening, _, arguments, closing, rfl, hopening, hclosing, takes, rfl, ?_⟩
  cases arguments with
  | nil =>
    rw [List.map_eq_nil_iff.mp hitems]
    exact Or.inl ⟨rfl, rfl⟩
  | cons e es =>
    rw [levels] at hlevels
    refine Or.inr ⟨?_, readsItems_of_pieces (by simp) (fun x hx ts behind hts hclosed => ?_) hitems
      hclosing⟩
    · exact (formed e List.mem_cons_self).firstToken_of_itemPieces hitems
    · have hx' := levels_le_itemLevels hx
      refine reads_methodArgument ?_
        (ReadsBack.item (h x hx) (formed x hx).levels_pos (by omega) hts hclosed)
      rw [hts]
      exact (formed x hx).startsAsValue false

/-! ### Operators -/

theorem readsBack_unary {op : UnaryOperator} {operand : Expression} {type : Option ModelType}
    (formed : operand.Formed) (fits : op.resultType operand.type? = .ok type)
    (h : operand.ReadsBack answers scope source limit) :
    (Expression.unary op operand type).ReadsBack answers scope source limit := by
  intro room least spaced ts rest rest' final hlevels _ hpieces _ hrest
  rw [pieces] at hpieces
  obtain ⟨sign, us, rfl, hkind, htext, -, hus⟩ := exists_of_map_piece_cons hpieces
  rw [levels] at hlevels
  rw [List.cons_append]
  refine reads_operands.mpr ⟨.unary op operand type, rest, ?_, hrest⟩
  have hnested : Reads answers (unaryExpression scope (expressionWithin limit room) op) source
      (us ++ rest) (.unary op operand type) rest := by
    refine reads_unaryExpression.mpr ⟨operand, type, ?_, fits, rfl⟩
    have hroom : groupedLevels unitPrecedence operand.precedence operand.levels ≤ room :=
      Nat.le_of_succ_le_succ hlevels
    have hplace : unaryPrecedence ≤ unitPrecedence := Nat.le_succ unaryPrecedence
    exact ReadsBack.within h formed.levels_pos hroom hplace hus (closed_unary rest)
  refine reads_operand.mpr ⟨sign, us ++ rest, rfl, by rw [hkind]; cases op <;> decide, ?_⟩
  cases op with
  | minus =>
    have hkind : sign.kind = .minus := hkind
    simpa only [operandFrom, hkind] using hnested
  | not =>
    have hkind : sign.kind = .identifier := hkind
    have htext : sign.text = "not" := htext
    have hspaced : (firstToken (us ++ rest)).spaceBefore = true := by
      obtain ⟨w, ps, hps⟩ : ∃ w ps,
          groupedPieces unitPrecedence operand.precedence operand.pieces true =
            ⟨w, true⟩ :: ps := by
        unfold groupedPieces
        split
        · exact ⟨_, _, rfl⟩
        · obtain ⟨w, ps, hps, -⟩ := formed.pieces_eq_cons true
          exact ⟨w, ps, hps⟩
      obtain ⟨t, vs, rfl, -, -, ht, -⟩ := exists_of_map_piece_cons (hus.trans hps)
      exact ht
    simpa only [operandFrom, hkind, htext, hspaced, Bool.true_or, and_self, if_true] using hnested

/-- To the left of an operator whose right operand is read by a rule of its own. -/
theorem readsBack_binary_of_right {op : BinaryOperator} {left right : Expression}
    {type : Option ModelType} (formed : left.Formed)
    (fits : op.resultType left.type? right.type? = .ok type)
    (h : left.ReadsBack answers scope source limit)
    (hright : ∀ {room : Nat} {ts rest : List Token},
      groupedLevels (op.precedence + 1) right.precedence right.levels ≤ room →
      ts.map Token.piece = groupedPieces (op.precedence + 1) right.precedence right.pieces true →
      Closed (op.precedence + 1) rest →
      (op = .isIn ∧ Reads answers (listOperand scope (expressionWithin limit room) left) source
        (ts ++ rest) right rest) ∨
      (op ≠ .isIn ∧ Reads answers (expressionWithin limit room scope (op.precedence + 1)) source
        (ts ++ rest) right rest)) :
    (Expression.binary op left right type).ReadsBack answers scope source limit := by
  intro room least spaced ts rest rest' final hlevels hleast hpieces hclosed hrest
  rw [levels] at hlevels
  rw [pieces] at hpieces
  obtain ⟨front, behind, rfl, hfront, hbehind⟩ := List.map_eq_append_iff.mp hpieces
  obtain ⟨sign, us, rfl, hkind, htext, hspaced, hus⟩ := exists_of_map_piece_cons hbehind
  have hop : ∀ place, place ≤ op.precedence → operator? place sign = some op := fun place hplace =>
    operator?_eq_some.mpr ⟨⟨hkind, hspaced⟩, by rw [htext]; exact op.ofName?_name, hplace⟩
  have hnone : operator? (op.precedence + 1) sign = none := by
    cases hother : operator? (op.precedence + 1) sign with
    | none => rfl
    | some other =>
      obtain ⟨-, hname, hlt⟩ := operator?_eq_some.mp hother
      rw [htext] at hname
      cases op.ofName?_name.symm.trans hname
      omega
  have hlevelsLeft := Nat.le_trans (Nat.le_max_left _ _) hlevels
  have hlevelsRight := Nat.le_of_succ_le_succ (Nat.le_trans (Nat.le_max_right _ _) hlevels)
  rw [List.append_assoc, List.cons_append]
  refine ReadsBack.grouped h formed.levels_pos hlevelsLeft hleast hfront
    (closed_cons hnone (us ++ rest)) ?_
  refine reads_foldWhile.mpr (Or.inr ⟨sign, us ++ rest,
    binaryExpression scope (expressionWithin limit room) left op, _, rest, rfl, ?_, ?_, hrest⟩)
  · rw [operatorStep, hop least hleast]
    rfl
  · exact reads_binaryExpression.mpr ⟨right, type, hright hlevelsRight hus hclosed, fits, rfl⟩

theorem readsBack_binary {op : BinaryOperator} {left right : Expression} {type : Option ModelType}
    (notIn : op ≠ .isIn) (formedLeft : left.Formed) (formedRight : right.Formed)
    (fits : op.resultType left.type? right.type? = .ok type)
    (hleft : left.ReadsBack answers scope source limit)
    (hright : right.ReadsBack answers scope source limit) :
    (Expression.binary op left right type).ReadsBack answers scope source limit :=
  readsBack_binary_of_right formedLeft fits hleft fun hlevels hus hclosed =>
    Or.inr ⟨notIn,
      ReadsBack.within hright formedRight.levels_pos hlevels (Nat.le_refl _) hus hclosed⟩

theorem readsBack_inAlias {left : Expression} {name : String} {type : Option ModelType}
    (formed : left.Formed) (fits : BinaryOperator.isIn.resultType left.type? none = .ok type)
    (h : left.ReadsBack answers scope source limit) :
    (Expression.binary .isIn left (.parameterAlias name) type).ReadsBack answers scope source
      limit := by
  refine readsBack_binary_of_right formed fits h fun _ hus _ => Or.inl ⟨rfl, ?_⟩
  obtain ⟨t, none, rfl, hkind, htext, -, hnone⟩ := exists_of_map_piece_cons hus
  rw [List.map_eq_nil_iff] at hnone
  subst hnone
  have htext : t.text = name := htext
  exact reads_listOperand.mpr (Or.inl ⟨t, rfl, hkind, by rw [htext]⟩)

theorem readsBack_inList {left : Expression} {items : List Expression} {type : Option ModelType}
    (formedLeft : left.Formed) (nonempty : items ≠ []) (formed : ∀ e ∈ items, e.Formed)
    (comparable : ∀ e ∈ items,
      ∃ itemType, BinaryOperator.eq.resultType left.type? e.type? = .ok itemType)
    (fits : BinaryOperator.isIn.resultType left.type? none = .ok type)
    (hleft : left.ReadsBack answers scope source limit)
    (hitems : ∀ e ∈ items, e.ReadsBack answers scope source limit) :
    (Expression.binary .isIn left (.list items) type).ReadsBack answers scope source limit := by
  refine readsBack_binary_of_right formedLeft fits hleft fun hlevels hus _ => Or.inl ⟨rfl, ?_⟩
  obtain ⟨opening, vs, rfl, hopening, -, -, hvs⟩ := exists_of_map_piece_cons hus
  obtain ⟨inner, behind, rfl, hinner, hbehind⟩ := List.map_eq_append_iff.mp hvs
  obtain ⟨closing, none, rfl, hclosing, -, -, hnone⟩ := exists_of_map_piece_cons hbehind
  rw [List.map_eq_nil_iff] at hnone
  subst hnone
  simp only [List.cons_append, List.append_assoc, List.nil_append]
  refine reads_listOperand.mpr
    (Or.inr ⟨opening, _, items, closing, rfl, hopening, ?_, hclosing, rfl⟩)
  refine readsItems_of_pieces nonempty (fun e he ts behind hts hclosed => ?_) hinner hclosing
  have hle : e.levels ≤ itemLevels items := levels_le_itemLevels he
  have hitemLevels : itemLevels items ≤ _ := hlevels
  exact reads_listItem.mpr ⟨ReadsBack.item (hitems e he) (formed e he).levels_pos
    (Nat.le_trans hle hitemLevels) hts hclosed, comparable e he⟩

/-- Reading the pieces of a formed expression gives the expression, without any question about the
model. -/
theorem Formed.readsBack {e : Expression} (h : e.Formed) :
    e.ReadsBack answers scope source limit := by
  induction h with
  | literal => exact readsBack_literal
  | parameterAlias => exact readsBack_parameterAlias
  | call takes formed ih => exact readsBack_call takes formed ih
  | unary formed _ fits ih => exact readsBack_unary formed fits ih
  | binary notIn formedLeft formedRight fits ihLeft ihRight =>
    exact readsBack_binary notIn formedLeft formedRight fits ihLeft ihRight
  | inAlias formed _ fits ih => exact readsBack_inAlias formed fits ih
  | inList formedLeft nonempty formed comparable fits ihLeft ihItems =>
    exact readsBack_inList formedLeft nonempty formed comparable fits ihLeft ihItems

/-- The text of a formed expression is read as this expression wherever its levels fit into the
limit. -/
theorem Formed.gives_text {e : Expression} (h : e.Formed) {config : Config}
    (hlevels : e.levels ≤ config.maxNesting) :
    (readAll (expression config scope) e.text).Gives answers e := by
  obtain ⟨ts, last, htokens, hpieces, hlast⟩ := h.tokenize_text
  refine gives_readAll.mpr ⟨ts ++ [last], [last], htokens, ?_, hlast⟩
  have hclosed : Closed 0 [last] :=
    closed_cons (operator?_of_kind_ne (by rw [hlast]; decide) 0) []
  have hlevels : groupedLevels 0 e.precedence e.levels ≤ config.maxNesting := hlevels
  exact ReadsBack.within h.readsBack h.levels_pos hlevels (Nat.le_refl 0) hpieces hclosed

end Expression

end ODataRequest
