import ODataRequest.Proofs.Expression.OperatorTree

/-!
# ODataRequest.Proofs.Expression.Formed

Expressions as a reader makes them (`Expression.Formed`): literals with the types they show,
operators with operands that fit and with the type of their result, methods with as many arguments
as they take. The text of such an expression is cut into the pieces it is made of.
-/

namespace ODataRequest

open Lexeme

/-! ### Words of operators and methods -/

namespace Word

/-- Is a text an identifier as a whole? -/
def isName (text : String) : Bool :=
  match text.toList with
  | [] => false
  | c :: cs => !isSpace c && lexeme? c cs == some (.identifier, cs.length)

theorem stands_identifier {text : String} (h : isName text = true) :
    (identifier text).Stands := by
  unfold isName at h
  split at h
  · cases h
  · rename_i c cs htext
    simp only [Bool.and_eq_true, Bool.not_eq_true', beq_iff_eq] at h
    exact stands_of_lexeme? htext h.1 h.2

/-- A minus is a sign of its own unless a number follows. -/
theorem lexes_minus {behind : List Char} (hdigit : (behind.head?.any Char.isDigit) = false)
    (hinf : "INF".toList.isPrefixOf behind = false) : minus.Lexes behind := by
  refine ⟨'-', [], by decide, by decide, ?_⟩
  show lexeme? '-' behind = some (.minus, 0)
  have hpunctuation : punctuation? '-' = none := by decide
  have hquote : ¬('-' = '\'') := by decide
  have hsigil : ¬('-' = '@' ∨ '-' = '$') := by decide
  simp only [lexeme?, hpunctuation, hquote, hsigil, hdigit, hinf, if_false, if_true]
  simp

end Word

theorem BinaryOperator.stands_word (op : BinaryOperator) : op.word.Stands := by
  apply Word.stands_identifier
  cases op <;> decide +kernel

theorem Method.stands_word (m : Method) : m.word.Stands := by
  apply Word.stands_identifier
  cases m <;> decide +kernel

theorem Word.stands_not : (Word.identifier "not").Stands :=
  Word.stands_identifier (by decide +kernel)

/-! ### Formed expressions -/

namespace Expression

/-- An expression of operators as a reader makes it. -/
inductive Formed : Expression → Prop
  | literal {text : String} (stands : (Word.mk .literal text).Stands) :
      Formed (literalExpression text)
  | parameterAlias {name : String} (stands : (Word.mk .parameterAlias name).Stands) :
      Formed (.parameterAlias name)
  | call {m : Method} {arguments : List Expression} (takes : m.takes arguments.length = true)
      (formed : ∀ e ∈ arguments, Formed e) : Formed (.call m arguments)
  | unary {op : UnaryOperator} {operand : Expression} {type : Option ModelType}
      (formed : Formed operand) (apart : op = .minus → operand.isLiteral = false)
      (fits : op.resultType operand.type? = .ok type) : Formed (.unary op operand type)
  | binary {op : BinaryOperator} {left right : Expression} {type : Option ModelType}
      (notIn : op ≠ .isIn) (formedLeft : Formed left) (formedRight : Formed right)
      (fits : op.resultType left.type? right.type? = .ok type) :
      Formed (.binary op left right type)
  | inAlias {left : Expression} {name : String} {type : Option ModelType}
      (formedLeft : Formed left) (stands : (Word.mk .parameterAlias name).Stands)
      (fits : BinaryOperator.isIn.resultType left.type? none = .ok type) :
      Formed (.binary .isIn left (.parameterAlias name) type)
  | inList {left : Expression} {items : List Expression} {type : Option ModelType}
      (formedLeft : Formed left) (nonempty : items ≠ []) (formed : ∀ e ∈ items, Formed e)
      (comparable : ∀ e ∈ items,
        ∃ itemType, BinaryOperator.eq.resultType left.type? e.type? = .ok itemType)
      (fits : BinaryOperator.isIn.resultType left.type? none = .ok type) :
      Formed (.binary .isIn left (.list items) type)

/-- An expression that takes levels takes at least one. -/
theorem Formed.levels_pos {e : Expression} (h : e.Formed) : 0 < e.levels := by
  cases h <;> simp only [levels, literalExpression] <;> omega

/-! ### Spelling -/

/-- The text of a blank space that is there or not. -/
def blank (spaced : Bool) : List Char :=
  if spaced then [' '] else []

/-- The pieces of an expression spell its text. -/
def SpellsText (e : Expression) : Prop :=
  ∀ spaced, spelled (e.pieces spaced) = blank spaced ++ e.text.toList

theorem SpellsText.grouped {e : Expression} (h : e.SpellsText) (least : Nat) (spaced : Bool) :
    spelled (groupedPieces least e.precedence e.pieces spaced) =
      blank spaced ++ (grouped least e.precedence e.text).toList := by
  unfold groupedPieces ODataRequest.grouped
  split
  · simp [h false, Piece.chars, blank, Word.openParen, Word.closeParen]
  · exact h spaced

theorem spelled_itemPieces {es : List Expression} (h : ∀ e ∈ es, e.SpellsText) :
    spelled (itemPieces es) = (commaJoined (texts es)).toList := by
  induction es with
  | nil => rfl
  | cons e es ih =>
    have he := h e List.mem_cons_self false
    have ih := ih fun x hx => h x (List.mem_cons_of_mem e hx)
    cases es with
    | nil => simpa [itemPieces, texts, commaJoined, blank] using he
    | cons e' es =>
      rw [show texts (e :: e' :: es) = e.text :: e'.text :: texts es from rfl,
        commaJoined_cons_cons]
      rw [show itemPieces (e :: e' :: es) =
        e.pieces false ++ ⟨Word.comma, false⟩ :: itemPieces (e' :: es) from rfl]
      rw [spelled_append, spelled_cons, he, ih, String.toList_append, String.toList_append]
      simp [blank, Piece.chars, Word.comma, texts]

theorem spellsText_list {items : List Expression} (h : ∀ e ∈ items, e.SpellsText) :
    (Expression.list items).SpellsText := by
  intro spaced
  rw [show (Expression.list items).text = "(" ++ commaJoined (texts items) ++ ")" from rfl]
  rw [show (Expression.list items).pieces spaced =
    ⟨Word.openParen, spaced⟩ :: itemPieces items ++ [⟨Word.closeParen, false⟩] from rfl]
  rw [spelled_append, spelled_cons, spelled_itemPieces h]
  simp [Piece.chars, blank, Word.openParen, Word.closeParen]

theorem spellsText_literal (text : String) (type : Option ModelType) :
    (Expression.literal text type).SpellsText := by
  intro spaced
  simp [pieces, Expression.text, Piece.chars, blank]

theorem spellsText_parameterAlias (name : String) :
    (Expression.parameterAlias name).SpellsText := by
  intro spaced
  simp [pieces, Expression.text, Piece.chars, blank]

theorem spellsText_binary {op : BinaryOperator} {left right : Expression} {type : Option ModelType}
    (hleft : left.SpellsText) (hright : right.SpellsText) :
    (Expression.binary op left right type).SpellsText := by
  intro spaced
  rw [show (Expression.binary op left right type).text =
    grouped op.precedence left.precedence left.text ++ " " ++ op.name ++ " " ++
      grouped (op.precedence + 1) right.precedence right.text from rfl]
  rw [show (Expression.binary op left right type).pieces spaced =
    groupedPieces op.precedence left.precedence left.pieces spaced ++ ⟨op.word, true⟩ ::
      groupedPieces (op.precedence + 1) right.precedence right.pieces true from rfl]
  rw [spelled_append, spelled_cons, hleft.grouped, hright.grouped]
  simp [Piece.chars, blank, BinaryOperator.word, Word.identifier]

theorem spellsText_unary {op : UnaryOperator} {operand : Expression} {type : Option ModelType}
    (h : operand.SpellsText) : (Expression.unary op operand type).SpellsText := by
  intro spaced
  rw [show (Expression.unary op operand type).pieces spaced = ⟨op.word, spaced⟩ ::
    groupedPieces unitPrecedence operand.precedence operand.pieces (op == .not) from rfl]
  rw [spelled_cons, h.grouped]
  cases op <;>
    simp [Expression.text, Piece.chars, blank, UnaryOperator.word, Word.minus, Word.identifier]

theorem spellsText_call {m : Method} {arguments : List Expression}
    (h : ∀ e ∈ arguments, e.SpellsText) : (Expression.call m arguments).SpellsText := by
  intro spaced
  rw [show (Expression.call m arguments).text =
    m.name ++ "(" ++ commaJoined (texts arguments) ++ ")" from rfl]
  rw [show (Expression.call m arguments).pieces spaced =
    ⟨m.word, spaced⟩ :: ⟨Word.openParen, false⟩ ::
      itemPieces arguments ++ [⟨Word.closeParen, false⟩] from rfl]
  rw [spelled_append, spelled_cons, spelled_cons, spelled_itemPieces h]
  simp [Piece.chars, blank, Word.openParen, Word.closeParen, Method.word, Word.identifier]

/-- The text of a formed expression is spelled by its pieces. -/
theorem Formed.spellsText {e : Expression} (h : e.Formed) : e.SpellsText := by
  induction h with
  | literal => exact spellsText_literal _ _
  | parameterAlias => exact spellsText_parameterAlias _
  | call _ _ ih => exact spellsText_call ih
  | unary _ _ _ ih => exact spellsText_unary ih
  | binary _ _ _ _ ihLeft ihRight => exact spellsText_binary ihLeft ihRight
  | inAlias _ _ _ ih => exact spellsText_binary ih (spellsText_parameterAlias _)
  | inList _ _ _ _ _ ihLeft ihItems => exact spellsText_binary ihLeft (spellsText_list ihItems)

/-! ### Lexing -/

/-- The pieces of an expression are lexed in front of every boundary. -/
def LexesText (e : Expression) : Prop :=
  ∀ spaced behind, Bounded behind → Lexed (e.pieces spaced) behind

theorem LexesText.grouped {e : Expression} (h : e.LexesText) (least : Nat) (spaced : Bool)
    {behind : List Char} (hb : Bounded behind) :
    Lexed (groupedPieces least e.precedence e.pieces spaced) behind := by
  unfold groupedPieces
  split
  · rw [List.cons_append]
    refine ⟨Word.lexes_openParen _, lexed_append.mpr ⟨?_, Word.lexes_closeParen _, trivial⟩⟩
    exact h false _ (bounded_cons (by decide))
  · exact h spaced behind hb

theorem lexed_itemPieces {es : List Expression} (h : ∀ e ∈ es, e.LexesText) {behind : List Char}
    (hb : Bounded behind) : Lexed (itemPieces es) behind := by
  induction es with
  | nil => trivial
  | cons e es ih =>
    have he := h e List.mem_cons_self
    cases es with
    | nil => exact he false behind hb
    | cons e' es =>
      refine lexed_append.mpr ⟨he false _ (bounded_cons (by decide)), Word.lexes_comma _, ?_⟩
      exact ih fun x hx => h x (List.mem_cons_of_mem e hx)

theorem lexesText_list {items : List Expression} (h : ∀ e ∈ items, e.LexesText) :
    (Expression.list items).LexesText := by
  intro spaced behind hb
  refine ⟨Word.lexes_openParen _, lexed_append.mpr ⟨?_, Word.lexes_closeParen _, trivial⟩⟩
  exact lexed_itemPieces h (bounded_cons (by decide))

theorem lexesText_parameterAlias {name : String} (stands : (Word.mk .parameterAlias name).Stands) :
    (Expression.parameterAlias name).LexesText :=
  fun _ behind hb => ⟨stands behind hb, trivial⟩

theorem lexesText_binary {op : BinaryOperator} {left right : Expression} {type : Option ModelType}
    (hleft : left.LexesText) (hright : right.LexesText) (hspells : right.SpellsText) :
    (Expression.binary op left right type).LexesText := by
  intro spaced behind hb
  refine lexed_append.mpr ⟨hleft.grouped _ _ (bounded_cons (by decide)), ?_, ?_⟩
  · refine op.stands_word _ ?_
    rw [hspells.grouped]
    exact bounded_cons (by decide)
  · exact hright.grouped _ _ hb

/-- No number starts with the text. -/
def startsNoNumber (text : List Char) : Bool :=
  !text.head?.any Char.isDigit && !"INF".toList.isPrefixOf text

theorem startsNoNumber_method (m : Method) (behind : List Char) :
    startsNoNumber (m.name.toList ++ behind) = true := by
  cases m <;> rfl

theorem startsNoNumber_alias {name : String} (stands : (Word.mk .parameterAlias name).Stands)
    (behind : List Char) : startsNoNumber (name.toList ++ behind) = true := by
  obtain ⟨c, cs, htext, -, hlexeme⟩ := stands [] bounded_nil
  obtain rfl := lexeme?_alias hlexeme
  have htext : name.toList = '@' :: cs := htext
  rw [htext]
  rfl

/-- What a minus may stand in front of: a group, a call or an alias. -/
theorem Formed.startsNoNumber {e : Expression} (h : e.Formed) (apart : e.isLiteral = false)
    (behind : List Char) :
    startsNoNumber (spelled (groupedPieces unitPrecedence e.precedence e.pieces false) ++ behind) =
      true := by
  rw [h.spellsText.grouped, ODataRequest.grouped]
  split
  · rw [String.toList_append, String.toList_append]
    rfl
  · rename_i hunit
    cases h with
    | literal => cases apart
    | parameterAlias stands => exact startsNoNumber_alias stands behind
    | @call m arguments =>
      rw [show (Expression.call m arguments).text =
        m.name ++ "(" ++ commaJoined (texts arguments) ++ ")" from rfl]
      rw [String.toList_append, String.toList_append, String.toList_append]
      simp only [List.append_assoc]
      exact startsNoNumber_method m _
    | unary => exact absurd (show unaryPrecedence < unitPrecedence by decide) hunit
    | @binary op => exact absurd (Nat.lt_succ_of_lt op.precedence_lt) hunit
    | inAlias => exact absurd (Nat.lt_succ_of_lt BinaryOperator.isIn.precedence_lt) hunit
    | inList => exact absurd (Nat.lt_succ_of_lt BinaryOperator.isIn.precedence_lt) hunit

theorem lexesText_unary {op : UnaryOperator} {operand : Expression} {type : Option ModelType}
    (hformed : operand.Formed) (apart : op = .minus → operand.isLiteral = false)
    (h : operand.LexesText) : (Expression.unary op operand type).LexesText := by
  intro spaced behind hb
  refine ⟨?_, h.grouped _ _ hb⟩
  cases op with
  | minus =>
    have hstarts := hformed.startsNoNumber (apart rfl) behind
    simp only [Expression.startsNoNumber, Bool.and_eq_true, Bool.not_eq_true'] at hstarts
    exact Word.lexes_minus hstarts.1 hstarts.2
  | not =>
    refine Word.stands_not _ ?_
    rw [hformed.spellsText.grouped]
    exact bounded_cons (by decide)

theorem lexesText_call {m : Method} {arguments : List Expression}
    (h : ∀ e ∈ arguments, e.LexesText) : (Expression.call m arguments).LexesText := by
  intro spaced behind hb
  refine ⟨m.stands_word _ (bounded_cons (by decide)), Word.lexes_openParen _, ?_⟩
  refine lexed_append.mpr ⟨?_, Word.lexes_closeParen _, trivial⟩
  exact lexed_itemPieces h (bounded_cons (by decide))

/-- The pieces of a formed expression are lexed as they are. -/
theorem Formed.lexesText {e : Expression} (h : e.Formed) : e.LexesText := by
  induction h with
  | literal stands => exact fun _ behind hb => ⟨stands behind hb, trivial⟩
  | parameterAlias stands => exact lexesText_parameterAlias stands
  | call _ _ ih => exact lexesText_call ih
  | unary formed apart _ ih => exact lexesText_unary formed apart ih
  | binary _ _ formedRight _ ihLeft ihRight =>
    exact lexesText_binary ihLeft ihRight formedRight.spellsText
  | inAlias _ stands _ ih =>
    exact lexesText_binary ih (lexesText_parameterAlias stands) (spellsText_parameterAlias _)
  | inList _ _ formed _ _ ihLeft ihItems =>
    exact lexesText_binary ihLeft (lexesText_list ihItems)
      (spellsText_list fun e he => (formed e he).spellsText)

/-- The text of a formed expression is cut into its pieces. -/
theorem Formed.tokenize_text {e : Expression} (h : e.Formed) :
    ∃ ts last, tokenize e.text = .ok (ts ++ [last]) ∧ ts.map Token.piece = e.pieces false ∧
      last.kind = .endOfText := by
  obtain ⟨ts, last, htokens, hpieces, hlast, -⟩ :=
    tokenize_spelled (h.lexesText false [] bounded_nil)
  rw [h.spellsText false, blank, if_neg (by decide), List.nil_append, String.ofList_toList]
    at htokens
  exact ⟨ts, last, htokens, hpieces, hlast⟩

end Expression

end ODataRequest
