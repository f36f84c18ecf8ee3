import ODataRequest.Expression.Reader
import ODataRequest.Proofs.Token.Spelling

/-!
# ODataRequest.Proofs.Expression.OperatorTree

Expressions of operators, calls, lists, literals and aliases, and what their texts are made of.

* `Expression.isOperatorTree` tells them from expressions that lead into the model;
* `Expression.words` are the words of an expression without parentheses for grouping, and
  `ungrouped` leaves these parentheses out of any words;
* `Expression.pieces` are the words of the text of an expression, with those parentheses;
* `Expression.levels` is how deep the text of an expression nests, and `Expression.looseness` how
  often a reader gets a result of `in` to the left of a tighter operator without going deeper.
-/

namespace ODataRequest

/-! ### Words -/

namespace Word

/-- Is a parenthesis behind the word one of a list or of arguments? -/
def opensItems (w : Word) : Bool :=
  w.kind == .identifier && (w.text == BinaryOperator.isIn.name || (Method.ofName? w.text).isSome)

end Word

/-- Words without the parentheses that group. `kept` tells for each parenthesis that is open whether
it is kept, and `opensItems` whether the next one belongs to a list or to arguments. -/
def ungrouped : List Bool → Bool → List Word → List Word
  | _, _, [] => []
  | kept, opensItems, w :: ws =>
    if w.kind = .openParen then
      if opensItems then w :: ungrouped (true :: kept) false ws
      else ungrouped (false :: kept) false ws
    else if w.kind = .closeParen then
      match kept with
      | false :: kept => ungrouped kept false ws
      | _ => w :: ungrouped kept.tail false ws
    else w :: ungrouped kept w.opensItems ws

theorem ungrouped_word {w : Word} (hopen : w.kind ≠ .openParen) (hclose : w.kind ≠ .closeParen)
    (kept : List Bool) (opens : Bool) (ws : List Word) :
    ungrouped kept opens (w :: ws) = w :: ungrouped kept w.opensItems ws := by
  simp [ungrouped, hopen, hclose]

theorem ungrouped_openParen {w : Word} (h : w.kind = .openParen) (kept : List Bool)
    (ws : List Word) : ungrouped kept false (w :: ws) = ungrouped (false :: kept) false ws := by
  simp [ungrouped, h]

theorem ungrouped_openParen_items {w : Word} (h : w.kind = .openParen) (kept : List Bool)
    (ws : List Word) : ungrouped kept true (w :: ws) = w :: ungrouped (true :: kept) false ws := by
  simp [ungrouped, h]

theorem ungrouped_closeParen {w : Word} (h : w.kind = .closeParen) (kept : List Bool)
    (ws : List Word) : ungrouped (false :: kept) false (w :: ws) = ungrouped kept false ws := by
  simp [ungrouped, h]

theorem ungrouped_closeParen_items {w : Word} (h : w.kind = .closeParen) (kept : List Bool)
    (ws : List Word) :
    ungrouped (true :: kept) false (w :: ws) = w :: ungrouped kept false ws := by
  simp [ungrouped, h]

/-- The words of a text without the parentheses that group, if the text can be cut into tokens. -/
def ungroupedWords (text : String) : Except GrammarError (List Word) := do
  return ungrouped [] false ((← tokenize text).map Token.word)

/-! ### Expressions -/

/-- The word of an operator. -/
def BinaryOperator.word (op : BinaryOperator) : Word :=
  .identifier op.name

/-- The word or sign of an operator in front of its operand. -/
def UnaryOperator.word : UnaryOperator → Word
  | .minus => .minus
  | .not => .identifier "not"

/-- The word of a method. -/
def Method.word (m : Method) : Word :=
  .identifier m.name

/-- Some pieces between parentheses if what they spell binds less tight than its place asks. -/
def groupedPieces (least precedence : Nat) (pieces : Bool → List Piece) (spaced : Bool) :
    List Piece :=
  if precedence < least then
    ⟨Word.openParen, spaced⟩ :: pieces false ++ [⟨Word.closeParen, false⟩]
  else pieces spaced

/-- One level more if what has the levels binds less tight than its place asks. -/
def groupedLevels (least precedence levels : Nat) : Nat :=
  if precedence < least then levels + 1 else levels

namespace Expression

/-- Is it a literal? -/
def isLiteral : Expression → Bool
  | .literal _ _ => true
  | _ => false

mutual

/-- Is it an expression of operators, calls, lists, literals and aliases, without a minus directly
in front of a literal? -/
def isOperatorTree : Expression → Bool
  | .binary _ left right _ => left.isOperatorTree && right.isOperatorTree
  | .unary op operand _ => operand.isOperatorTree && !(op == .minus && operand.isLiteral)
  | .call _ arguments => areOperatorTrees arguments
  | .literal _ _ => true
  | .parameterAlias _ => true
  | .list items => areOperatorTrees items
  | .member _ _ => false
  | .typeName _ => false
  | .enumeration _ _ => false
  | .boundVariable _ _ => false
termination_by structural e => e

/-- Are all of them such expressions? -/
def areOperatorTrees : List Expression → Bool
  | [] => true
  | e :: es => e.isOperatorTree && areOperatorTrees es
termination_by structural es => es

end

mutual

/-- The words of an expression without parentheses that group. -/
def words : Expression → List Word
  | .binary op left right _ => left.words ++ op.word :: right.words
  | .unary op operand _ => op.word :: operand.words
  | .call method arguments =>
    method.word :: Word.openParen :: itemWords arguments ++ [Word.closeParen]
  | .literal text _ => [⟨.literal, text⟩]
  | .parameterAlias name => [⟨.parameterAlias, name⟩]
  | .list items => Word.openParen :: itemWords items ++ [Word.closeParen]
  | .member _ _ => []
  | .typeName _ => []
  | .enumeration _ _ => []
  | .boundVariable _ _ => []
termination_by structural e => e

/-- The words of some expressions, with commas between them. -/
def itemWords : List Expression → List Word
  | [] => []
  | e :: es => match es with
    | [] => e.words
    | _ :: _ => e.words ++ Word.comma :: itemWords es
termination_by structural es => es

end

mutual

/-- The pieces of the text of an expression, the first one with a space in front of it or not. -/
def pieces : Expression → Bool → List Piece
  | .binary op left right _, spaced =>
    groupedPieces op.precedence left.precedence left.pieces spaced ++
      ⟨op.word, true⟩ :: groupedPieces (op.precedence + 1) right.precedence right.pieces true
  | .unary op operand _, spaced =>
    ⟨op.word, spaced⟩ ::
      groupedPieces unitPrecedence operand.precedence operand.pieces (op == .not)
  | .call method arguments, spaced =>
    ⟨method.word, spaced⟩ :: ⟨Word.openParen, false⟩ ::
      itemPieces arguments ++ [⟨Word.closeParen, false⟩]
  | .literal text _, spaced => [⟨⟨.literal, text⟩, spaced⟩]
  | .parameterAlias name, spaced => [⟨⟨.parameterAlias, name⟩, spaced⟩]
  | .list items, spaced =>
    ⟨Word.openParen, spaced⟩ :: itemPieces items ++ [⟨Word.closeParen, false⟩]
  | .member _ _, _ => []
  | .typeName _, _ => []
  | .enumeration _ _, _ => []
  | .boundVariable _ _, _ => []
termination_by structural e => e

/-- The pieces of the texts of some expressions, with commas between them. -/
def itemPieces : List Expression → List Piece
  | [] => []
  | e :: es => match es with
    | [] => e.pieces false
    | _ :: _ => e.pieces false ++ ⟨Word.comma, false⟩ :: itemPieces es
termination_by structural es => es

end

/-! ### Nesting -/

mutual

/-- How deep the text of an expression nests: every operand in parentheses, behind a sign, or to the
right of an operator is one level deeper than what is around it. A list shares the level of what
stands to the right of its operator. -/
def levels : Expression → Nat
  | .binary op left right _ =>
    max (groupedLevels op.precedence left.precedence left.levels)
      (groupedLevels (op.precedence + 1) right.precedence right.levels + 1)
  | .unary _ operand _ => groupedLevels unitPrecedence operand.precedence operand.levels + 1
  | .call _ arguments => itemLevels arguments + 1
  | .list items => itemLevels items
  | .literal _ _ => 1
  | .parameterAlias _ => 1
  | .member _ _ => 1
  | .typeName _ => 1
  | .enumeration _ _ => 1
  | .boundVariable _ _ => 1
termination_by structural e => e

/-- How deep the texts of some expressions nest. -/
def itemLevels : List Expression → Nat
  | [] => 0
  | e :: es => max e.levels (itemLevels es)
termination_by structural es => es

end

/-- Is an expression one of `in`? -/
def isMembership : Expression → Bool
  | .binary .isIn _ _ _ => true
  | _ => false

mutual

/-- How often, along the operands to the left of each other, a result of `in` is an operand to the
left of an operator that binds tighter than `in`. What is to the right of `in` is a list or an
alias, so a reader does not have to go deeper for this. -/
def looseness : Expression → Nat
  | .binary op left right _ =>
    max (left.looseness +
        if left.isMembership && decide (BinaryOperator.isIn.precedence < op.precedence) then 1
        else 0)
      right.looseness
  | .unary _ operand _ => operand.looseness
  | .call _ arguments => itemLooseness arguments
  | .list items => itemLooseness items
  | .literal _ _ => 0
  | .parameterAlias _ => 0
  | .member _ _ => 0
  | .typeName _ => 0
  | .enumeration _ _ => 0
  | .boundVariable _ _ => 0
termination_by structural e => e

/-- The greatest looseness of some expressions. -/
def itemLooseness : List Expression → Nat
  | [] => 0
  | e :: es => max e.looseness (itemLooseness es)
termination_by structural es => es

end

end Expression

end ODataRequest
