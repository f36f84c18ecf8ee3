import Mathlib
import ODataRequest.Proofs.Expression.Accepted
import ODataRequest.Proofs.Expression.ReadBack

/-!
# ODataRequest.Proofs.Expression.RoundTrip

An expression of operators that has been read from a text has a text of its own. The two have the
same words but for parentheses that group, and the new text is read as the same expression with the
same types, on every model (`text_roundTrip`). Twice the limit of the first reading is enough for
this, with one level more for each result of `in` to the left of an operator that binds tighter
(`Expression.looseness`): the loop over operators comes by such a result without going deeper, but
the text has parentheses around it (`Ladder.twice_too_few`).
-/

namespace ODataRequest

open TokenReader

/-- The same configuration with another limit for nesting. -/
def Config.nestingUpTo (config : Config) (limit : Nat) : Config :=
  { config with maxNesting := limit }

namespace Expression

/-- What is known of an expression of operators that a whole text is read as. -/
theorem accepted_of_readAll {config : Config} {scope : Scope} {d : Directory} {text : String}
    {e : Expression} (h : ((readAll (expression config scope) text).runOn d).1 = .ok e)
    (tree : e.isOperatorTree = true) :
    e.Formed ∧ e.levels ≤ 2 * config.maxNesting + e.looseness ∧
      ungroupedWords text = .ok (e.words ++ [⟨.endOfText, ""⟩]) := by
  obtain ⟨ts, rest, htokens, hreads, hend⟩ := gives_readAll.mp (Resolution.gives_of_runOn h)
  have genuine : ∀ t ∈ ts, t.Genuine := fun t ht => genuine_of_mem_tokenize htokens ht
  obtain ⟨accepted, -⟩ :=
    accepts_expressionWithin config.maxNesting config.maxNesting hreads genuine tree
  exact ⟨accepted.formed, accepted.shallow.levels_le, accepted.passes.ungroupedWords htokens hend⟩

/-- A formed expression is one of operators. -/
theorem Formed.isOperatorTree {e : Expression} (h : e.Formed) : e.isOperatorTree = true := by
  have all : ∀ {es : List Expression}, (∀ e ∈ es, e.isOperatorTree = true) →
      areOperatorTrees es = true := by
    intro es hes
    induction es with
    | nil => rfl
    | cons e es ih =>
      rw [areOperatorTrees, Bool.and_eq_true]
      exact ⟨hes e List.mem_cons_self, ih fun x hx => hes x (List.mem_cons_of_mem e hx)⟩
  induction h with
  | literal => rfl
  | parameterAlias => rfl
  | call _ _ ih => exact all ih
  | @unary op _ _ _ apart _ ih =>
    rw [Expression.isOperatorTree, ih, Bool.true_and]
    cases op with
    | minus => simp [apart rfl]
    | not => rfl
  | binary _ _ _ _ ihLeft ihRight =>
    rw [Expression.isOperatorTree, ihLeft, ihRight]
    rfl
  | inAlias _ _ _ ih =>
    rw [Expression.isOperatorTree, ih]
    rfl
  | inList _ _ _ _ _ ih ihItems =>
    rw [Expression.isOperatorTree, ih]
    exact all ihItems

/-- The words of the text of a formed expression. -/
theorem Formed.ungroupedWords_text {e : Expression} (h : e.Formed) :
    ungroupedWords e.text = .ok (e.words ++ [⟨.endOfText, ""⟩]) := by
  -- the text is read as the expression, so the words are those that have been read
  have hgives : (readAll (expression (Config.standard.nestingUpTo e.levels) ⟨[], [], none, []⟩)
      e.text).Gives .none e := h.gives_text (Nat.le_refl _)
  have hread := Resolution.runOn_of_gives hgives (Directory.ofSource ⟨[], false⟩)
  exact (accepted_of_readAll (congrArg Prod.fst hread) h.isOperatorTree).2.2

/-- The text of an expression of operators that has been read has the words it has been read from,
and is read as the same expression again. -/
theorem text_roundTrip {config : Config} {scope : Scope} {d : Directory} {text : String}
    {e : Expression} (h : ((readAll (expression config scope) text).runOn d).1 = .ok e)
    (tree : e.isOperatorTree = true) :
    (∃ ws, ungroupedWords text = .ok ws ∧ ungroupedWords e.text = .ok ws) ∧
      ∀ scope' d', (readAll (expression
        (config.nestingUpTo (2 * config.maxNesting + e.looseness)) scope') e.text).runOn d' =
          (.ok e, d') := by
  obtain ⟨formed, hlevels, hwords⟩ := accepted_of_readAll h tree
  exact ⟨⟨_, hwords, formed.ungroupedWords_text⟩, fun scope' d' =>
    Resolution.runOn_of_gives (formed.gives_text hlevels) d'⟩

namespace Ladder

/-- Three results of `in`, each to the left of `add`. -/
def text : String := "@d in (null) add @c in (null) add @b in (null) add @a"

/-- A result of `in` to the left of `add`. -/
def rung (below : Expression) (name : String) : Expression :=
  .binary .add (.binary .isIn below (.list [literalExpression "null"]) (some booleanType))
    (.parameterAlias name) (some booleanType)

/-- The expression that the text is read as. -/
def tree : Expression :=
  rung (rung (rung (.parameterAlias "@d") "@c") "@b") "@a"

/-- The scope without any names. -/
def scope : Scope := ⟨[], [], none, []⟩

/-- The directory of a model without schemas. -/
def directory : Directory := Directory.ofSource ⟨[], false⟩

theorem reads_text :
    ((readAll (expression (Config.standard.nestingUpTo 2) scope) text).runOn directory).1 =
      .ok tree := by
  cbv

theorem looseness_tree : tree.looseness = 3 := by
  decide

theorem isOperatorTree_tree : tree.isOperatorTree = true := by
  decide

/-- The text is read within two levels, and there are three results of `in` to count. -/
theorem text_roundTrip_ladder :
    ((readAll (expression (Config.standard.nestingUpTo 2) scope) text).runOn directory).1 =
        .ok tree ∧
      tree.isOperatorTree = true ∧
      (∃ ws, ungroupedWords text = .ok ws ∧ ungroupedWords tree.text = .ok ws) ∧
        ∀ scope' d', (readAll (expression (Config.standard.nestingUpTo 7) scope')
          tree.text).runOn d' = (.ok tree, d') := by
  have hroundTrip := text_roundTrip reads_text isOperatorTree_tree
  rw [looseness_tree] at hroundTrip
  exact ⟨reads_text, isOperatorTree_tree, hroundTrip⟩

/-- Twice the limit is not enough for the text of an expression that has been read. -/
theorem twice_too_few :
    ¬∀ (config : Config) (scope : Scope) (d : Directory) (text : String) (e : Expression),
      ((readAll (expression config scope) text).runOn d).1 = .ok e → e.isOperatorTree = true →
        (∃ ws, ungroupedWords text = .ok ws ∧ ungroupedWords e.text = .ok ws) ∧
          ((readAll (expression (config.nestingUpTo (2 * config.maxNesting)) scope)
            e.text).runOn d).1 = .ok e := by
  intro h
  obtain ⟨-, hread⟩ :=
    h (Config.standard.nestingUpTo 2) scope directory text tree reads_text isOperatorTree_tree
  have htwice : (Config.standard.nestingUpTo 2).nestingUpTo
      (2 * (Config.standard.nestingUpTo 2).maxNesting) = Config.standard.nestingUpTo 4 := rfl
  have hrefused : ((readAll (expression (Config.standard.nestingUpTo 4) scope)
      tree.text).runOn directory).1 = .error (.grammar (.tooDeeplyNested "5")) := by
    cbv
  rw [htwice, hrefused] at hread
  cases hread

end Ladder

end Expression

end ODataRequest
