import ODataRequest.Proofs.Expression.Nodes
import ODataRequest.Proofs.Primitive.Inference
import ODataRequest.Proofs.Token.Recognized

/-!
# ODataRequest.Proofs.Expression.Literals

The literals of accepted expressions, those in the bodies of quantifiers included. Each has the text of
a literal among the tokens and the type of the value that is inferred from it
(`literal_of_reads`), so only `null` and the texts that no value is inferred from have no type
(`Lexeme.LiteralText.untyped`).
-/

namespace ODataRequest

open TokenReader Lexeme

variable {answers : Answers} {scope : Scope} {source : String} {ts rest : List Token}
variable {e : Expression}

/-- The literals of an accepted expression are made of the literals among the tokens. -/
theorem literals_rule {IsLiteral : String → Prop} :
    ReadingRule answers IsLiteral fun _ e => ∀ n ∈ e.nodes, ∀ text type, n = .literal text type →
      IsLiteral text ∧ n = literalExpression text := by
  have rule : ReadingRule answers IsLiteral fun _ n => ∀ text type, n = .literal text type →
      IsLiteral text ∧ n = literalExpression text := {
    literal := by
      rintro scope text h _ _ ⟨⟩
      exact ⟨h, rfl⟩
    enumeration := fun _ _ _ => nofun
    parameterAlias := fun _ _ => nofun
    typeName := fun _ _ => nofun
    boundVariable := fun _ _ _ _ => nofun
    unary := fun _ _ _ _ _ _ => nofun
    call := fun _ _ _ _ _ => nofun
    list := fun _ _ _ => nofun
    binary := fun _ _ _ _ _ _ _ _ _ => nofun
    member := fun _ _ _ => nofun }
  exact rule.nodes id

theorem literal_of_reads {config : Config} (htokens : tokenize source = .ok ts)
    (h : Reads answers (expression config scope) source ts e rest) {text : String}
    {type : Option ModelType} (hmem : .literal text type ∈ e.nodes) :
    LiteralText text.toList ∧ .literal text type = literalExpression text := by
  have hliterals : LiteralsIn (fun text => LiteralText text.toList) ts :=
    literalText_of_tokenize htokens
  exact literals_rule.expression_of_literals hliterals h _ hmem text type rfl

/-- A literal without a type is `null`, geographic, or misquoted. -/
theorem Lexeme.LiteralText.untyped {text : String} (h : LiteralText text.toList)
    (hnone : .literal text none = literalExpression text) :
    text = "null" ∨ isGeographic text.toList = true ∨ Misquoted text.toList := by
  cases h with
  | value hvalue =>
    obtain ⟨v, hv⟩ := Option.isSome_iff_exists.mp hvalue
    have hkind : v.kind? = none := by simpa [literalExpression, hv] using hnone
    exact Or.inl ((PrimitiveValue.inferredFrom_of_infer? hv).null hkind)
  | geographic h => exact Or.inr (Or.inl h)
  | misquoted h => exact Or.inr (Or.inr h)

end ODataRequest
