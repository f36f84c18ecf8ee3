import ODataRequest.Proofs.Expression.MemberPath
import ODataRequest.Proofs.Path.ArgumentText
import ODataRequest.Proofs.Path.Keyed
import ODataRequest.Proofs.Token.Balanced

/-!
# ODataRequest.Proofs.Expression.Balanced

What the readers of expressions pass over is balanced: parentheses are only read in pairs, around an
operand, a list, arguments, a key or a quantifier, and no semicolon is read at all. This is shown
for each reader from what it reads (`Balances`), and for the reader of a level from that of the next
one (`balances_expressionWithin`).
-/

namespace ODataRequest

open TokenReader

variable {answers : Answers} {scope : Scope} {nested : OperandReader} {source : String}
variable {ts rest : List Token} {e : Expression}

/-- Whatever the reader accepts is balanced. -/
def Balances (answers : Answers) (nested : OperandReader) : Prop :=
  ∀ ⦃scope : Scope⦄ ⦃least : Nat⦄ ⦃source : String⦄ ⦃ts rest : List Token⦄ ⦃e : Expression⦄,
    Reads answers (nested scope least) source ts e rest → Balanced ts rest

/-! ### Keys and arguments -/

/-- Words of values open, close and separate nothing. -/
def Word.IsValue (w : Word) : Prop :=
  w.kind = .parameterAlias ∨ w.kind = .literal ∨ w.kind = .enumLiteral

theorem Word.IsValue.plain {t : Token} (h : t.word.IsValue) : t.Plain := by
  rcases h with hkind | hkind | hkind <;> exact t.plain_of_kind hkind (by decide)

theorem NamedValues.plain {us : List Token} {pairs : List (String × Word)}
    (h : NamedValues us pairs) (hvalues : ∀ pair ∈ pairs, pair.2.IsValue) : ∀ t ∈ us, t.Plain := by
  induction h with
  | last isName isSign =>
    have hvalue := (hvalues _ (List.mem_singleton_self _)).plain
    have hname := Token.plain_of_kind isName (by decide)
    have hsign := Token.plain_of_kind isSign (by decide)
    simp [hname, hsign, hvalue]
  | more isName isSign isComma _ ih =>
    obtain ⟨hvalue, hvalues⟩ := List.forall_mem_cons.mp hvalues
    have hname := Token.plain_of_kind isName (by decide)
    have hsign := Token.plain_of_kind isSign (by decide)
    have hcomma := Token.plain_of_kind isComma (by decide)
    simp only [List.forall_mem_cons]
    exact ⟨hname, hsign, Word.IsValue.plain hvalue, hcomma, ih hvalues⟩

theorem GivesValue.isValue {aliases : AliasTable} {kind : PrimitiveKind} {w : Word}
    {value : KeyValue} (h : GivesValue aliases kind w value) : w.IsValue := by
  cases h with
  | literal hkind => exact Or.inr hkind
  | parameterAlias hkind => exact Or.inl hkind

theorem balanced_key {aliases : AliasTable} {type : EntityType} {keys : List KeyPredicate}
    (h : Reads answers (key aliases type) source ts keys rest) : Balanced ts rest := by
  obtain ⟨opening, us, closing, rfl, hopening, hclosing, hus⟩ := reads_key_iff.mp h
  have hplain : ∀ t ∈ us, t.Plain := by
    rcases hus with ⟨pairs, ps, hpairs, hps, -, -⟩ | ⟨value, k, p, rfl, -, hgives, -⟩
    · refine hpairs.plain fun pair hpair => ?_
      obtain ⟨p, -, k, kind, value, -, -, hvalue, -⟩ := exists_right_of_forall₂ hps.each hpair
      exact hvalue.isValue
    · obtain ⟨kind, value', -, hvalue, -⟩ := gives_keyPredicate_iff.mp hgives
      intro t ht
      rw [List.mem_singleton.mp ht]
      exact hvalue.isValue.plain
  exact .parens hopening (Balanced.of_plain hplain _) hclosing

/-- Arguments are read as tokens first; that they are values shows when they are resolved. -/
theorem balanced_rawArguments {raw : List (String × Token)} {f : Function}
    {arguments : List Argument} (h : Reads answers rawArguments source ts raw rest)
    (harguments : (argumentsOf f raw).Gives answers arguments) : Balanced ts rest := by
  obtain ⟨opening, us, closing, rfl, hopening, hclosing, hus, -⟩ := namedValues_of_rawArguments h
  have hplain : ∀ t ∈ us, t.Plain := by
    rcases hus with ⟨rfl, -⟩ | hus
    · simp
    · refine hus.plain fun pair hpair => ?_
      obtain ⟨given, hgiven, rfl⟩ := List.mem_map.mp hpair
      obtain ⟨a, -, ha⟩ := exists_right_of_forall₂ (Resolution.gives_mapM.mp harguments) hgiven
      exact (gives_argument ha).2.2
  exact .parens hopening (Balanced.of_plain hplain _) hclosing

/-! ### Paths -/

theorem balanced_entitySetResource {aliases : AliasTable} {set : EntitySet} {r : Resource}
    (h : Reads answers (entitySetResource aliases set) source ts r rest) : Balanced ts rest := by
  obtain ⟨type, -, hkeyed⟩ := reads_entitySetResource_iff.mp h
  cases hkeyed with
  | without => exact .refl ts
  | withKey _ hkey => exact balanced_key hkey

theorem balanced_rootResource {aliases : AliasTable} {r : Resource}
    (h : Reads answers (rootResource aliases) source ts r rest) : Balanced ts rest := by
  obtain ⟨slash, name, us, container, rfl, hslash, hname, -, hfound⟩ := reads_rootResource_iff.mp h
  refine (Balanced.single hslash (by decide)).trans ((Balanced.single hname (by decide)).trans ?_)
  obtain ⟨set, -, hset⟩ | ⟨-, single, -, -, rfl⟩ := hfound
  · exact balanced_entitySetResource hset
  · exact .refl _

theorem balanced_joinedResource {aliases : AliasTable} {name : String} {r : Resource}
    (h : Reads answers (joinedResource aliases name) source ts r rest) : Balanced ts rest := by
  obtain ⟨container, set, -, -, hset⟩ := reads_joinedResource_iff.mp h
  exact balanced_entitySetResource hset

theorem balanced_memberFunction {p : MemberPosition} {text : String} {name : QualifiedName}
    {r : Resource} (h : Reads answers (memberFunction scope p text name) source ts r rest) :
    Balanced ts rest := by
  obtain ⟨f, raw, arguments, returnType, hraw, harguments, -⟩ := memberFunction_cases h
  exact balanced_rawArguments hraw harguments

theorem balanced_quantified (hnested : Balances answers nested) {quantifier : Quantifier}
    {owner : Option ModelType} {r : Resource}
    (h : Reads answers (quantified scope nested quantifier owner) source ts r rest) :
    Balanced ts rest := by
  obtain ⟨opening, us, rfl, hopening, ⟨-, -, closing, rfl, hclosing⟩ | ⟨-, hbody⟩⟩ :=
    reads_quantified_iff.mp h
  · exact .parens hopening (.refl _) hclosing
  · obtain ⟨name, colon, type, body, vs, closing, rfl, hname, hcolon, -, hbody, -, hclosing, -⟩ :=
      quantifiedBody_cases hbody
    have hinside : Balanced (name :: colon :: vs) (closing :: rest) :=
      (Balanced.single hname (by decide)).trans
        ((Balanced.single hcolon (by decide)).trans (hnested hbody))
    exact .parens hopening hinside hclosing

/-- A step of a path is balanced behind its first token. -/
theorem balanced_memberStep (hnested : Balances answers nested) {p p' : MemberPosition} {t : Token}
    (h : Reads answers (memberStep scope nested p t) source ts p' rest) : Balanced ts rest := by
  cases memberEffect h with
  | it | count | lambdaVariable | property | narrow => exact .refl ts
  | root _ h => exact balanced_rootResource h
  | joined _ h => exact balanced_joinedResource h
  | function h => exact balanced_memberFunction h
  | quantify _ h => exact balanced_quantified hnested h

/-- Only names and keywords start a step. -/
theorem plain_of_memberStep {p p' : MemberPosition} {t : Token}
    (h : Reads answers (memberStep scope nested p t) source ts p' rest) : t.Plain := by
  unfold memberStep at h
  split at h
  · next hkind => exact t.plain_of_kind hkind (by decide)
  · next hkind => exact t.plain_of_kind hkind (by decide)
  · exact absurd h not_reads_malformed

theorem balanced_memberPath (hnested : Balances answers nested) {first : Token}
    (h : Reads answers (memberPath scope nested first) source ts e rest) : Balanced ts rest := by
  rcases memberPath_cases h with ⟨name, type, -, -, rfl⟩ | ⟨start, between, final, hstart, hloop, -⟩
  · exact .refl _
  · refine (hloop.foldWhile_rule (fun _ left => Balanced ts left) ?_
      (balanced_memberStep hnested hstart)).1
    intro p t us reader p' left hus hselect hread
    obtain ⟨u, vs, hslash, rfl, hstep⟩ := memberPathStep_cases hselect hread
    have hstepped : Balanced (u :: vs) left :=
      .token (plain_of_memberStep hstep) (balanced_memberStep hnested hstep)
    exact hus.trans (.token (t.plain_of_kind hslash (by decide)) hstepped)

/-! ### Operands -/

theorem balanced_unaryExpression (hnested : Balances answers nested) {op : UnaryOperator}
    (h : Reads answers (unaryExpression scope nested op) source ts e rest) : Balanced ts rest := by
  obtain ⟨operand, type, hoperand, -, -⟩ := reads_unaryExpression.mp h
  exact hnested hoperand

theorem balanced_methodArgument (hnested : Balances answers nested) {m : Method}
    (h : Reads answers (methodArgument scope nested m) source ts e rest) : Balanced ts rest := by
  obtain ⟨t, type, rfl, hkind, -⟩ | h := methodArgument_cases h
  · exact .single hkind (by decide)
  · exact hnested h

theorem balanced_methodCall (hnested : Balances answers nested) {m : Method}
    (h : Reads answers (methodCall scope nested m) source ts e rest) : Balanced ts rest := by
  obtain ⟨opening, us, arguments, closing, rfl, hopening, hclosing, -, -, hus⟩ :=
    reads_methodCall.mp h
  rcases hus with ⟨-, rfl⟩ | ⟨-, hitems⟩
  · exact .parens hopening (.refl _) hclosing
  · have hinside := Balanced.items (fun _ _ _ => balanced_methodArgument hnested) hitems
    exact .parens hopening hinside hclosing

theorem balanced_operand (hnested : Balances answers nested)
    (h : Reads answers (operand scope nested) source ts e rest) : Balanced ts rest := by
  cases operandForm h with
  | group opens inside closes => exact .parens opens (hnested inside) closes
  | minus isMinus h =>
    exact .token (Token.plain_of_kind isMinus (by decide)) (balanced_unaryExpression hnested h)
  | not isName _ h =>
    exact .token (Token.plain_of_kind isName (by decide)) (balanced_unaryExpression hnested h)
  | literal isLiteral | enumeration isLiteral => exact .single isLiteral (by decide)
  | parameterAlias isAlias => exact .single isAlias (by decide)
  | call isName _ h =>
    exact .token (Token.plain_of_kind isName (by decide)) (balanced_methodCall hnested h)
  | @path t _ _ _ begins h =>
    have hplain : t.Plain := by
      obtain hkind | ⟨hkind, -⟩ := begins <;> exact t.plain_of_kind hkind (by decide)
    exact .token hplain (balanced_memberPath hnested h)

/-! ### Operators -/

theorem balanced_listOperand (hnested : Balances answers nested) {left : Expression}
    (h : Reads answers (listOperand scope nested left) source ts e rest) : Balanced ts rest := by
  rcases reads_listOperand.mp h with
    ⟨t, rfl, hkind, -⟩ | ⟨opening, us, items, closing, rfl, hopening, hitems, hclosing, -⟩
  · exact .single hkind (by decide)
  · have hinside := Balanced.items (fun _ _ _ h => hnested (reads_listItem.mp h).1) hitems
    exact .parens hopening hinside hclosing

theorem balanced_binaryExpression (hnested : Balances answers nested) {left : Expression}
    {op : BinaryOperator} (h : Reads answers (binaryExpression scope nested left op) source ts e rest) :
    Balanced ts rest := by
  obtain ⟨right, type, ⟨-, hright⟩ | ⟨-, hright⟩, -, -⟩ := reads_binaryExpression.mp h
  · exact balanced_listOperand hnested hright
  · exact hnested hright

theorem balanced_operands (hnested : Balances answers nested) {least : Nat}
    (h : Reads answers (operands scope nested least) source ts e rest) : Balanced ts rest := by
  obtain ⟨first, between, hfirst, hloop⟩ := reads_operands.mp h
  refine (hloop.foldWhile_rule (fun _ left => Balanced ts left) ?_
    (balanced_operand hnested hfirst)).1
  intro left t us reader e' behind hus hselect hread
  obtain ⟨op, hop, rfl⟩ := Option.map_eq_some_iff.mp hselect
  have hword : t.kind = .identifier := (operator?_eq_some.mp hop).1.1
  exact hus.trans (.token (t.plain_of_kind hword (by decide))
    (balanced_binaryExpression hnested hread))

/-- What every level of the reader passes over is balanced, since it is on the next one. -/
theorem balances_expressionWithin (answers : Answers) (limit room : Nat) :
    Balances answers (expressionWithin limit room) := by
  induction room with
  | zero =>
    intro scope least source ts rest e h
    exact absurd h not_reads_expressionWithin_zero
  | succ room ih =>
    intro scope least source ts rest e h
    exact balanced_operands ih h

theorem balanced_expression {config : Config}
    (h : Reads answers (expression config scope) source ts e rest) : Balanced ts rest :=
  balances_expressionWithin answers config.maxNesting config.maxNesting h

end ODataRequest
