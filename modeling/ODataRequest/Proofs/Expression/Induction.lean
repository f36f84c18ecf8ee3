import ODataRequest.Proofs.Expression.Accepted
import ODataRequest.Proofs.Expression.Balanced

/-!
# ODataRequest.Proofs.Expression.Induction

Induction over accepted expressions. `LevelRule` lists the ways in which an expression is made of what
is read one level deeper, each with what has been checked, and properties of all levels follow from
one such rule for each of them (`LevelRule.expressionWithin`). Mostly a property has nothing to do
with the level: what all ways to make an expression of other ones keep (`ReadingRule`) holds of every
expression that is accepted, in the scope it is accepted in (`ReadingRule.expression`). The tokens and
the order in which the parts are read do not occur in the rules, but for what may be known of the
literals among the tokens (`LiteralsIn`).

A path is made step by step (`MemberTrail`). The body of a quantifier is the only expression in it,
and it is read in a scope with one variable more. What a step does to the resources of the path, apart
from the tokens and the casts that lead there, is its effect (`StepEffect`).
-/

namespace ODataRequest

open TokenReader

/-! ### Paths -/

/-- A step of a path. `Body` holds of the bodies of quantifiers in their scopes. -/
inductive MemberStep (answers : Answers) (Body : Scope → Expression → Prop) (scope : Scope)
    (p : MemberPosition) : MemberPosition → Prop
  | it {type : ModelType} (start : p.atStart = true) (isIt : scope.it = some type) :
      MemberStep answers Body scope p (p.push (.it type))
  | count (collection : p.isCollection = true) :
      MemberStep answers Body scope p (p.push .count)
  | lambdaVariable {name : String} {type : ModelType} (start : p.atStart = true)
      (bound : scope.boundType? name = some type) :
      MemberStep answers Body scope p (p.push (.lambdaVariable name type))
  | property {name : String} {r : Resource} (h : (propertyMember scope p name).Gives answers r) :
      MemberStep answers Body scope p (p.push r)
  | narrow {p' : MemberPosition} {text : String} {name : QualifiedName} {type : ModelType}
      (cast : (castMember scope p text type).Gives answers p')
      (known : answers (.type name) (some type)) :
      MemberStep answers Body scope p p'
  | root {source : String} {ts rest : List Token} {r : Resource} (start : p.atStart = true)
      (h : Reads answers (rootResource scope.aliases) source ts r rest) :
      MemberStep answers Body scope p (p.push r)
  | joined {source : String} {ts rest : List Token} {name : String} {r : Resource}
      (start : p.atStart = true)
      (h : Reads answers (joinedResource scope.aliases name) source ts r rest)
      (isJoined : name ∈ scope.joined) :
      MemberStep answers Body scope p ({ p with fromJoin := true }.push r)
  | function {source : String} {ts rest : List Token} {text : String} {name : QualifiedName}
      {r : Resource} (h : Reads answers (memberFunction scope p text name) source ts r rest) :
      MemberStep answers Body scope p (p.push r)
  | notEmpty (collection : p.isCollection = true) :
      MemberStep answers Body scope p (p.push .notEmpty)
  | lambda {quantifier : Quantifier} {name : String} {member : ModelType} {body : Expression}
      (collection : p.isCollection = true) (isMember : p.type? scope = some member)
      (inside : Body (scope.bind name member) body)
      (condition : (requireCondition quantifier.name body).Gives answers ()) :
      MemberStep answers Body scope p (p.push (.lambda quantifier name body))

/-- A path with one step at least. -/
inductive MemberTrail (answers : Answers) (Body : Scope → Expression → Prop) (scope : Scope) :
    MemberPosition → Prop
  | first {p : MemberPosition} (h : MemberStep answers Body scope .origin p) :
      MemberTrail answers Body scope p
  | further {p p' : MemberPosition} (before : MemberTrail answers Body scope p)
      (h : MemberStep answers Body scope p p') : MemberTrail answers Body scope p'

/-- What each step keeps holds at the end of a path if it holds at its start. -/
theorem MemberTrail.rule {answers : Answers} {Body : Scope → Expression → Prop} {scope : Scope}
    (Inv : MemberPosition → Prop)
    (step : ∀ p p', Inv p → MemberStep answers Body scope p p' → Inv p') (init : Inv .origin)
    {p : MemberPosition} (h : MemberTrail answers Body scope p) : Inv p := by
  induction h with
  | first h => exact step _ _ init h
  | further _ h ih => exact step _ _ ih h

/-! ### What a step leads to -/

/-- What a step of a path makes of the resources it has led to so far, the last one first. All that a
path says about variables is in three of the cases: a path starts at `$it` or at a variable, and a
quantifier stands behind a collection and applies a condition to its members. -/
inductive StepEffect (answers : Answers) (Body : Scope → Expression → Prop) (scope : Scope)
    (steps : List Resource) : List Resource → Prop
  | kept : StepEffect answers Body scope steps steps
  | narrowed {last narrowed : Resource} {earlier : List Resource} (before : steps = last :: earlier)
      (plain : narrowed.ofExpression = false) :
      StepEffect answers Body scope steps (narrowed :: earlier)
  | resource {r : Resource} (plain : r.ofExpression = false) :
      StepEffect answers Body scope steps (r :: steps)
  | it {type : ModelType} (isIt : scope.it = some type) :
      StepEffect answers Body scope steps (.it type :: steps)
  | notEmpty : StepEffect answers Body scope steps (.notEmpty :: steps)
  | lambdaVariable {name : String} {type : ModelType} (bound : scope.boundType? name = some type) :
      StepEffect answers Body scope steps (.lambdaVariable name type :: steps)
  | lambda {quantifier : Quantifier} {name : String} {member : ModelType} {body : Expression}
      {collection : Resource} {earlier : List Resource} (before : steps = collection :: earlier)
      (isCollection : collection.isCollection = true) (isMember : collection.type? = some member)
      (inside : Body (scope.bind name member) body)
      (condition : (requireCondition quantifier.name body).Gives answers ()) :
      StepEffect answers Body scope steps (.lambda quantifier name body :: steps)

section StepEffect

variable {answers : Answers} {Body : Scope → Expression → Prop} {scope : Scope}
variable {source : String} {ts rest : List Token}

theorem ofExpression_of_gives_propertyMember {p : MemberPosition} {name : String} {r : Resource}
    (h : (propertyMember scope p name).Gives answers r) : r.ofExpression = false := by
  unfold propertyMember at h
  simp only [Resolution.gives_bind, Resolution.gives_require] at h
  obtain ⟨type, -, owner, -, h⟩ := h
  split at h
  · simp at h
  · simp only [Resolution.gives_bind, Resolution.gives_require] at h
    obtain ⟨_, hproperty, rfl⟩ := h
    obtain ⟨_, _, rfl, -⟩ | ⟨_, _, rfl, -⟩ := gives_propertyResource hproperty <;> rfl

theorem ofExpression_of_reads_entitySetResource {aliases : AliasTable} {set : EntitySet}
    {r : Resource} (h : Reads answers (entitySetResource aliases set) source ts r rest) :
    r.ofExpression = false :=
  Resource.ofExpression_of_startsPath (reads_entitySetResource_starts h).1

theorem ofExpression_of_reads_rootResource {aliases : AliasTable} {r : Resource}
    (h : Reads answers (rootResource aliases) source ts r rest) : r.ofExpression = false := by
  obtain ⟨slash, name, us, container, -, -, -, -, ⟨set, -, hset⟩ | ⟨-, single, -, hsingle, -⟩⟩ :=
    reads_rootResource_iff.mp h
  · exact ofExpression_of_reads_entitySetResource hset
  · unfold singletonResource at hsingle
    simp only [Resolution.gives_bind, Resolution.gives_pure] at hsingle
    obtain ⟨type, -, rfl⟩ := hsingle
    rfl

theorem ofExpression_of_reads_joinedResource {aliases : AliasTable} {name : String} {r : Resource}
    (h : Reads answers (joinedResource aliases name) source ts r rest) :
    r.ofExpression = false := by
  obtain ⟨container, set, -, -, hset⟩ := reads_joinedResource_iff.mp h
  exact ofExpression_of_reads_entitySetResource hset

/-- A cast narrows the last resource, or what is in front of the path. -/
theorem stepEffect_castMember {p p' : MemberPosition} {name : String} {type : ModelType}
    (h : (castMember scope p name type).Gives answers p') :
    StepEffect answers Body scope p.steps p'.steps := by
  unfold castMember at h
  split at h
  · next last earlier hsteps =>
    simp only [Resolution.gives_bind, Resolution.gives_ofSemantic, Resolution.gives_pure] at h
    obtain ⟨narrowed, hcast, rfl⟩ := h
    obtain ⟨rfl, htakes, -, -⟩ := cast_eq_ok hcast
    refine .narrowed hsteps ?_
    -- what takes a cast is declared in the model and stays of its kind
    cases last <;> first | rfl | cases htakes
  · next hsteps =>
    simp only [Resolution.gives_bind, Resolution.gives_require, Resolution.gives_ofSemantic,
      Resolution.gives_pure] at h
    obtain ⟨owner, -, position, hstart, rfl⟩ := h
    unfold Position.castStart at hstart
    split at hstart
    · cases hstart
    split at hstart
    · cases hstart
    · cases hstart
      exact .kept

/-- A collection that has been reached is the last step, so the type of its members is the type that
its casts give it. -/
theorem MemberPosition.last_of_isCollection (scope : Scope) {p : MemberPosition}
    (h : p.isCollection = true) :
    ∃ collection earlier, p.steps = collection :: earlier ∧ collection.isCollection = true ∧
      p.type? scope = collection.type? := by
  unfold isCollection at h
  unfold type?
  split at h
  · cases h
  · next only hsteps =>
    rw [hsteps]
    exact ⟨only, [], rfl, (Bool.and_eq_true_iff.mp h).1, rfl⟩
  · next last earlier _ hsteps =>
    rw [hsteps]
    exact ⟨last, earlier, rfl, h, rfl⟩

theorem MemberStep.effect {p p' : MemberPosition} (h : MemberStep answers Body scope p p') :
    StepEffect answers Body scope p.steps p'.steps := by
  cases h with
  | it start isIt => exact .it isIt
  | count => exact .resource rfl
  | lambdaVariable start bound => exact .lambdaVariable bound
  | property h => exact .resource (ofExpression_of_gives_propertyMember h)
  | narrow cast => exact stepEffect_castMember cast
  | root start h => exact .resource (ofExpression_of_reads_rootResource h)
  | joined start h => exact .resource (ofExpression_of_reads_joinedResource h)
  | function h =>
    obtain ⟨f, raw, arguments, returnType, -, -, rfl⟩ := memberFunction_cases h
    exact .resource rfl
  | notEmpty => exact .notEmpty
  | lambda collection isMember inside condition =>
    obtain ⟨last, earlier, hsteps, hcollection, htype⟩ :=
      MemberPosition.last_of_isCollection scope collection
    exact .lambda hsteps hcollection (htype.symm.trans isMember) inside condition

end StepEffect

/-! ### Literals -/

/-- The literals among the tokens have the property. -/
def LiteralsIn (IsLiteral : String → Prop) (ts : List Token) : Prop :=
  ∀ t ∈ ts, t.kind = .literal → IsLiteral t.text

section LiteralsIn

variable {IsLiteral : String → Prop} {ts us : List Token}

theorem LiteralsIn.behind (h : LiteralsIn IsLiteral ts) (hus : us <:+ ts) : LiteralsIn IsLiteral us :=
  fun t ht => h t (hus.subset ht)

theorem LiteralsIn.of_cons {t : Token} (h : LiteralsIn IsLiteral (t :: ts)) :
    LiteralsIn IsLiteral ts :=
  h.behind (List.suffix_cons t ts)

theorem LiteralsIn.of_any : LiteralsIn (fun _ => True) ts :=
  fun _ _ _ => trivial

end LiteralsIn

/-! ### What follows an operand -/

section Closes

variable {answers : Answers} {scope : Scope} {nested : OperandReader} {source : String}
variable {ts rest : List Token} {e : Expression}

/-- Whatever the reader accepts, no operator follows that it would have taken as well. -/
def Closes (answers : Answers) (nested : OperandReader) : Prop :=
  ∀ ⦃scope : Scope⦄ ⦃least : Nat⦄ ⦃source : String⦄ ⦃ts rest : List Token⦄ ⦃e : Expression⦄,
    Reads answers (nested scope least) source ts e rest → Closed least rest

theorem closed_operands {least : Nat}
    (h : Reads answers (operands scope nested least) source ts e rest) : Closed least rest := by
  obtain ⟨first, between, -, hloop⟩ := reads_operands.mp h
  have hend := (hloop.foldWhile_rule (fun _ _ => True) (fun _ _ _ _ _ _ _ _ _ => trivial) trivial).2
  exact fun t ht => Option.map_eq_none_iff.mp (hend t ht)

theorem closes_expressionWithin (answers : Answers) (limit room : Nat) :
    Closes answers (expressionWithin limit room) := by
  intro scope least source ts rest e h
  cases room with
  | zero => exact absurd h not_reads_expressionWithin_zero
  | succ room => exact closed_operands h

/-- What is read as an operand stands between parentheses, or binds as tight as a sign. -/
theorem OperandForm.group_or_tight (h : OperandForm answers scope nested source ts e rest) :
    (∃ opening us vs, ts = opening :: us ∧ Reads answers (nested scope 0) source us e vs) ∨
      unaryPrecedence ≤ e.precedence := by
  have hunit : unaryPrecedence ≤ unitPrecedence := Nat.le_succ _
  cases h with
  | group _ inside => exact .inl ⟨_, _, _, rfl, inside⟩
  | minus _ h | not _ _ h =>
    obtain ⟨operand, type, -, -, rfl⟩ := reads_unaryExpression.mp h
    exact .inr (Nat.le_refl _)
  | literal | enumeration | parameterAlias => exact .inr hunit
  | call _ _ h =>
    obtain ⟨-, -, -, -, -, -, -, -, rfl, -⟩ := reads_methodCall.mp h
    exact .inr hunit
  | path _ h => obtain ⟨_, _, rfl⟩ | ⟨_, _, rfl⟩ := reads_memberPath h <;> exact .inr hunit

end Closes

/-! ### Levels -/

/-- Whatever the reader accepts in a scope has the property there, if the literals do. -/
def OperandReader.Ensures (nested : OperandReader) (answers : Answers) (IsLiteral : String → Prop)
    (P : Scope → Expression → Prop) : Prop :=
  ∀ ⦃scope : Scope⦄ ⦃least : Nat⦄ ⦃source : String⦄ ⦃ts rest : List Token⦄ ⦃e : Expression⦄,
    LiteralsIn IsLiteral ts → Reads answers (nested scope least) source ts e rest → P scope e

/-- To the left of an operator stands what binds as tight as the operator, or what has been read one
level deeper, between parentheses. A result of `in` may stand there without either, since what is to
the right of `in` takes no operators that bind tighter. -/
def StandsLeft (Inner : Scope → Expression → Prop) (scope : Scope) (op : BinaryOperator)
    (left : Expression) : Prop :=
  op.precedence ≤ left.precedence ∨ left.isMembership = true ∨ Inner scope left

/-- What is read on one level has the property `Here`, if what is read one level deeper has the
property `Inner` and the literals are as `IsLiteral` says. The operand to the left of an operator is
read on the level of the operator; the items of a list and the bodies of quantifiers are not. -/
structure LevelRule (answers : Answers) (IsLiteral : String → Prop)
    (Inner Here : Scope → Expression → Prop) : Prop where
  group : ∀ scope e, Inner scope e → Here scope e
  literal : ∀ scope text, IsLiteral text → Here scope (literalExpression text)
  enumeration : ∀ scope type members, Here scope (.enumeration type members)
  parameterAlias : ∀ scope name, Here scope (.parameterAlias name)
  boundVariable : ∀ scope name type, scope.boundType? name = some type →
    Here scope (.boundVariable name type)
  unary : ∀ scope op operand type, op.resultType operand.type? = .ok type → Inner scope operand →
    Here scope (.unary op operand type)
  call : ∀ scope (m : Method) arguments, m.takes arguments.length = true →
    (∀ argument ∈ arguments, (∃ type, argument = .typeName type) ∨ Inner scope argument) →
    Here scope (.call m arguments)
  member : ∀ scope p, MemberTrail answers Inner scope p → Here scope (.member p.start p.path)
  binary : ∀ scope op left right type, op.resultType left.type? right.type? = .ok type →
    op ≠ .isIn → Here scope left → StandsLeft Inner scope op left → Inner scope right →
    Here scope (.binary op left right type)
  inAlias : ∀ scope left name type, BinaryOperator.isIn.resultType left.type? none = .ok type →
    Here scope left → StandsLeft Inner scope .isIn left →
    Here scope (.binary .isIn left (.parameterAlias name) type)
  inList : ∀ scope left items type, BinaryOperator.isIn.resultType left.type? none = .ok type →
    Here scope left → StandsLeft Inner scope .isIn left → (∀ item ∈ items, Inner scope item ∧
      ∃ compared, BinaryOperator.eq.resultType left.type? item.type? = .ok compared) →
    Here scope (.binary .isIn left (.list items) type)

section Level

variable {answers : Answers} {IsLiteral : String → Prop} {Inner Here : Scope → Expression → Prop}
variable {scope : Scope} {nested : OperandReader} {source : String} {ts rest : List Token}
variable {e : Expression}

theorem OperandReader.Ensures.memberStep (hnested : nested.Ensures answers IsLiteral Inner)
    {p p' : MemberPosition} {t : Token} (literals : LiteralsIn IsLiteral ts)
    (h : Reads answers (ODataRequest.memberStep scope nested p t) source ts p' rest) :
    MemberStep answers Inner scope p p' := by
  cases memberEffect h with
  | it start isIt => exact .it start isIt
  | count collection => exact .count collection
  | lambdaVariable start bound => exact .lambdaVariable start bound
  | property hproperty => exact .property hproperty
  | narrow cast known => exact .narrow cast known
  | root start hroot => exact .root start hroot
  | joined start hjoined isJoined => exact .joined start hjoined isJoined
  | function hfunction => exact .function hfunction
  | quantify collection h =>
    obtain ⟨opening, us, rfl, -, ⟨-, rfl, -⟩ | ⟨-, h⟩⟩ := reads_quantified_iff.mp h
    · exact .notEmpty collection
    · obtain ⟨name, colon, member, body, vs, closing, rfl, -, -, isMember, hbody, condition, -, rfl⟩ :=
        quantifiedBody_cases h
      have hinside := hnested literals.of_cons.of_cons.of_cons hbody
      exact .lambda collection isMember hinside condition

namespace LevelRule

variable (rule : LevelRule answers IsLiteral Inner Here) (balances : Balances answers nested)
variable (closes : Closes answers nested) (hnested : nested.Ensures answers IsLiteral Inner)
include rule hnested

theorem unaryExpression {op : UnaryOperator} (literals : LiteralsIn IsLiteral ts)
    (h : Reads answers (ODataRequest.unaryExpression scope nested op) source ts e rest) :
    Here scope e := by
  obtain ⟨operand, type, hoperand, htype, rfl⟩ := reads_unaryExpression.mp h
  exact rule.unary scope op operand type htype (hnested literals hoperand)

include balances

theorem memberPath {first : Token} (literals : LiteralsIn IsLiteral ts)
    (h : Reads answers (ODataRequest.memberPath scope nested first) source ts e rest) :
    Here scope e := by
  rcases memberPath_cases h with
    ⟨name, type, rfl, bound, -⟩ | ⟨start, between, final, hstart, hloop, rfl⟩
  · exact rule.boundVariable scope name type bound
  · refine rule.member scope final ?_
    -- what a step leaves is an end of the tokens, so its literals are among those there were
    refine (hloop.foldWhile_rule (fun p left => LiteralsIn IsLiteral left ∧
      MemberTrail answers Inner scope p) ?_
        ⟨literals.behind (balanced_memberStep balances hstart).isSuffix,
          .first (hnested.memberStep literals hstart)⟩).1.2
    rintro p t us reader p' left ⟨literals, before⟩ hselect hread
    obtain ⟨u, vs, -, rfl, hstep⟩ := memberPathStep_cases hselect hread
    have hvs := literals.of_cons.of_cons
    exact ⟨hvs.behind (balanced_memberStep balances hstep).isSuffix,
      .further before (hnested.memberStep hvs hstep)⟩

theorem methodCall {m : Method} (literals : LiteralsIn IsLiteral ts)
    (h : Reads answers (ODataRequest.methodCall scope nested m) source ts e rest) :
    Here scope e := by
  obtain ⟨opening, us, arguments, closing, rfl, -, -, takes, rfl, hitems⟩ := reads_methodCall.mp h
  refine rule.call scope m arguments takes fun argument hargument => ?_
  rcases hitems with ⟨rfl, -⟩ | ⟨-, hitems⟩
  · cases hargument
  · obtain ⟨us, vs, hus, hread⟩ := hitems.exists_isSuffix_of_mem
      (fun _ _ _ => balanced_methodArgument balances) hargument
    obtain ⟨t, type, -, -, rfl⟩ | hread := methodArgument_cases hread
    · exact .inl ⟨type, rfl⟩
    · exact .inr (hnested (literals.of_cons.behind hus) hread)

theorem operand (literals : LiteralsIn IsLiteral ts)
    (h : Reads answers (ODataRequest.operand scope nested) source ts e rest) : Here scope e := by
  cases operandForm h with
  | group _ inside => exact rule.group scope e (hnested literals.of_cons inside)
  | minus _ h | not _ _ h => exact rule.unaryExpression hnested literals.of_cons h
  | @literal t _ isLiteral => exact rule.literal scope t.text (literals t List.mem_cons_self isLiteral)
  | enumeration => exact rule.enumeration scope _ _
  | @parameterAlias t => exact rule.parameterAlias scope t.text
  | call _ _ h => exact rule.methodCall balances hnested literals.of_cons h
  | path _ h => exact rule.memberPath balances hnested literals.of_cons h

/-- To the right of `in` stands an alias or a list, whose items are comparable with what is looked
up. -/
theorem isIn {left right : Expression} {type : Option ModelType} (hleft : Here scope left)
    (stands : StandsLeft Inner scope .isIn left) (literals : LiteralsIn IsLiteral ts)
    (h : Reads answers (listOperand scope nested left) source ts right rest)
    (htype : BinaryOperator.isIn.resultType left.type? right.type? = .ok type) :
    Here scope (.binary .isIn left right type) := by
  rcases reads_listOperand.mp h with
    ⟨t, -, -, rfl⟩ | ⟨opening, us, items, closing, rfl, -, hitems, -, rfl⟩
  · exact rule.inAlias scope left t.text type htype hleft stands
  · refine rule.inList scope left items type htype hleft stands fun item hmem => ?_
    obtain ⟨us, vs, hus, hread⟩ := hitems.exists_isSuffix_of_mem
      (fun _ _ _ h => balances (reads_listItem.mp h).1) hmem
    obtain ⟨hread, hcompared⟩ := reads_listItem.mp hread
    exact ⟨hnested (literals.of_cons.behind hus) hread, hcompared⟩

theorem binaryExpression {left : Expression} {op : BinaryOperator} (hleft : Here scope left)
    (stands : StandsLeft Inner scope op left) (literals : LiteralsIn IsLiteral ts)
    (h : Reads answers (ODataRequest.binaryExpression scope nested left op) source ts e rest) :
    Here scope e := by
  obtain ⟨right, type, ⟨rfl, hright⟩ | ⟨hop, hright⟩, htype, rfl⟩ := reads_binaryExpression.mp h
  · exact rule.isIn balances hnested hleft stands literals hright htype
  · exact rule.binary scope op left right type htype hop hleft stands (hnested literals hright)

include closes

theorem operands {least : Nat} (literals : LiteralsIn IsLiteral ts)
    (h : Reads answers (ODataRequest.operands scope nested least) source ts e rest) :
    Here scope e := by
  obtain ⟨first, between, hfirst, hloop⟩ := reads_operands.mp h
  -- the operand so far has the property, the literals behind it are among those there were, and an
  -- operator that binds tighter follows only behind a group or a result of `in`
  let Inv (left : Expression) (behind : List Token) : Prop := LiteralsIn IsLiteral behind ∧
    Here scope left ∧ (Closed (left.precedence + 1) behind ∨ left.isMembership = true ∨
      Inner scope left)
  have hinit : Inv first between := by
    refine ⟨literals.behind (balanced_operand balances hfirst).isSuffix,
      rule.operand balances hnested literals hfirst, ?_⟩
    obtain ⟨opening, us, vs, rfl, inside⟩ | htight := (operandForm hfirst).group_or_tight
    · exact .inr (.inr (hnested literals.of_cons inside))
    · exact .inl ((closed_unary between).mono (Nat.le_succ_of_le htight))
  refine (hloop.foldWhile_rule Inv ?_ hinit).1.2.1
  rintro left t us reader e' behind ⟨literals, hleft, hplace⟩ hselect hread
  obtain ⟨op, hop, rfl⟩ := Option.map_eq_some_iff.mp hselect
  have stands : StandsLeft Inner scope op left := by
    refine hplace.imp_left fun hclosed => ?_
    by_contra hlt
    obtain ⟨hword, hname, -⟩ := operator?_eq_some.mp hop
    have hnone := hclosed t rfl
    rw [operator?_eq_some.mpr ⟨hword, hname, Nat.not_le.mp hlt⟩] at hnone
    cases hnone
  refine ⟨literals.of_cons.behind (balanced_binaryExpression balances hread).isSuffix,
    rule.binaryExpression balances hnested hleft stands literals.of_cons hread, ?_⟩
  obtain ⟨right, type, ⟨rfl, -⟩ | ⟨-, hright⟩, -, rfl⟩ := reads_binaryExpression.mp hread
  · exact .inr (.inl rfl)
  · exact .inl (closes hright)

end LevelRule

/-- What is read with so many levels left has the property of this level, since what is read with one
level less has the property of that one. With no level left nothing is read. -/
theorem LevelRule.expressionWithin {P : Nat → Scope → Expression → Prop}
    (rule : ∀ room, LevelRule answers IsLiteral (P room) (P (room + 1))) (limit room : Nat) :
    (ODataRequest.expressionWithin limit room).Ensures answers IsLiteral (P room) := by
  induction room with
  | zero =>
    intro scope least source ts rest e _ h
    exact absurd h not_reads_expressionWithin_zero
  | succ room ih =>
    intro scope least source ts rest e literals h
    exact (rule room).operands (balances_expressionWithin answers limit room)
      (closes_expressionWithin answers limit room) ih literals h

end Level

/-! ### Expressions -/

/-- A property of expressions in their scopes that each way to make an accepted expression keeps, if
the literals are as `IsLiteral` says. -/
structure ReadingRule (answers : Answers) (IsLiteral : String → Prop)
    (P : Scope → Expression → Prop) : Prop where
  literal : ∀ scope text, IsLiteral text → P scope (literalExpression text)
  enumeration : ∀ scope type members, P scope (.enumeration type members)
  parameterAlias : ∀ scope name, P scope (.parameterAlias name)
  typeName : ∀ scope type, P scope (.typeName type)
  boundVariable : ∀ scope name type, scope.boundType? name = some type →
    P scope (.boundVariable name type)
  unary : ∀ scope op operand type, op.resultType operand.type? = .ok type → P scope operand →
    P scope (.unary op operand type)
  call : ∀ scope (m : Method) arguments, m.takes arguments.length = true →
    (∀ argument ∈ arguments, P scope argument) → P scope (.call m arguments)
  list : ∀ scope items, (∀ item ∈ items, P scope item) → P scope (.list items)
  binary : ∀ scope op left right type, op.resultType left.type? right.type? = .ok type →
    P scope left → P scope right →
    (op = .isIn → ∀ items, right = .list items → ∀ item ∈ items,
      ∃ compared, BinaryOperator.eq.resultType left.type? item.type? = .ok compared) →
    P scope (.binary op left right type)
  member : ∀ scope p, MemberTrail answers P scope p → P scope (.member p.start p.path)

namespace ReadingRule

variable {answers : Answers} {IsLiteral : String → Prop} {P : Scope → Expression → Prop}
variable {scope : Scope} {source : String} {ts rest : List Token} {e : Expression}

/-- Such a property is carried from one level to the next. -/
theorem level (rule : ReadingRule answers IsLiteral P) : LevelRule answers IsLiteral P P where
  group := fun _ _ h => h
  literal := rule.literal
  enumeration := rule.enumeration
  parameterAlias := rule.parameterAlias
  boundVariable := rule.boundVariable
  unary := rule.unary
  call := by
    intro scope m arguments takes harguments
    refine rule.call scope m arguments takes fun argument hargument => ?_
    obtain ⟨type, rfl⟩ | h := harguments argument hargument
    · exact rule.typeName scope type
    · exact h
  member := rule.member
  binary := fun scope op left right type htype hop hleft _ hright =>
    rule.binary scope op left right type htype hleft hright fun h => absurd h hop
  inAlias := fun scope left name type htype hleft _ =>
    rule.binary scope .isIn left _ type htype hleft (rule.parameterAlias scope name) fun _ => nofun
  inList := by
    intro scope left items type htype hleft _ hitems
    have hlist := rule.list scope items fun item hitem => (hitems item hitem).1
    refine rule.binary scope .isIn left _ type htype hleft hlist ?_
    intro _ items' heq item hmem
    cases heq
    exact (hitems item hmem).2

/-- The property holds of every expression that is accepted in tokens with such literals. -/
theorem expression_of_literals (rule : ReadingRule answers IsLiteral P) {config : Config}
    (literals : LiteralsIn IsLiteral ts)
    (h : Reads answers (ODataRequest.expression config scope) source ts e rest) : P scope e :=
  LevelRule.expressionWithin (fun _ => rule.level) config.maxNesting config.maxNesting literals h

/-- The property holds of every expression that is accepted. -/
theorem expression (rule : ReadingRule answers (fun _ => True) P) {config : Config}
    (h : Reads answers (ODataRequest.expression config scope) source ts e rest) : P scope e :=
  rule.expression_of_literals .of_any h

end ReadingRule

end ODataRequest
