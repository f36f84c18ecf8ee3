import ODataRequest.Proofs.Expression.MemberPath
import ODataRequest.Proofs.Path.Resolved
import ODataRequest.Proofs.Search.Reader
import ODataRequest.Proofs.Token.Extends

/-!
# ODataRequest.Proofs.Request.Limits

Greater limits. A request that is read within some limits is read as the same one within greater
limits, and one that is refused for another reason than a limit is refused for the same reason
(`Request.read_greaterLimits`).

The nesting limit is used in three recursions: operands inside operands, expansions inside expansions,
and groups inside groups of a search. In each of them the levels that are left are the argument of
the recursion, so the induction is on these levels, and one level hands the relation on to the reader
of the next one. The limit itself occurs only in the error that is reported when no level is left.
-/

namespace ODataRequest

/-! ### Expressions -/

/-- What is read inside is extended, wherever it stands. -/
def OperandReader.Extends (nested nested' : OperandReader) : Prop :=
  ∀ scope least, TokenReader.Extends (nested scope least) (nested' scope least)

namespace OperandReader.Extends

variable {nested nested' : OperandReader}

theorem quantifiedBody (h : nested.Extends nested') (scope : Scope) (quantifier : Quantifier)
    (owner : Option ModelType) : TokenReader.Extends (quantifiedBody scope nested quantifier owner)
      (quantifiedBody scope nested' quantifier owner) := by
  unfold ODataRequest.quantifiedBody
  refine .after _ fun name => ?_
  dsimp only
  split
  · exact .refl _
  · refine .after _ fun _ => .after _ fun type => ?_
    exact (h _ _).andThen _

theorem quantified (h : nested.Extends nested') (scope : Scope) (quantifier : Quantifier)
    (owner : Option ModelType) : TokenReader.Extends (quantified scope nested quantifier owner)
      (quantified scope nested' quantifier owner) := by
  have hbody := h.quantifiedBody scope quantifier owner
  unfold ODataRequest.quantified
  refine .after _ fun _ => ?_
  split
  · refine .after _ fun alone => ?_
    split
    · exact .refl _
    · exact hbody
  · exact hbody

theorem memberStep (h : nested.Extends nested') (scope : Scope) (p : MemberPosition) (t : Token) :
    TokenReader.Extends (memberStep scope nested p t) (memberStep scope nested' p t) := by
  unfold ODataRequest.memberStep
  split
  · exact .refl _
  · split
    · refine .after _ fun called => ?_
      split
      · split
        · exact (h.quantified scope _ _).andThen _
        · exact .refl _
      · exact .refl _
    · exact .refl _
  · exact .refl _

theorem memberPath (h : nested.Extends nested') (scope : Scope) (first : Token) :
    TokenReader.Extends (memberPath scope nested first) (memberPath scope nested' first) := by
  unfold ODataRequest.memberPath
  refine .after _ fun followed => ?_
  dsimp only
  split
  · exact .refl _
  · refine (h.memberStep scope _ _).bind fun p => ?_
    refine TokenReader.Refines.andThen (.foldWhile (fun p t => ?_) p) _
    split
    · exact .some (.after _ fun next => h.memberStep scope p next)
    · exact .none

theorem methodArgument (h : nested.Extends nested') (scope : Scope) (m : Method) :
    TokenReader.Extends (methodArgument scope nested m) (methodArgument scope nested' m) := by
  unfold ODataRequest.methodArgument
  refine .after _ fun t => .after _ fun follows => ?_
  dsimp only
  split
  · exact .refl _
  · exact h scope 0

theorem methodCall (h : nested.Extends nested') (scope : Scope) (m : Method) :
    TokenReader.Extends (methodCall scope nested m) (methodCall scope nested' m) := by
  unfold ODataRequest.methodCall
  refine .after _ fun _ => .after _ fun empty => ?_
  split
  · exact .refl _
  · exact (TokenReader.Refines.commaSeparated (h.methodArgument scope m)).andThen _

theorem unaryExpression (h : nested.Extends nested') (scope : Scope) (op : UnaryOperator) :
    TokenReader.Extends (unaryExpression scope nested op) (unaryExpression scope nested' op) :=
  (h scope _).andThen _

theorem operandFrom (h : nested.Extends nested') (scope : Scope) (t follows : Token) :
    TokenReader.Extends (operandFrom scope nested t follows) (operandFrom scope nested' t follows) := by
  unfold ODataRequest.operandFrom
  dsimp only
  -- only a group, a sign, a word and `$` lead to another operand
  split
  case h_1 => exact (h scope 0).andThen _
  case h_2 => exact h.unaryExpression scope _
  case h_6 =>
    split
    · exact h.unaryExpression scope _
    · split
      · exact h.methodCall scope _
      · exact h.memberPath scope t
  case h_7 => exact h.memberPath scope t
  all_goals exact .refl _

theorem operand (h : nested.Extends nested') (scope : Scope) :
    TokenReader.Extends (operand scope nested) (operand scope nested') :=
  .after _ fun t => .after _ fun follows => h.operandFrom scope t follows

theorem listOperand (h : nested.Extends nested') (scope : Scope) (left : Expression) :
    TokenReader.Extends (listOperand scope nested left) (listOperand scope nested' left) := by
  unfold ODataRequest.listOperand
  refine .after _ fun t => ?_
  have hitem : TokenReader.Extends (listItem scope nested left) (listItem scope nested' left) :=
    (h scope 0).andThen _
  split
  · exact .refl _
  · exact hitem.commaSeparated.andThen _
  · exact .refl _

theorem binaryExpression (h : nested.Extends nested') (scope : Scope) (left : Expression)
    (op : BinaryOperator) : TokenReader.Extends (binaryExpression scope nested left op)
      (binaryExpression scope nested' left op) := by
  unfold ODataRequest.binaryExpression
  split
  · exact (h.listOperand scope left).andThen _
  · exact (h scope _).andThen _

theorem operands (h : nested.Extends nested') (scope : Scope) (least : Nat) :
    TokenReader.Extends (operands scope nested least) (operands scope nested' least) := by
  refine (h.operand scope).bind fun first => .foldWhile (fun left t => ?_) first
  cases operator? least t with
  | none => exact .none
  | some op => exact .some (h.binaryExpression scope left op)

end OperandReader.Extends

/-- With more levels left, expressions are read as before, whatever the limits are. -/
theorem expressionWithin_extends (limit limit' : Nat) {room room' : Nat} (hle : room ≤ room') :
    (expressionWithin limit room).Extends (expressionWithin limit' room') := by
  -- the reader without any level left fails for the limit, whatever the other one does
  induction room generalizing room' with
  | zero =>
    intro scope least source tokens
    exact .further (.nesting _) _
  | succ room ih =>
    obtain ⟨room', rfl⟩ : ∃ n, room' = n + 1 := ⟨room' - 1, by omega⟩
    intro scope least
    exact (ih (Nat.le_of_succ_le_succ hle)).operands scope least

/-! ### Options -/

/-- The second configuration has greater limits, and reads the names of options as the first one. -/
structure Config.Within (config config' : Config) : Prop where
  nesting : config.maxNesting ≤ config'.maxNesting
  levels : config.maxLevels ≤ config'.maxLevels
  ignoringCase : config'.ignoringCase = config.ignoringCase
  dollarOptional : config'.dollarOptional = config.dollarOptional

/-- A search is read as before, unless it nests too deep for the smaller limit. -/
theorem SearchExpression.parse_of_le {limit more : Nat} (hle : limit ≤ more) (text : String) :
    parse limit text = parse more text ∨
      parse limit text = .error (.tooDeeplyNested (toString (limit + 1))) := by
  rw [parse_eq, parse_eq]
  cases SearchToken.tokens? text.toList with
  | none => exact .inl rfl
  | some tokens =>
    dsimp only
    have hunit : Extends (.tooDeeplyNested (toString (limit + 1))) (unit text limit limit)
        (unit text more more) := extends_unit limit more hle
    rcases hunit.disjunction tokens with heq | heq
    · exact .inl (by rw [heq])
    · exact .inr (by rw [heq])

/-- A number of levels is read as before, unless it is refused. -/
theorem Levels.parse_of_le {limit more : Nat} (hle : limit ≤ more) (text : String) :
    parse limit text = parse more text ∨
      parse limit text = .error (OptionKind.levels.wrongValue text) := by
  unfold parse
  by_cases hmax : text = "max"
  · exact .inl (by rw [if_pos hmax, if_pos hmax])
  rw [if_neg hmax, if_neg hmax]
  cases hread : boundedNumber? (min limit (Nat.pow 2 32 - 1)) text with
  | none => exact .inr rfl
  | some n =>
    obtain ⟨hdigits, hn⟩ := Option.filter_eq_some_iff.mp hread
    have hn : n ≤ min limit (Nat.pow 2 32 - 1) := of_decide_eq_true hn
    have hmore : boundedNumber? (min more (Nat.pow 2 32 - 1)) text = some n := by
      refine Option.filter_eq_some_iff.mpr ⟨hdigits, decide_eq_true ?_⟩
      exact Nat.le_min.mpr ⟨Nat.le_trans (Nat.le_min.mp hn).1 hle, (Nat.le_min.mp hn).2⟩
    exact .inl (by rw [hmore])

section Options

open Resolution

variable {config config' : Config} (within : config.Within config')
include within

theorem optionKind?_of_within (name : String) : optionKind? config' name = optionKind? config name := by
  unfold optionKind?
  rw [within.ignoringCase, within.dollarOptional]

theorem expression_extends (scope : Scope) :
    (expression config scope).Extends (expression config' scope) :=
  expressionWithin_extends _ _ within.nesting scope 0

theorem orderItem_extends (scope : Scope) :
    (orderItem config scope).Extends (orderItem config' scope) :=
  (expression_extends within scope).andThen _

/-- What is read inside an expanded item is extended. -/
theorem expandItems_extends {nested nested' : OptionReader}
    (h : ∀ scope kind text, Extends (nested scope kind text) (nested' scope kind text))
    (scope : Scope) (text : String) :
    Extends (expandItems config nested scope text) (expandItems config' nested' scope text) := by
  refine .mapM (fun item => .after _ fun ⟨head, options⟩ => .after _ fun ⟨target, type⟩ => ?_) _
  refine Refines.andThen (.foldlM (fun earlier given => ?_) _ _) _
  unfold itemOption
  split
  · exact .refl _
  · dsimp only
    rw [optionKind?_of_within within]
    refine .after _ fun kind? => ?_
    -- a text is read only for an option that may stand in an item and is given once
    split
    · exact .refl _
    · split
      · exact .refl _
      · split
        · exact .refl _
        · exact (h _ _ _).andThen _

theorem optionValueWith_extends {items items' : Scope → String → Resolution (List ExpandItem)}
    (h : ∀ scope text, Extends (items scope text) (items' scope text)) (scope : Scope)
    (kind : OptionKind) (text : String) :
    Extends (optionValueWith config items scope kind text)
      (optionValueWith config' items' scope kind text) := by
  cases kind with
  | filter =>
    have hcondition : Extends (filterCondition config scope text) (filterCondition config' scope text) :=
      ((expression_extends within scope).readAll text).andThen _
    exact hcondition.andThen _
  | orderBy =>
    have hitems : Extends (orderItems config scope text) (orderItems config' scope text) :=
      .mapM (fun item => (orderItem_extends within scope).readAll item) _
    exact hitems.andThen _
  | expand => exact (h scope text).andThen _
  | search =>
    refine Refines.andThen (.ofGrammar ?_) _
    exact (SearchExpression.parse_of_le within.nesting text).imp_right fun h => ⟨_, h, .nesting _⟩
  | levels =>
    refine Refines.andThen (.ofGrammar ?_) _
    exact (Levels.parse_of_le within.levels text).imp_right fun h => ⟨_, h, .levels _⟩
  | select | top | skip | count | format | id | skipToken => exact .refl _

/-- With more levels of expansion left, options are read as before. -/
theorem optionValue_extends {room room' : Nat} (hle : room ≤ room') (scope : Scope)
    (kind : OptionKind) (text : String) :
    Extends (optionValue config room scope kind text) (optionValue config' room' scope kind text) := by
  induction room generalizing room' scope kind text with
  | zero =>
    -- here only an expansion fails for the limit; the other options need no level
    cases room' with
    | zero => exact optionValueWith_extends within (fun _ _ => .refl _) scope kind text
    | succ room' =>
      exact optionValueWith_extends within (fun _ _ => .further (.nesting _) _) scope kind text
  | succ room ih =>
    obtain ⟨room', rfl⟩ : ∃ n, room' = n + 1 := ⟨room' - 1, by omega⟩
    refine optionValueWith_extends within (fun scope text => ?_) scope kind text
    exact expandItems_extends within (ih (Nat.le_of_succ_le_succ hle)) scope text

end Options

/-! ### Requests -/

theorem QueryParts.ofQuery_of_within {config config' : Config} (within : config.Within config')
    (query : String) : ofQuery config' query = ofQuery config query := by
  have hadd : addPair config' = addPair config := by
    funext q pair
    unfold addPair add
    simp only [optionKind?_of_within within]
  unfold ofQuery
  rw [hadd]

theorem Request.read_extends {config config' : Config} (within : config.Within config')
    (path : String) (query fragment : Option String) :
    (Request.read config path query fragment).Extends (Request.read config' path query fragment) := by
  unfold Request.read
  rw [QueryParts.ofQuery_of_within within]
  refine .after _ fun parts => .after _ fun segments => .after _ fun address => ?_
  refine Resolution.Refines.andThen (.mapM (fun option => ?_) _) _
  exact (optionValue_extends within within.nesting _ _ _).andThen _

/-- Greater limits change no result but the failure of a limit: what is accepted is accepted with the
same result, and what is refused for any other reason is refused for the same one. The directory has
been asked the same. -/
theorem Request.read_greaterLimits {config config' : Config} (within : config.Within config')
    (path : String) (query fragment : Option String) (d : Directory) :
    (∀ r after, (Request.read config path query fragment).runOn d = (.ok r, after) →
      (Request.read config' path query fragment).runOn d = (.ok r, after)) ∧
    (∀ e after, (Request.read config path query fragment).runOn d = (.error e, after) →
      ¬e.IsLimit → (Request.read config' path query fragment).runOn d = (.error e, after)) := by
  have hruns := (read_extends within path query fragment).runOn d
  constructor
  · intro r after h
    rcases hruns with hsame | ⟨e, hlimit, -⟩
    · exact hsame.trans h
    · rw [h] at hlimit
      cases hlimit
  · intro e after h hnot
    rcases hruns with hsame | ⟨e', hlimit, isLimit⟩
    · exact hsame.trans h
    · rw [h] at hlimit
      cases hlimit
      exact absurd isLimit hnot

section Nested

/-- Three levels of nesting and two levels of a recursive expansion. -/
private def narrowLimits : Config :=
  { Config.standard with maxNesting := 3, maxLevels := 2 }

/-- A comparison in a condition on tracks, which needs all the levels of nesting, a group in a search, and
an expansion with as many levels as allowed. -/
private def deepQuery : String :=
  "$filter=Tracks/any(t:t/Number gt 2)&$search=live OR NOT (late)&$expand=Tracks($levels=2)"

/-- What a request is refused with. -/
private def refusal? (answer : Except RequestError Request) : Option RequestError :=
  match answer with
  | .ok _ => none
  | .error e => some e

/-- A request that uses all of the levels, one that asks for more of them, and one that names a property
that albums do not have. -/
theorem Request.read_greaterLimits_albums :
    narrowLimits.Within .standard ∧
    (∃ r after, (read narrowLimits "Albums" (some deepQuery) none).runOn (.ofSource music) =
      (.ok r, after) ∧ (read .standard "Albums" (some deepQuery) none).runOn (.ofSource music) =
        (.ok r, after)) ∧
    refusal? ((read narrowLimits "Albums" (some "$expand=Tracks($levels=3)") none).runOn
      (.ofSource music)).1 = some (.grammar (.wrongOptionValue "$levels" "3")) ∧
    refusal? ((read .standard "Albums" (some "$filter=Artist eq 'Anon'") none).runOn
      (.ofSource music)).1 = some (.semantic (.expressionPropertyNotInType "Music.Album" "Artist")) := by
  have within : narrowLimits.Within .standard := ⟨by decide, by decide, rfl, rfl⟩
  refine ⟨within, ?_, by decide +kernel, ?_⟩
  · have haccepted : refusal? ((read narrowLimits "Albums" (some deepQuery) none).runOn
        (.ofSource music)).1 = none := by
      decide +kernel
    rcases hread : (read narrowLimits "Albums" (some deepQuery) none).runOn (.ofSource music) with
      ⟨e | r, after⟩ <;> rw [hread] at haccepted
    · cases haccepted
    · exact ⟨r, after, rfl, (read_greaterLimits within _ _ _ _).1 r after hread⟩
  · have hrefused : refusal? ((read narrowLimits "Albums" (some "$filter=Artist eq 'Anon'") none).runOn
        (.ofSource music)).1 =
          some (.semantic (.expressionPropertyNotInType "Music.Album" "Artist")) := by
      decide +kernel
    rcases hread : (read narrowLimits "Albums" (some "$filter=Artist eq 'Anon'") none).runOn
      (.ofSource music) with ⟨e | r, after⟩ <;> rw [hread] at hrefused <;> cases hrefused
    rw [(read_greaterLimits within _ _ _ _).2 _ after hread nofun]
    rfl

end Nested

end ODataRequest
