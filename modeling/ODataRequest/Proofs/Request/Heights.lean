import ODataRequest.Proofs.Expression.Height
import ODataRequest.Proofs.Expression.RoundTrip
import ODataRequest.Proofs.Path.Resolved
import ODataRequest.Proofs.Query.OptionNames
import ODataRequest.Proofs.Request.Expressions
import ODataRequest.Proofs.Request.OptionOrder

/-!
# ODataRequest.Proofs.Request.Heights

How high the trees in an accepted request are. The limit of nesting bounds the turns of every filter
and of every expression to order by, however long their texts are, and so it bounds their heights as
far as the chains of left operands are bounded (`Request.heights_bounded`). It does not bound these
chains: with two levels a filter is accepted that is a chain of any length (`Request.read_andChain`).
-/

namespace ODataRequest

variable {answers : Answers} {config : Config}

namespace Request

/-- Whatever directory a request is read on, in whatever state: an expression in its options, at the
top or in an expansion, has at most twice as many turns as the limit of nesting has levels. If at most
`k` left operands stand below each other without parentheses, it is at most `k + 1` times as high. -/
theorem heights_bounded (config : Config) (d : Directory) (path : String)
    (query fragment : Option String) (r : Request)
    (h : ((read config path query fragment).runOn d).1 = .ok r) :
    ∀ o, SystemOption.Within r.options o → ∀ e ∈ o.value.expressions,
      e.turns ≤ 2 * config.maxNesting ∧
        ∀ k, (∀ n ∈ e.nodes, n.leftChain ≤ k) → e.height ≤ 2 * config.maxNesting * (k + 1) := by
  intro o ho e he
  obtain ⟨scope, -, source, ts, rest, -, hread⟩ :=
    (read_expressions (Resolution.gives_of_runOn h) o ho).inTexts e he
  have hturns := turns_le hread
  refine ⟨hturns, fun k hchains => ?_⟩
  exact Nat.le_trans (Expression.height_le hchains) (Nat.mul_le_mul_right (k + 1) hturns)

/-- The turns and the heights of the expressions that a request is accepted with. -/
def heights (answer : Except RequestError Request) : List (Nat × Nat) :=
  match answer with
  | .ok r => r.options.flatMap fun o => o.value.expressions.map fun e => (e.turns, e.height)
  | .error _ => []

/-- Albums with an early track. The condition on the tracks is a chain whose first operand stands
between parentheses. -/
def earlyTracks : String :=
  "$filter=Tracks/any(t:(t/Number lt 3 or false) and true and true)"

/-- Four levels are enough for this filter, whose tree is two nodes higher than it has turns. -/
theorem heights_bounded_earlyTracks :
    ∃ r, ((read (Config.standard.nestingUpTo 4) "Albums" (some earlyTracks) none).runOn
        (.ofSource music)).1 = .ok r ∧
      heights (.ok r) = [(4, 6)] ∧
      ∀ o, SystemOption.Within r.options o → ∀ e ∈ o.value.expressions,
        e.turns ≤ 8 ∧ ∀ k, (∀ n ∈ e.nodes, n.leftChain ≤ k) → e.height ≤ 8 * (k + 1) := by
  have hheights : heights ((read (Config.standard.nestingUpTo 4) "Albums" (some earlyTracks)
      none).runOn (.ofSource music)).1 = [(4, 6)] := by
    decide +kernel
  cases hread : ((read (Config.standard.nestingUpTo 4) "Albums" (some earlyTracks) none).runOn
      (.ofSource music)).1 with
  | error e =>
    rw [hread] at hheights
    cases hheights
  | ok r =>
    rw [hread] at hheights
    exact ⟨r, rfl, hheights, heights_bounded (Config.standard.nestingUpTo 4) (.ofSource music) _ _ _ r
      hread⟩

end Request

/-! ### Filters of any height -/

/-- A request without a query is accepted with a filter as well. -/
theorem Request.gives_filtered {path text : String} {fragment : Option String} {r : Request}
    {e : Expression} (h : (read config path none fragment).Gives answers r)
    (hamp : '&' ∉ text.toList) (hpercent : '%' ∉ text.toList)
    (hfilter : (filterCondition config (r.address.scope r.aliases) text).Gives answers e) :
    (read config path (some (OptionKind.filter.name ++ "=" ++ text)) fragment).Gives answers
      { r with options := [⟨text, .filter e⟩] } := by
  obtain ⟨items, segments, hitems, -, hsegments, haddress, hoptions, hid, hfragment, hcustom,
    haliases⟩ := gives_read.mp h
  -- without a query there are no items
  cases hitems
  have hnone : r.options = [] := List.forall₂_nil_left_iff.mp hoptions
  have hquery : (OptionKind.filter.name ++ "=" ++ text).toList =
      OptionKind.filter.name.toList ++ '=' :: text.toList := by
    simp
  have hpairs : QueryParts.pairsOf (OptionKind.filter.name ++ "=" ++ text) =
      [OptionKind.filter.name.toList ++ '=' :: text.toList] := by
    have hone : '&' ∉ OptionKind.filter.name.toList ++ '=' :: text.toList := by
      rw [List.mem_append, List.mem_cons]
      exact fun h => h.elim (by decide) fun h => h.elim (by decide) hamp
    rw [QueryParts.pairsOf, hquery, Text.pieces_of_not_mem hone]
    rfl
  have hvalue : (optionValue config config.maxNesting (r.address.scope r.aliases) .filter text).Gives
      answers (.filter e) := by
    cases config.maxNesting <;> exact Resolution.gives_bind.mpr ⟨e, hfilter, .done _⟩
  refine gives_read.mpr ⟨[.system .filter text], segments, ?_, ?_, hsegments, haddress,
    .cons (gives_systemOption.mpr ⟨rfl, rfl, hvalue⟩) .nil, ?_, hfragment, hcustom, haliases⟩
  · have hitem : QueryItem.ofPair config (OptionKind.filter.name.toList ++ '=' :: text.toList) =
        .ok (.system .filter text) := by
      rw [ofPair_name (by decide) hpercent, String.ofList_toList]
    rw [Option.getD_some, hpairs]
    exact .cons hitem .nil
  · exact ⟨List.nodup_nil, List.nodup_singleton _⟩
  · rw [← hid, hnone]
    exact requireId_congr rfl

namespace Expression

/-- `true` with the operator `and` and another `true` behind it so many times. -/
def andChain : Nat → Expression
  | 0 => literalExpression "true"
  | n + 1 => .binary .and (andChain n) (literalExpression "true") (some booleanType)

theorem height_andChain (n : Nat) : (andChain n).height = n + 1 := by
  induction n with
  | zero => rfl
  | succ n ih =>
    have hone : (literalExpression "true").height = 1 := rfl
    rw [andChain, height_binary, ih, hone]
    omega

theorem type?_andChain (n : Nat) : (andChain n).type? = some booleanType := by
  cases n with
  | zero => rfl
  | succ n => rfl

/-- A chain binds tight enough to stand to the left of one more operator. -/
theorem precedence_le_andChain (n : Nat) :
    BinaryOperator.and.precedence ≤ (andChain n).precedence := by
  cases n with
  | zero => decide
  | succ n => exact Nat.le_refl _

theorem text_andChain (n : Nat) : (andChain (n + 1)).text = (andChain n).text ++ " and true" := by
  have htext : (andChain (n + 1)).text =
      grouped BinaryOperator.and.precedence (andChain n).precedence (andChain n).text ++ " " ++
        "and" ++ " " ++ "true" := rfl
  rw [htext, grouped, if_neg (Nat.not_lt.mpr (precedence_le_andChain n))]
  simp [String.append_assoc]

theorem levels_andChain (n : Nat) : (andChain n).levels ≤ 2 := by
  induction n with
  | zero => decide
  | succ n ih =>
    have hleft : groupedLevels BinaryOperator.and.precedence (andChain n).precedence
        (andChain n).levels = (andChain n).levels :=
      if_neg (Nat.not_lt.mpr (precedence_le_andChain n))
    rw [andChain, levels, hleft]
    exact Nat.max_le.mpr ⟨ih, by decide⟩

theorem formed_andChain (n : Nat) : (andChain n).Formed := by
  have hword : "true".toList = 't' :: ['r', 'u', 'e'] := rfl
  have htrue : (literalExpression "true").Formed :=
    .literal (Word.stands_of_lexeme? hword (by decide) (by decide +kernel))
  have htype : (literalExpression "true").type? = some booleanType := type?_andChain 0
  induction n with
  | zero => exact htrue
  | succ n ih =>
    refine .binary (by decide) ih htrue ?_
    rw [type?_andChain, htype]
    rfl

/-- The text of a chain stands in a query as it is. -/
theorem plain_andChain (n : Nat) :
    '&' ∉ (andChain n).text.toList ∧ '%' ∉ (andChain n).text.toList := by
  induction n with
  | zero => decide
  | succ n ih =>
    rw [text_andChain, String.toList_append, List.mem_append, List.mem_append]
    exact ⟨fun h => h.elim ih.1 (by decide), fun h => h.elim ih.2 (by decide)⟩

end Expression

open Expression

/-- The limit of the chains: what stands to the right of an operator is on the second level. -/
def twoLevels : Config := Config.standard.nestingUpTo 2

/-- A chain is accepted as a filter within two levels. -/
theorem gives_filterCondition_andChain {scope : Scope} (n : Nat) :
    (filterCondition twoLevels scope (andChain n).text).Gives answers (andChain n) := by
  unfold filterCondition
  have hread : (TokenReader.readAll (expression twoLevels scope) (andChain n).text).Gives answers
      (andChain n) := (formed_andChain n).gives_text (levels_andChain n)
  have hcondition : (requireCondition OptionKind.filter.name (andChain n)).Gives answers () := by
    unfold requireCondition
    rw [type?_andChain]
    exact .done _
  exact Resolution.gives_bind.mpr ⟨_, hread, Resolution.gives_bind.mpr ⟨_, hcondition, .done _⟩⟩

/-- Two levels are enough for filters of any height. -/
theorem Request.read_andChain (n : Nat) : ∃ r,
    ((read twoLevels "Albums" (some ("$filter=" ++ (andChain n).text)) none).runOn
      (.ofSource music)).1 = .ok r ∧ r.options = [⟨(andChain n).text, .filter (andChain n)⟩] := by
  have names : music.WellNamed := ⟨by decide, by decide⟩
  have hplain : ((read twoLevels "Albums" none none).runOn (.ofSource music)).1.isOk = true := by
    decide +kernel
  cases hread : ((read twoLevels "Albums" none none).runOn (.ofSource music)).1 with
  | error e =>
    rw [hread] at hplain
    cases hplain
  | ok r =>
    have hgives := gives_filtered (Resolution.gives_answers_of_runOn names (.ofSource music) hread)
      (plain_andChain n).1 (plain_andChain n).2 (gives_filterCondition_andChain n)
    exact ⟨_, Resolution.runOn_of_gives_answers names hgives (.ofSource music), rfl⟩

/-- No function of the limit bounds the heights of the filters that are accepted under it. -/
theorem Request.heights_unbounded :
    ¬∃ bound : Nat → Nat, ∀ (config : Config) (d : Directory) (path : String)
      (query fragment : Option String) (r : Request),
        ((read config path query fragment).runOn d).1 = .ok r →
          ∀ o ∈ r.options, ∀ e, o.value = .filter e → e.height ≤ bound config.maxNesting := by
  rintro ⟨bound, h⟩
  obtain ⟨r, hread, hoptions⟩ := read_andChain (bound 2)
  have hmem : ⟨(andChain (bound 2)).text, .filter (andChain (bound 2))⟩ ∈ r.options := by
    rw [hoptions]
    exact List.mem_singleton_self _
  have hle := h twoLevels (.ofSource music) _ _ none r hread _ hmem _ rfl
  rw [height_andChain] at hle
  exact absurd hle (Nat.not_succ_le_self (bound 2))

end ODataRequest
