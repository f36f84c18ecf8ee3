import ODataRequest.Proofs.Expression.WellTyped
import ODataRequest.Proofs.Path.Resolved
import ODataRequest.Proofs.Request.Expressions

/-!
# ODataRequest.Proofs.Request.WellTyped

The expressions of an accepted request are well typed (`Request.read_wellTyped`), wherever they
stand: they have all been read by the reader of expressions (`Request.read_expressions`), which
accepts nothing else.
-/

namespace ODataRequest

variable {answers : Answers} {config : Config}

theorem Expression.IsRead.wellTyped {e : Expression} (h : e.IsRead answers config) :
    e.WellTyped := by
  obtain ⟨_, _, _, _, -, hread⟩ := h
  exact wellTyped_expression hread

namespace Request

/-- Whatever directory a request is read on, in whatever state: every expression in it is well typed
at each of its nodes, at the top or in an expansion, and every filter is a condition. -/
theorem read_wellTyped {path : String} {query fragment : Option String} {d : Directory}
    {r : Request} (h : ((read config path query fragment).runOn d).1 = .ok r) :
    ∀ o, SystemOption.Within r.options o →
      (∀ condition, o.value = .filter condition →
        condition.IsCondition ∧ ∀ n ∈ condition.nodes, n.Fits) ∧
      ∀ items, o.value = .orderBy items → ∀ item ∈ items, ∀ n ∈ item.expression.nodes, n.Fits := by
  have hread := read_expressions (Resolution.gives_of_runOn h)
  intro o ho
  refine ⟨fun condition hcondition => ⟨?_, ?_⟩, fun items hitems item hitem => ?_⟩
  · exact isCondition_of_requireCondition ((hread o ho).condition condition hcondition)
  · have hmem : condition ∈ o.value.expressions := by simp [hcondition, OptionValue.expressions]
    exact ((hread o ho).expressions condition hmem).wellTyped
  · have hmem : item.expression ∈ o.value.expressions := by
      rw [hitems]
      exact List.mem_map_of_mem hitem
    exact ((hread o ho).expressions item.expression hmem).wellTyped

/-- Albums with a late track, by the length of their titles, and their tracks but for two. -/
def lateTracks : String :=
  "$filter=Tracks/any(t:t/Number add 1 gt 9 and not(t/Number in (7,8)))&" ++
    "$orderby=length(Title) desc&$expand=Tracks($filter=not (Number in (2,3)))"

/-- The kinds of the options that a request is accepted with. -/
def acceptedKinds (answer : Except RequestError Request) : List OptionKind :=
  match answer with
  | .ok r => r.options.map SystemOption.kind
  | .error _ => []

/-- A quantifier, a list, arithmetic and a method, at the top and in an expansion. -/
theorem read_wellTyped_lateTracks :
    ∃ r, ((read .standard "Albums" (some lateTracks) none).runOn (.ofSource music)).1 = .ok r ∧
      r.options.map SystemOption.kind = [.filter, .orderBy, .expand] ∧
      ∀ o, SystemOption.Within r.options o →
        (∀ condition, o.value = .filter condition →
          condition.IsCondition ∧ ∀ n ∈ condition.nodes, n.Fits) ∧
        ∀ items, o.value = .orderBy items → ∀ item ∈ items,
          ∀ n ∈ item.expression.nodes, n.Fits := by
  have hkinds : acceptedKinds ((read .standard "Albums" (some lateTracks) none).runOn
      (.ofSource music)).1 = [.filter, .orderBy, .expand] := by
    decide +kernel
  cases hread : ((read .standard "Albums" (some lateTracks) none).runOn (.ofSource music)).1 with
  | error e =>
    rw [hread] at hkinds
    cases hkinds
  | ok r =>
    rw [hread] at hkinds
    exact ⟨r, rfl, hkinds, read_wellTyped hread⟩

end Request

end ODataRequest
