import ODataRequest.Proofs.Expression.MemberCasts
import ODataRequest.Proofs.Request.ExpandTree
import ODataRequest.Proofs.Request.WellTyped

/-!
# ODataRequest.Proofs.Request.MemberPaths

The paths in the conditions and orders of an accepted request, those in the bodies of quantifiers and
in expansions included (`Request.read_memberPaths`). They have the shape of paths, and whatever a
resource is cast to is derived from the type that it is declared with.
-/

namespace ODataRequest

open SystemOption

variable {config : Config}

/-- A path of an expression that is read against a type: it has the shape of a path, and whatever it casts
is cast to a derived type. -/
structure ResolvedPath (joined : List String) (type start : Option ModelType) (path : List Resource) :
    Prop where
  shape : MemberShape joined type start path
  casts : ∀ step ∈ path, step.CastsDerive

namespace Request

/-- Whatever directory a request is read on, in whatever state: each path in a condition or an order,
at the top or in an item of an expansion at any depth, is resolved against the type that the option is
read against. -/
theorem read_memberPaths {path : String} {query fragment : Option String} {d : Directory}
    {r : Request} (h : ((read config path query fragment).runOn d).1 = .ok r) :
    ∀ level type o, WithinAt r.address.target? r.options level type o →
      ∀ e ∈ o.value.expressions, e.Members (ResolvedPath r.address.joined type) := by
  intro level type o hwithin e he start path hmem
  obtain ⟨left, -, hvalue⟩ := gives_optionValue_of_withinAt (Resolution.gives_of_runOn h) hwithin
  obtain ⟨source, ts, rest, hread⟩ := gives_optionValue_isReadIn hvalue e he
  exact ⟨memberShape_rule.expression hread start path hmem,
    castsDerive_rule.expression hread start path hmem⟩

end Request

section Staff

/-- Those who manage a manager with a budget and a large team, those first who have their office in the
first building. -/
def largeTeams : String :=
  "$filter=Staff.Manager/Team/Staff.Manager/any(m:m/Budget gt 5 and m/Team/$count gt 9)&" ++
    "$orderby=$it/Office/Building/Code eq $root/Buildings(1)/Code"

/-- Casts in front of a path and inside it, and paths that start at a property, at a variable, at `$it`
and at `$root`. -/
theorem read_memberPaths_largeTeams :
    ∃ r, ((Request.read .standard "Persons" (some largeTeams) none).runOn (.ofSource staff)).1 =
        .ok r ∧
      r.options.map SystemOption.kind = [.filter, .orderBy] ∧
      ∀ level type o, WithinAt r.address.target? r.options level type o →
        ∀ e ∈ o.value.expressions, e.Members (ResolvedPath r.address.joined type) := by
  have hkinds : Request.acceptedKinds
      ((Request.read .standard "Persons" (some largeTeams) none).runOn (.ofSource staff)).1 =
        [.filter, .orderBy] := by
    decide +kernel
  cases hread :
      ((Request.read .standard "Persons" (some largeTeams) none).runOn (.ofSource staff)).1 with
  | error e =>
    rw [hread] at hkinds
    cases hkinds
  | ok r =>
    rw [hread] at hkinds
    exact ⟨r, rfl, hkinds, Request.read_memberPaths hread⟩

end Staff

end ODataRequest
