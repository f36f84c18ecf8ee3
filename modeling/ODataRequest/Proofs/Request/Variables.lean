import ODataRequest.Proofs.Expression.Variables
import ODataRequest.Proofs.Path.Resolved
import ODataRequest.Proofs.Request.Expressions

/-!
# ODataRequest.Proofs.Request.Variables

In the expressions of an accepted request every variable belongs to a quantifier around it, whatever
other quantifiers are inside, around or beside that one (`Request.read_lexicallyScoped`).
-/

namespace ODataRequest

namespace Request

variable {config : Config}

/-- Whatever directory a request is read on, in whatever state: wherever a variable occurs in one of
its filters or expressions to order by, at the top or in an expansion, there is a quantifier around it
that has its name, and the innermost of them is applied to a collection whose members are, as casts
narrow them, of the type of the variable. -/
theorem read_lexicallyScoped {path : String} {query fragment : Option String} {d : Directory}
    {r : Request} (h : ((read config path query fragment).runOn d).1 = .ok r) :
    ∀ o, SystemOption.Within r.options o → ∀ e ∈ o.value.expressions,
      ∀ enclosing name type, e.HasVariable name type enclosing →
        ∃ collection, enclosing.find? (·.name == name) = some ⟨name, some collection⟩ ∧
          collection.isCollection = true ∧ collection.type? = some type := by
  intro o ho e he enclosing name type hvariable
  obtain ⟨scope, source, ts, rest, hscope, hread⟩ :=
    (read_expressions (Resolution.gives_of_runOn h) o ho).expressions e he
  exact Expression.exists_collection_of_hasVariable hscope hread hvariable

/-- Albums with a track that is not the first one while there is an album `A`, by whether all their
live tracks are called `B`. -/
def hiddenVariable : String :=
  "$filter=Tracks/any(t:t/Number gt 1 and " ++
    "$root/Albums/any(t:t/Title eq 'A' and t ne null) and t/Number lt 9)&" ++
      "$orderby=Tracks/Music.Live/all(s:s/Title eq 'B')"

/-- The variables in each option of an accepted request, with the names of their types. -/
def acceptedVariables (answer : Except RequestError Request) : List (List (String × String)) :=
  match answer with
  | .ok r => r.options.map fun o =>
    (o.value.expressions.flatMap Expression.lambdaVariables).map fun v => (v.1, v.2.name.text)
  | .error _ => []

/-- The variable of the albums hides the one of the tracks until its quantifier is closed, and the
members of a collection that is cast are of the type it is cast to. -/
theorem read_lexicallyScoped_hiddenVariable :
    ∃ r, ((read .standard "Albums" (some hiddenVariable) none).runOn (.ofSource music)).1 = .ok r ∧
      acceptedVariables (.ok r) =
        [[("t", "Music.Track"), ("t", "Music.Album"), ("t", "Music.Album"), ("t", "Music.Track")],
          [("s", "Music.Live")]] ∧
      ∀ o, SystemOption.Within r.options o → ∀ e ∈ o.value.expressions,
        ∀ enclosing name type, e.HasVariable name type enclosing →
          ∃ collection, enclosing.find? (·.name == name) = some ⟨name, some collection⟩ ∧
            collection.isCollection = true ∧ collection.type? = some type := by
  have hvariables : acceptedVariables ((read .standard "Albums" (some hiddenVariable) none).runOn
      (.ofSource music)).1 =
        [[("t", "Music.Track"), ("t", "Music.Album"), ("t", "Music.Album"), ("t", "Music.Track")],
          [("s", "Music.Live")]] := by
    decide +kernel
  cases hread : ((read .standard "Albums" (some hiddenVariable) none).runOn (.ofSource music)).1 with
  | error e =>
    rw [hread] at hvariables
    cases hvariables
  | ok r =>
    rw [hread] at hvariables
    exact ⟨r, rfl, hvariables, read_lexicallyScoped hread⟩

end Request

end ODataRequest
