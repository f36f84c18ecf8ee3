import ODataRequest.Proofs.Expression.Literals
import ODataRequest.Proofs.Path.Resolved
import ODataRequest.Proofs.Request.Expressions

/-!
# ODataRequest.Proofs.Request.Literals

The literals of an accepted request. A literal among the tokens of a text is one that a value is
inferred from, a geographic one, or a misquoted one: a duration or a binary value in quotes that
cannot be read. An expression takes any of them, and checks no type where the literal has none
(`Request.literals_inferred`). So a filter may compare with a duration that is none
(`Request.literals_inferred_duration`).
-/

namespace ODataRequest

open Lexeme

namespace Request

/-- Of the literals in any text, geographic ones aside, no value is inferred from the misquoted ones,
and from no others. Whatever directory a request is read on, in whatever state: a literal without a
type in one of its filters or expressions to order by, at the top or in an expansion, in the body of a
quantifier or outside, is `null`, geographic, or misquoted. -/
theorem literals_inferred (config : Config) (d : Directory) :
    (∀ text ts, tokenize text = .ok ts → ∀ t ∈ ts, t.kind = .literal →
      isGeographic t.text.toList = false →
        (PrimitiveValue.infer? t.text.toList = none ↔ Misquoted t.text.toList)) ∧
    ∀ path query fragment r, ((read config path query fragment).runOn d).1 = .ok r →
      ∀ o, SystemOption.Within r.options o → ∀ e ∈ o.value.expressions,
        ∀ text, .literal text none ∈ e.nodes →
          text = "null" ∨ isGeographic text.toList = true ∨ Misquoted text.toList := by
  constructor
  · intro text ts htokens t ht hkind hplain
    refine ⟨fun hnone => ?_, Misquoted.infer?_eq_none⟩
    cases literalText_of_tokenize htokens t ht hkind with
    | value hvalue =>
      rw [hnone] at hvalue
      cases hvalue
    | geographic hgeographic =>
      rw [hplain] at hgeographic
      cases hgeographic
    | misquoted hmisquoted => exact hmisquoted
  · intro path query fragment r h o ho e he text hmem
    obtain ⟨scope, -, source, ts, rest, htokens, hread⟩ :=
      (read_expressions (Resolution.gives_of_runOn h) o ho).inTexts e he
    obtain ⟨hliteral, hnone⟩ := literal_of_reads htokens hread hmem
    exact hliteral.untyped hnone

/-- The texts of the literals among the tokens of a text. -/
def literalTexts (text : String) : List String :=
  match tokenize text with
  | .ok ts => (ts.filter (·.kind == .literal)).map Token.text
  | .error _ => []

/-- The texts of the literals without a type that a request is accepted with. -/
def untypedLiterals (answer : Except RequestError Request) : List String :=
  match answer with
  | .ok r => r.options.flatMap fun o => o.value.expressions.flatMap fun e =>
    e.nodes.filterMap fun
      | .literal text none => some text
      | _ => none
  | .error _ => []

theorem exists_of_mem_untypedLiterals {r : Request} {text : String}
    (h : text ∈ untypedLiterals (.ok r)) :
    ∃ o, SystemOption.Within r.options o ∧
      ∃ e ∈ o.value.expressions, .literal text none ∈ e.nodes := by
  simp only [untypedLiterals, List.mem_flatMap, List.mem_filterMap] at h
  obtain ⟨o, ho, e, he, n, hn, hliteral⟩ := h
  refine ⟨o, .here ho, e, he, ?_⟩
  split at hliteral <;> cases hliteral
  exact hn

/-- A duration and a number, a duration and a binary value that cannot be read, and a geographic
literal. -/
def comparedLiterals : String :=
  "duration'P1D' lt duration'x' and binary'*' ne 3.5 or geometry'Point(0 0)' eq null"

/-- Albums without a title and without a track that has no number or is long. -/
def unnumbered : String :=
  "$filter=Title eq null and " ++
    "not Tracks/any(t:t/Number eq null or geo.length(geography'LineString(0 0,1 1)') gt 3)"

/-- Literals of all kinds, and untyped ones outside and inside a quantifier. -/
theorem literals_inferred_unnumbered :
    (∃ ts, tokenize comparedLiterals = .ok ts ∧
      literalTexts comparedLiterals =
        ["duration'P1D'", "duration'x'", "binary'*'", "3.5", "geometry'Point(0 0)'", "null"] ∧
      ∀ t ∈ ts, t.kind = .literal → isGeographic t.text.toList = false →
        (PrimitiveValue.infer? t.text.toList = none ↔ Misquoted t.text.toList)) ∧
    ∃ r, ((read .standard "Albums" (some unnumbered) none).runOn (.ofSource music)).1 = .ok r ∧
      untypedLiterals (.ok r) = ["null", "null", "geography'LineString(0 0,1 1)'"] ∧
      ∀ o, SystemOption.Within r.options o → ∀ e ∈ o.value.expressions,
        ∀ text, .literal text none ∈ e.nodes →
          text = "null" ∨ isGeographic text.toList = true ∨ Misquoted text.toList := by
  constructor
  · have htexts : literalTexts comparedLiterals =
        ["duration'P1D'", "duration'x'", "binary'*'", "3.5", "geometry'Point(0 0)'", "null"] := by
      decide +kernel
    cases htokens : tokenize comparedLiterals with
    | error e =>
      rw [literalTexts, htokens] at htexts
      cases htexts
    | ok ts =>
      exact ⟨ts, rfl, htexts, (literals_inferred .standard (.ofSource music)).1 _ ts htokens⟩
  · have huntyped : untypedLiterals ((read .standard "Albums" (some unnumbered) none).runOn
        (.ofSource music)).1 = ["null", "null", "geography'LineString(0 0,1 1)'"] := by
      decide +kernel
    cases hread : ((read .standard "Albums" (some unnumbered) none).runOn (.ofSource music)).1 with
    | error e =>
      rw [hread] at huntyped
      cases huntyped
    | ok r =>
      rw [hread] at huntyped
      exact ⟨r, rfl, huntyped, (literals_inferred .standard (.ofSource music)).2 _ _ _ r hread⟩

/-- What is quoted behind the word `duration` is a literal also where it is no duration. It then has no
type, so that a filter may compare a title with it. -/
theorem literals_inferred_duration :
    (∃ ts, tokenize "duration'x'" = .ok ts ∧ ∃ t ∈ ts, t.kind = .literal ∧
      isGeographic t.text.toList = false ∧ PrimitiveValue.infer? t.text.toList = none) ∧
    ∃ r, ((read .standard "Albums" (some "$filter=Title eq duration'x'") none).runOn
        (.ofSource music)).1 = .ok r ∧
      ∃ o, SystemOption.Within r.options o ∧ ∃ e ∈ o.value.expressions,
        ∃ text, .literal text none ∈ e.nodes ∧ text ≠ "null" ∧
          isGeographic text.toList = false := by
  constructor
  · have htokens : tokenize "duration'x'" =
        .ok [⟨.literal, "duration'x'", 0, false⟩, ⟨.endOfText, "", 11, false⟩] := by decide +kernel
    have hunread : Duration.parse? ['x'] = none := by decide
    exact ⟨_, htokens, _, List.mem_cons_self, rfl, by decide,
      Misquoted.infer?_eq_none (.duration hunread)⟩
  · have huntyped : untypedLiterals ((read .standard "Albums"
        (some "$filter=Title eq duration'x'") none).runOn (.ofSource music)).1 = ["duration'x'"] := by
      decide +kernel
    cases hread : ((read .standard "Albums" (some "$filter=Title eq duration'x'") none).runOn
        (.ofSource music)).1 with
    | error e =>
      rw [hread] at huntyped
      cases huntyped
    | ok r =>
      rw [hread] at huntyped
      have hmem : "duration'x'" ∈ untypedLiterals (.ok r) := by simp [huntyped]
      obtain ⟨o, ho, e, he, hliteral⟩ := exists_of_mem_untypedLiterals hmem
      exact ⟨r, rfl, o, ho, e, he, _, hliteral, by decide, by decide⟩

end Request

end ODataRequest
