import ODataRequest.Proofs.Directory.ActualNames
import ODataRequest.Proofs.Directory.Answers
import ODataRequest.Proofs.Expression.MemberText
import ODataRequest.Proofs.Expression.OuterPaths
import ODataRequest.Proofs.Path.Resolved
import ODataRequest.Proofs.Request.ExpandTree

/-!
# ODataRequest.Proofs.Request.MemberTexts

The texts of the paths in an accepted filter. A path without conditions is read back from its text, with
its start in front if the text does not show it (`Request.read_memberTexts`). Only a start at `$root` is
not shown, and without it the text may be refused (`Request.read_memberTexts_root`).
-/

namespace ODataRequest

open TokenReader SystemOption

variable {answers : Answers} {config : Config} {scope : Scope} {text : String}
variable {actual : QualifiedName → QualifiedName}

/-! ### Scopes of options -/

/-- A cross join is of entity sets, whose names are simple. -/
theorem simple_of_found {aliases : AliasTable} {address : Address}
    (h : address.Found answers aliases) : ∀ name ∈ address.joined, isQualified name = false := by
  cases h with
  | crossJoin container hsets =>
    intro name hname
    obtain ⟨set, hset⟩ := hsets name hname
    have hname : set.name.text = name := by simpa using List.find?_some hset
    rw [← hname]
    exact set.name.isQualified_text
  | _ => exact nofun

/-- No quantifier is open around an option. -/
theorem isOuter_of_gives_read {path : String} {query fragment : Option String} {r : Request}
    (h : (Request.read config path query fragment).Gives answers r) (type : Option ModelType) :
    Scope.IsOuter { r.address.scope r.aliases with it := type } := by
  obtain ⟨_, _, -, -, -, haddress, -⟩ := Request.gives_read.mp h
  exact ⟨rfl, simple_of_found (found_of_gives_addressOf haddress)⟩

/-! ### Conditions -/

theorem filterCondition_of_gives {room : Nat} {kind : OptionKind} {condition : Expression}
    (h : (optionValue config room scope kind text).Gives answers (.filter condition)) :
    (filterCondition config scope text).Gives answers condition := by
  cases kind_of_gives_optionValue h
  cases room <;>
  · simp only [optionValue, OptionValue.kind, optionValueWith, Resolution.gives_bind,
      Resolution.gives_pure] at h
    obtain ⟨read, hread, heq⟩ := h
    cases heq
    exact hread

/-- The paths of a condition are read back from their texts, on their own but in the same scope. -/
theorem gives_memberText (outer : scope.IsOuter) (named : answers.NamedBy actual)
    (tell : answers.TellPlainKeys) {condition : Expression}
    (h : (filterCondition config scope text).Gives answers condition) {start : Option ModelType}
    {path : List Resource} (hmem : .member start path ∈ condition.outerNodes)
    (hplain : PlainPath path) :
    ∃ lead, IsLead lead path ∧
      (readAll (expression config scope) (lead ++ (Expression.member start path).text)).Gives answers
        (.member start path) := by
  unfold filterCondition at h
  simp only [Resolution.gives_bind, gives_readAll] at h
  obtain ⟨_, ⟨tokens, rest, htokens, hread, -⟩, _, -, hcondition⟩ := h
  obtain rfl := Resolution.gives_pure.mp hcondition
  -- where something is read there is a level to read it on
  obtain ⟨limit, hlimit⟩ : ∃ limit, config.maxNesting = limit + 1 := by
    cases hmax : config.maxNesting with
    | zero =>
      rw [expression, hmax] at hread
      obtain ⟨_, hrefused⟩ := hread
      exact absurd hrefused Resolution.not_gives_refuse
    | succ limit => exact ⟨limit, rfl⟩
  obtain ⟨balances, isSuffix, begins, hpath⟩ :=
    readsPaths_expressionWithin answers _ _ hread start path hmem
  have portable := (portable_of_tokenize htokens).of_isSuffix isSuffix
  obtain ⟨p, lead, ps, hpieces, rfl, rfl⟩ :=
    exists_pathPieces outer named tell balances portable begins hpath hplain
  exact ⟨lead, hpieces.isLead, hpieces.gives outer hlimit⟩

namespace Request

/-- Each path in an accepted filter, at the top or in an expansion, that stands outside the bodies of
quantifiers and has no condition itself, is read back from its text in the scope of the filter. Its text
may lack a start at `$root`, and nothing else. -/
theorem read_memberTexts {s : Source} {path : String} {query fragment : Option String} {r : Request}
    (names : s.WellNamed) (plain : s.PlainKeys)
    (h : ((read config path query fragment).runOn (.ofSource s)).1 = .ok r) :
    ∀ level type o, WithinAt r.address.target? r.options level type o →
      ∀ condition, o.value = .filter condition →
      ∀ start steps, Expression.member start steps ∈ condition.outerNodes → PlainPath steps →
        ∃ lead, IsLead lead steps ∧
          ((readAll (expression config { r.address.scope r.aliases with it := type })
            (lead ++ (Expression.member start steps).text)).runOn (.ofSource s)).1 =
              .ok (.member start steps) := by
  intro level type o hwithin condition hcondition start steps hmem hplain
  have hgives := Resolution.gives_answers_of_runOn names (.ofSource s) h
  obtain ⟨left, -, hvalue⟩ := gives_optionValue_of_withinAt hgives hwithin
  rw [hcondition] at hvalue
  obtain ⟨lead, hlead, hread⟩ := gives_memberText (isOuter_of_gives_read hgives type)
    (answers_namedBy names) (answers_tellPlainKeys plain) (filterCondition_of_gives hvalue) hmem
    hplain
  exact ⟨lead, hlead, Resolution.runOn_of_gives_answers names hread (.ofSource s)⟩

section Staff

/-- Does some path in the filter of an accepted request, outside the bodies of quantifiers, pass the
test? -/
def somePath (test : Request → Option ModelType → List Resource → Bool)
    (answer : Except RequestError Request) : Bool :=
  match answer with
  | .ok r => r.options.any fun o =>
    match o.value with
    | .filter condition => condition.outerNodes.any fun n =>
      match n with
      | .member start steps => test r start steps
      | _ => false
    | _ => false
  | .error _ => false

theorem exists_of_somePath {test : Request → Option ModelType → List Resource → Bool}
    {answer : Except RequestError Request} (h : somePath test answer = true) :
    ∃ r o condition start steps, answer = .ok r ∧ o ∈ r.options ∧ o.value = .filter condition ∧
      Expression.member start steps ∈ condition.outerNodes ∧ test r start steps = true := by
  cases answer with
  | error e => cases h
  | ok r =>
    obtain ⟨o, ho, h⟩ := List.any_eq_true.mp h
    split at h
    · next condition hcondition =>
      obtain ⟨n, hn, h⟩ := List.any_eq_true.mp h
      split at h
      · next start steps => exact ⟨r, o, condition, start, steps, rfl, ho, hcondition, hn, h⟩
      · cases h
    · cases h

/-- A path that starts at the value which the filter is about is read back from its text alone. -/
example :
    somePath
      (fun r start steps => decide (PlainPath steps) &&
        ((readAll (expression .standard (r.address.scope r.aliases))
          (Expression.member start steps).text).runOn (.ofSource staff)).1.isOk)
      ((read .standard "Persons" (some "$filter=Office/Building/Code eq 3") none).runOn
        (.ofSource staff)).1 = true := by
  decide +kernel

/-- The codes of the buildings of persons, compared with the one of a certain building. -/
def sameBuilding : String :=
  "$filter=Office/Building/Code eq $root/Buildings(1)/Code"

/-- A path that starts at `$root`, the text of which is refused. -/
private theorem somePath_sameBuilding :
    somePath
      (fun r start steps => decide (PlainPath steps) && steps.head?.any Resource.isContained &&
        !((readAll (expression .standard (r.address.scope r.aliases))
          (Expression.member start steps).text).runOn (.ofSource staff)).1.isOk)
      ((read .standard "Persons" (some sameBuilding) none).runOn (.ofSource staff)).1 = true := by
  decide +kernel

/-- A path that starts at `$root` is read back behind `$root`. -/
theorem read_memberTexts_buildings :
    ∃ r o condition start steps,
      ((read .standard "Persons" (some sameBuilding) none).runOn (.ofSource staff)).1 = .ok r ∧
      o ∈ r.options ∧ o.value = .filter condition ∧
      Expression.member start steps ∈ condition.outerNodes ∧
      (∃ first ∈ steps.head?, first.isContained = true) ∧
      ∃ lead, IsLead lead steps ∧
        ((readAll (expression .standard (r.address.scope r.aliases))
          (lead ++ (Expression.member start steps).text)).runOn (.ofSource staff)).1 =
            .ok (.member start steps) := by
  obtain ⟨r, o, condition, start, steps, hread, ho, hcondition, hmem, htest⟩ :=
    exists_of_somePath somePath_sameBuilding
  obtain ⟨htest, -⟩ := Bool.and_eq_true_iff.mp htest
  obtain ⟨hplain, hcontained⟩ := Bool.and_eq_true_iff.mp htest
  have names : staff.WellNamed := ⟨by decide, by decide⟩
  have plain : staff.PlainKeys := ⟨by decide, by decide⟩
  exact ⟨r, o, condition, start, steps, hread, ho, hcondition, hmem,
    (Option.any_eq_true _ _).mp hcontained,
    read_memberTexts names plain hread 0 _ o (.here ho) condition hcondition start steps hmem
      (of_decide_eq_true hplain)⟩

/-- The text of a path that starts at `$root` is read as a path from the value that the filter is
about, and such a path may lead nowhere. -/
theorem read_memberTexts_root :
    ¬∀ (s : Source) (config : Config) (path : String) (query fragment : Option String) (r : Request),
        s.WellNamed → s.PlainKeys →
        ((read config path query fragment).runOn (.ofSource s)).1 = .ok r →
        ∀ level type o, WithinAt r.address.target? r.options level type o →
          ∀ condition, o.value = .filter condition →
          ∀ start steps, Expression.member start steps ∈ condition.outerNodes →
            ((readAll (expression config { r.address.scope r.aliases with it := type })
              (Expression.member start steps).text).runOn (.ofSource s)).1 =
                .ok (.member start steps) := by
  intro h
  obtain ⟨r, o, condition, start, steps, hread, ho, hcondition, hmem, htest⟩ :=
    exists_of_somePath somePath_sameBuilding
  obtain ⟨-, hrefused⟩ := Bool.and_eq_true_iff.mp htest
  have names : staff.WellNamed := ⟨by decide, by decide⟩
  have plain : staff.PlainKeys := ⟨by decide, by decide⟩
  have hback : ((readAll (expression .standard (r.address.scope r.aliases))
      (Expression.member start steps).text).runOn (.ofSource staff)).1 = .ok (.member start steps) :=
    h staff .standard "Persons" _ none r names plain hread 0 _ o (.here ho) condition hcondition start
      steps hmem
  simp [hback, Except.isOk, Except.toBool] at hrefused

end Staff

end Request

end ODataRequest
