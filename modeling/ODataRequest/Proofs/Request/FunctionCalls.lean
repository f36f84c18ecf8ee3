import ODataRequest.Proofs.Expression.MemberCasts
import ODataRequest.Proofs.Path.CalledWith
import ODataRequest.Proofs.Request.CallOrder
import ODataRequest.Proofs.Request.ExpandTree

/-!
# ODataRequest.Proofs.Request.FunctionCalls

The function calls of an accepted request (`Request.read_functionCalls`). Wherever a function is called,
in the path, in a condition, in an order or in a selection, the arguments are those of a proper call, and
the order of the pairs in the path does not matter. That a function is looked for with the names of its
arguments is all that the paths of expressions and of properties share with the path of the request
(`Path.CalledWith`); each of them makes the resource on its own, so there is one lemma for each.
-/

namespace ODataRequest

open SystemOption TokenReader

variable {answers : Answers} {config : Config} {scope : Scope} {s : Source} {d : Directory}

/-! ### Expressions -/

/-- Each step of a path in an expression keeps that all its functions are called properly. -/
theorem properCall_memberStep (tell : answers.FindByNames s) {Body : Scope → Expression → Prop}
    {p p' : MemberPosition} (h : ∀ r ∈ p.steps, r.ProperCall s)
    (hstep : MemberStep answers Body scope p p') : ∀ r ∈ p'.steps, r.ProperCall s := by
  have hpush : ∀ {added : Resource}, added.ProperCall s → ∀ r ∈ added :: p.steps, r.ProperCall s :=
    fun hadded => List.forall_mem_cons.mpr ⟨hadded, h⟩
  cases hstep with
  | it | count | lambdaVariable | notEmpty | lambda => exact hpush trivial
  | property hproperty =>
    obtain ⟨type, -, -, hof, -⟩ := gives_propertyMember hproperty
    exact hpush (.of_isPropertyOf hof)
  | root _ hroot =>
    obtain ⟨set, type, keys, rfl⟩ | ⟨single, type, rfl⟩ := exists_of_reads_rootResource hroot
    · exact hpush trivial
    · exact hpush trivial
  | joined _ hjoined =>
    obtain ⟨set, type, keys, rfl, -⟩ := exists_of_reads_joinedResource hjoined
    exact hpush trivial
  | function hfunction =>
    obtain ⟨-, owner, raw, f, arguments, returnType, -, hraw, hf, harguments, -, rfl⟩ :=
      reads_memberFunction_iff.mp hfunction
    exact hpush (calledWith_of_gives tell (ArgumentTokens.of_reads hraw).2 (tell.bound hf) harguments)
  | narrow cast =>
    cases castMember_effect cast with
    | start => exact nofun
    | last hcast =>
      obtain ⟨hlast, hearlier⟩ := List.forall_mem_cons.mp h
      obtain ⟨rfl, -⟩ := cast_eq_ok hcast
      exact List.forall_mem_cons.mpr ⟨hlast.narrow (.of_withCasts _), hearlier⟩

/-- All functions in an accepted expression are called properly. -/
theorem properCall_rule (tell : answers.FindByNames s) :
    ReadingRule answers (fun _ => True)
      fun _ e => e.Members fun _ path => ∀ r ∈ path, r.ProperCall s := by
  refine membersRule (Q := fun _ _ _ path => ∀ r ∈ path, r.ProperCall s) fun h => ?_
  have hsteps := h.rule (fun p => ∀ r ∈ p.steps, r.ProperCall s)
    (fun _ _ => properCall_memberStep tell) nofun
  exact fun r hr => hsteps r (List.mem_reverse.mp hr)

/-! ### Selections -/

/-- A function that is selected takes no arguments, and has no parameters to take them for. -/
theorem properCall_of_boundProperty (tell : answers.FindByNames s) {owner : ModelType} {text : String}
    {name : QualifiedName} {r : Resource} (h : (boundProperty owner text name).Gives answers r) :
    r.ProperCall s := by
  obtain ⟨_, _, rfl⟩ | ⟨f, _, hf, rfl⟩ := boundProperty_cases h
  · trivial
  · exact ⟨List.nodup_nil, (tell.bound hf).symm, fun _ ha => absurd ha List.not_mem_nil⟩

/-- Each segment of a path of properties keeps that all its functions are called properly. -/
theorem properCall_propertyStep (tell : answers.FindByNames s) {target : ModelType} {p p' : Position}
    {segment : String} (h : ∀ r ∈ p.steps, r.ProperCall s)
    (hstep : (propertyStep target p segment).Gives answers p') : ∀ r ∈ p'.steps, r.ProperCall s := by
  cases propertyStep_effect hstep with
  | property _ found => exact List.forall_mem_cons.mpr ⟨.of_isPropertyOf found, h⟩
  | operation _ found => exact List.forall_mem_cons.mpr ⟨properCall_of_boundProperty tell found, h⟩
  | start => exact nofun
  | narrowed casts =>
    obtain ⟨hlast, hearlier⟩ := List.forall_mem_cons.mp h
    exact List.forall_mem_cons.mpr ⟨hlast.narrow (.of_withCasts _), hearlier⟩

/-- All functions that a selected path goes through are called properly. -/
theorem properCall_of_selectItem (tell : answers.FindByNames s) {type start : Option ModelType}
    {item : String} {path : List Resource}
    (h : (selectItem type item).Gives answers (.path start path)) : ∀ r ∈ path, r.ProperCall s := by
  obtain ⟨-, heq⟩ | ⟨_, _, -, -, heq⟩ | ⟨owner, p, -, hpath, heq⟩ := selectItem_cases h
  · cases heq
  · cases heq
  · cases heq
    have hsteps := hpath.foldlM_rule (fun p => ∀ r ∈ p.steps, r.ProperCall s)
      (fun _ _ _ h hstep => properCall_propertyStep tell h hstep) nofun
    exact fun r hr => hsteps r (List.mem_reverse.mp hr)

/-! ### Options -/

/-- All functions in the conditions, orders and selections of the value are called properly. -/
structure OptionValue.ProperCalls (s : Source) (value : OptionValue) : Prop where
  members : ∀ e ∈ value.expressions, e.Members fun _ path => ∀ r ∈ path, r.ProperCall s
  selected : ∀ items, value = .select items →
    ∀ start path, .path start path ∈ items → ∀ r ∈ path, r.ProperCall s

theorem properCalls_of_gives (tell : answers.FindByNames s) {room : Nat} {kind : OptionKind}
    {text : String} {value : OptionValue}
    (h : (optionValue config room scope kind text).Gives answers value) : value.ProperCalls s where
  members := by
    intro e he start path hmem
    obtain ⟨source, ts, rest, hread⟩ := gives_optionValue_isReadIn h e he
    exact (properCall_rule tell).expression hread start path hmem
  selected := by
    rintro items rfl start path hmem
    obtain ⟨item, -, hitem⟩ :=
      exists_left_of_forall₂ (Resolution.gives_mapM.mp (select_of_gives h)) hmem
    exact properCall_of_selectItem tell hitem

/-! ### Requests -/

/-- The directory finds the function when it is asked for one with parameters of these names, bound to
something or not. -/
def Directory.FindsFunction (d : Directory) (names : List String) (f : Function) : Prop :=
  (∃ name, ((Question.unboundFunction name names).ask.runOn d).1 = .ok (some f)) ∨
    ∃ name binding, ((Question.boundFunction name binding names).ask.runOn d).1 = .ok (some f)

theorem Directory.Reachable.parameters_perm (hd : d.Reachable s) {names : List String} {f : Function}
    (h : d.FindsFunction names f) : (f.parameters.map (·.name.text)).Perm names := by
  obtain ⟨name, h⟩ | ⟨name, binding, h⟩ := h
  · exact hd.findByNames.unbound ⟨[], h⟩
  · exact hd.findByNames.bound ⟨[], h⟩

namespace Request

/-- All functions in the path and in the options of an accepted request are called properly. -/
theorem properCalls_of_runOn (hd : d.Reachable s) {path : String} {query fragment : Option String}
    {r : Request} (h : ((read config path query fragment).runOn d).1 = .ok r) :
    (∀ step ∈ r.address.path, step.ProperCall s) ∧
      ∀ o, Within r.options o → o.value.ProperCalls s := by
  have tell := hd.findByNames
  have hafter : ((read config path query fragment).runOn (DirectoryCall.after [] d)).1 = .ok r := h
  have hgives := Resolution.gives_seen_of_runOn hafter
  constructor
  · obtain ⟨_, _, -, -, -, haddress, -⟩ := gives_read.mp hgives
    have hfound := found_of_gives_addressOf haddress
    generalize r.address = address at hfound
    cases hfound with
    | resource hpath => exact properCall_of_resourcePath tell hpath
    | _ => exact fun _ hstep => absurd hstep List.not_mem_nil
  · intro o hwithin
    obtain ⟨level, type, hwithin⟩ := exists_withinAt r.address.target? hwithin
    obtain ⟨left, -, hvalue⟩ := gives_optionValue_of_withinAt hgives hwithin
    exact properCalls_of_gives tell hvalue

/-- Whatever a directory has been asked before: functions are called with exactly their parameters
wherever they stand in an accepted request; when the arguments of a function are checked, no parameter is
missing any more; and with the pairs of a call in the path in another order a request is accepted in the
same cases, with the same function and its arguments in that order. -/
theorem read_functionCalls (hd : d.Reachable s) (config : Config) (path : String)
    (query fragment : Option String) :
    (∀ r, ((read config path query fragment).runOn d).1 = .ok r →
      (∀ step ∈ r.address.path, step.ProperCall s) ∧
        ∀ o, Within r.options o → o.value.ProperCalls s) ∧
    (∀ f raw, d.FindsFunction (raw.map Prod.fst) f →
      ∀ d', ((argumentsOf f raw).runOn d').1 ≠ .error (.semantic (.functionNotFound f.name.text))) ∧
    ∀ pairs pairs' segment segment', ReorderedCall pairs pairs' segment segment' →
      ∀ front after path', pathSegments path = .ok (front ++ segment :: after) →
        pathSegments path' = .ok (front ++ segment' :: after) →
        let given := ((read config path query fragment).runOn d).1
        let reordered := ((read config path' query fragment).runOn d).1
        ((∃ r, given = .ok r) ↔ ∃ r, reordered = .ok r) ∧
          ∀ r, given = .ok r → ∃ resources resources', r.address = .resource resources ∧
            ReorderedPath pairs pairs' resources resources' ∧
            reordered = .ok { r with address := .resource resources' } := by
  refine ⟨fun r h => properCalls_of_runOn hd h, fun f raw hfinds d' =>
    argumentsOf_ne_functionNotFound (hd.parameters_perm hfinds) d', ?_⟩
  intro pairs pairs' segment segment' hcall front after path' hpath hpath' given reordered
  have hread := fun r (h : given = .ok r) => read_reorderedCall hd.alike hcall hpath hpath' h
  refine ⟨⟨?_, ?_⟩, hread⟩
  · rintro ⟨r, h⟩
    obtain ⟨_, _, -, -, h'⟩ := hread r h
    exact ⟨_, h'⟩
  · rintro ⟨r, h⟩
    obtain ⟨_, _, -, -, h'⟩ := read_reorderedCall hd.alike hcall.symm hpath' hpath h
    exact ⟨_, h'⟩

end Request

section Ferries

private def ferrySpace : Namespace := ⟨⟨"Ferry", by decide⟩, []⟩
private def inFerry (name : Identifier) : QualifiedName := ⟨ferrySpace, name⟩
private def portId : Identifier := ⟨"Port", by decide⟩
private def weekdayId : Identifier := ⟨"Weekday", by decide⟩
private def routesId : Identifier := ⟨"Routes", by decide⟩

private def singleOf (type : QualifiedName) : TypeReference := ⟨type, false⟩
private def textType : TypeReference := singleOf PrimitiveKind.string.qualifiedName
private def herePort : Csdl.Parameter := ⟨⟨"here", by decide⟩, singleOf (inFerry portId), false⟩
private def onDay : Csdl.Parameter := ⟨⟨"day", rfl⟩, singleOf (inFerry weekdayId), false⟩

private def routesTo : Csdl.Function :=
  { name := routesId, isBound := false, entitySetPath := none
    parameters := [⟨⟨"to", by decide⟩, textType, false⟩, onDay]
    isComposable := true, returnType := ⟨⟨inFerry portId, true⟩, false⟩ }

private def boundToPort (name : Identifier) (others : List Csdl.Parameter) (result : PrimitiveKind) :
    Csdl.Function :=
  { name, isBound := true, entitySetPath := none, parameters := herePort :: others
    isComposable := false, returnType := ⟨singleOf result.qualifiedName, false⟩ }

/-- A model with the ports that there are routes to on a day; a port is open on some days, and it has a
fee. -/
def ferries : Source :=
  { basicOnly := false
    schemas :=
      [{ space := ferrySpace
         aliasName := none
         entityTypes :=
           [{ name := portId, baseType := none, isAbstract := false, isOpen := false,
              properties := [⟨⟨"Name", rfl⟩, textType, false, none, none, none, none⟩],
              navigationProperties := [], hasStream := false, key := [⟨"Name", none⟩] }]
         complexTypes := []
         enumTypes := []
         typeDefinitions :=
           [⟨weekdayId, (PrimitiveKind.integer .int32).qualifiedName, none, none, none⟩]
         actions := []
         functions :=
           [routesTo, boundToPort ⟨"IsOpen", by decide⟩ [onDay] .boolean,
            boundToPort ⟨"Fee", by decide⟩ [] (.integer .int32)]
         terms := []
         container := none
         annotations := [] }] }

private def routesIn : Function := ferries.function (inFerry routesId) routesTo

private theorem routes_result :
    (unboundFunction (inFerry routesId) ["to", "day"]).result ferries = .ok (some routesIn) := by
  have hgroup : (functionFamily.named (inFerry routesId)).result ferries = .ok [routesIn] :=
    functions_result rfl (by decide) (by decide)
  exact unboundFunction_result hgroup (.head _) rfl rfl (by decide)

/-- What a resolution comes to if its questions are answered from a table. -/
private def Resolution.lookedUp? {α : Type} (table : (q : Question) → Option q.Answer) :
    Resolution α → Option α
  | .done value => some value
  | .fail _ => none
  | .ask q next => (table q).bind fun answer => (next answer).lookedUp? table

private theorem Resolution.gives_of_lookedUp? {α : Type} {table : (q : Question) → Option q.Answer}
    (htable : ∀ q answer, table q = some answer → answers q answer) {x : Resolution α} {a : α}
    (h : x.lookedUp? table = some a) : x.Gives answers a := by
  induction x with
  | done value =>
    cases h
    exact .done _
  | fail e => cases h
  | ask q next ih =>
    obtain ⟨answer, hanswer, hnext⟩ := Option.bind_eq_some_iff.mp h
    exact .ask (htable q answer hanswer) (ih answer hnext)

/-- What the model answers. Two names are not put in order by evaluating, so the answer for the function
of two parameters is given. -/
private def ferryTable (q : Question) : Option q.Answer :=
  if h : q = .unboundFunction (inFerry routesId) ["to", "day"] then h ▸ some (some routesIn)
  else (q.ask.result ferries).toOption

private theorem ferryTable_answers (q : Question) (answer : q.Answer)
    (h : ferryTable q = some answer) : ferries.answers q answer := by
  unfold ferryTable at h
  split at h
  · next heq =>
    subst heq
    cases h
    exact routes_result
  · cases hresult : q.ask.result ferries with
    | error e =>
      rw [hresult] at h
      cases h
    | ok found =>
      rw [hresult] at h
      cases h
      exact hresult

private def toOslo : String × Word := ("to", ⟨.literal, "'Oslo'"⟩)
private def thirdDay : String × Word := ("day", ⟨.literal, "3"⟩)

private theorem reorderedCall_routes : ReorderedCall [toOslo, thirdDay] [thirdDay, toOslo]
    "Ferry.Routes(to='Oslo',day=3)" "Ferry.Routes(day=3,to='Oslo')" := by
  have tokens : tokenize "Ferry.Routes(to='Oslo',day=3)" = .ok [⟨.identifier, "Ferry.Routes", 0, false⟩,
      ⟨.openParen, "(", 12, false⟩, ⟨.identifier, "to", 13, false⟩, ⟨.equals, "=", 15, false⟩,
      ⟨.literal, "'Oslo'", 16, false⟩, ⟨.comma, ",", 22, false⟩, ⟨.identifier, "day", 23, false⟩,
      ⟨.equals, "=", 26, false⟩, ⟨.literal, "3", 27, false⟩, ⟨.closeParen, ")", 28, false⟩,
      ⟨.endOfText, "", 29, false⟩] := by
    decide +kernel
  have tokens' : tokenize "Ferry.Routes(day=3,to='Oslo')" = .ok [⟨.identifier, "Ferry.Routes", 0, false⟩,
      ⟨.openParen, "(", 12, false⟩, ⟨.identifier, "day", 13, false⟩, ⟨.equals, "=", 16, false⟩,
      ⟨.literal, "3", 17, false⟩, ⟨.comma, ",", 18, false⟩, ⟨.identifier, "to", 19, false⟩,
      ⟨.equals, "=", 21, false⟩, ⟨.literal, "'Oslo'", 22, false⟩, ⟨.closeParen, ")", 28, false⟩,
      ⟨.endOfText, "", 29, false⟩] := by
    decide +kernel
  exact ⟨tokens, tokens', rfl, rfl, .intro (.named rfl rfl (.more rfl rfl rfl (.last rfl rfl)))
    (.named rfl rfl (.more rfl rfl rfl (.last rfl rfl))) rfl (.swap _ _ _)⟩

/-- Ports that are open on a day, the cheap ones first. -/
private def openPorts : String :=
  "$filter=Ferry.IsOpen(day=4)&$orderby=Ferry.Fee()&$select=Name,Ferry.Fee"

/-- Functions of two parameters, one and none are called in the path, in a condition, in an order and in a
selection, and the first one with its pairs the other way round, too. -/
theorem read_functionCalls_ferries :
    ∃ r resources resources',
      ((Request.read .standard "Ferry.Routes(to='Oslo',day=3)" (some openPorts) none).runOn
        (.ofSource ferries)).1 = .ok r ∧
      r.address = .resource resources ∧ resources.map Resource.text = ["Ferry.Routes(to='Oslo',day=3)"] ∧
      r.options.map SystemOption.kind = [.filter, .orderBy, .select] ∧
      (∀ step ∈ resources, step.ProperCall ferries) ∧
      (∀ o, Within r.options o → o.value.ProperCalls ferries) ∧
      ReorderedPath [toOslo, thirdDay] [thirdDay, toOslo] resources resources' ∧
      ((Request.read .standard "Ferry.Routes(day=3,to='Oslo')" (some openPorts) none).runOn
        (.ofSource ferries)).1 = .ok { r with address := .resource resources' } ∧
      (Directory.ofSource ferries).FindsFunction ["to", "day"] routesIn ∧
      ∀ oslo three d', ((argumentsOf routesIn [("to", oslo), ("day", three)]).runOn d').1 ≠
        .error (.semantic (.functionNotFound "Ferry.Routes")) := by
  have names : ferries.WellNamed := ⟨by decide, by decide⟩
  have haccepted : ((Request.read .standard "Ferry.Routes(to='Oslo',day=3)" (some openPorts)
      none).lookedUp? ferryTable).map (fun r => (r.address.path.map Resource.text,
        r.options.map SystemOption.kind)) =
      some (["Ferry.Routes(to='Oslo',day=3)"], [.filter, .orderBy, .select]) := by
    decide +kernel
  obtain ⟨r, hr, heq⟩ := Option.map_eq_some_iff.mp haccepted
  obtain ⟨htexts, hkinds⟩ := Prod.mk.inj heq
  have hread := Resolution.runOn_of_gives_answers names
    (Resolution.gives_of_lookedUp? ferryTable_answers hr) (Directory.Reachable.fresh.consistent names)
  obtain ⟨hproper, hfinds, hreordered⟩ := Request.read_functionCalls Directory.Reachable.fresh .standard
    "Ferry.Routes(to='Oslo',day=3)" (some openPorts) none
  obtain ⟨hpath, hoptions⟩ := hproper r hread
  obtain ⟨-, hsame⟩ := hreordered _ _ _ _ reorderedCall_routes [] [] "Ferry.Routes(day=3,to='Oslo')"
    (by decide +kernel) (by decide +kernel)
  obtain ⟨resources, resources', haddress, hre, hread'⟩ := hsame r hread
  rw [haddress] at htexts hpath
  have hfound : (Directory.ofSource ferries).FindsFunction ["to", "day"] routesIn :=
    Or.inl ⟨_, routes_result⟩
  have hname : routesIn.name.text = "Ferry.Routes" := by decide
  refine ⟨r, resources, resources', hread, haddress, htexts, hkinds, hpath, hoptions, hre, hread',
    hfound, ?_⟩
  intro oslo three d'
  rw [← hname]
  exact hfinds routesIn [("to", oslo), ("day", three)] hfound d'

end Ferries

end ODataRequest
