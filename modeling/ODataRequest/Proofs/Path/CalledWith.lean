import ODataRequest.Proofs.Directory.ActualNames
import ODataRequest.Proofs.Directory.Alike
import ODataRequest.Proofs.Directory.NearestOverload
import ODataRequest.Proofs.Directory.Steady
import ODataRequest.Proofs.Path.CallForm
import ODataRequest.Proofs.Path.CallTokens
import ODataRequest.Proofs.Path.PropertyPath

/-!
# ODataRequest.Proofs.Path.CalledWith

Functions are called with exactly their parameters. A function is looked for with the names of the
arguments, and what is found has these parameters (`Directory.Reachable.findByNames`); so each argument has
its parameter when it is checked after that (`argumentsOf_ne_functionNotFound`), and no parameter is left
without an argument (`calledWith_of_gives`). This holds of every function that a path goes through
(`properCall_of_resourcePath`).
-/

namespace ODataRequest

open InDirectory TokenReader

variable {answers : Answers} {aliases : AliasTable} {source : String} {ts rest : List Token}
variable {s : Source} {d : Directory}

/-! ### Functions that are found -/

/-- A function that is found for names has parameters of these names, and types are the ones of the
source. -/
structure Answers.FindByNames (s : Source) (answers : Answers) : Prop where
  unbound : ∀ {name : QualifiedName} {names : List String} {f : Function},
    answers (.unboundFunction name names) (some f) → (f.parameters.map (·.name.text)).Perm names
  bound : ∀ {name : QualifiedName} {binding : Binding} {names : List String} {f : Function},
    answers (.boundFunction name binding names) (some f) → (f.parameters.map (·.name.text)).Perm names
  type : ∀ {name : QualifiedName} {found : Option ModelType}, answers (.type name) found →
    (resolveType name).result s = .ok found

theorem Function.parameters_perm_of_key {f : Function} {names : List String}
    (h : f.key.parameters = some (ascending names)) :
    (f.parameters.map (·.name.text)).Perm names :=
  ascending_eq_iff.mp (Option.some.inj h)

/-- Whatever a directory has been asked before, it finds functions by the names of their parameters. -/
theorem Directory.Reachable.findByNames (hd : d.Reachable s) : d.seenAnswers.FindByNames s := by
  have hresult : ∀ {q : Question} {answer : q.Answer}, q ≠ .container → d.seenAnswers q answer →
      q.ask.result s = .ok answer := by
    rintro q answer hq ⟨calls, hanswer⟩
    have halike := (hd.after calls).alike
    rw [← hanswer]
    exact ((q.ask_blind hq).runOn (q.ask_settled_of_ne hq) halike.left).1.symm
  constructor
  · intro name names f h
    have h := hresult (by simp) h
    rw [Question.ask, (unboundFunction_settles name names).result_eq] at h
    have hkey := OperationFamily.key_of_ofKey (functionFamily_lawful s) h
    exact Function.parameters_perm_of_key (congrArg OverloadKey.parameters hkey)
  · intro name binding names f h
    have h := hresult (by simp) h
    rw [Question.ask, (boundFunction_settles name binding names).result_eq] at h
    obtain ⟨_, hkey⟩ := OperationFamily.key_of_nearestOverload (functionFamily_lawful s) h
    exact Function.parameters_perm_of_key (congrArg OverloadKey.parameters hkey)
  · intro name found h
    exact hresult (by simp) h

/-! ### Arguments -/

/-- The arguments are those of a proper call: one for each parameter, and a literal for a single value of
a primitive type, or of a definition of one, has a value of this type or is `null`. -/
structure Function.CalledWith (s : Source) (f : Function) (arguments : List Argument) : Prop where
  distinct : (arguments.map (·.name)).Nodup
  names : (arguments.map (·.name)).Perm (f.parameters.map (·.name.text))
  literals : ∀ a ∈ arguments, ∀ text value, a.value = .literal text value →
    ∀ p ∈ f.parameters, p.name.text = a.name → p.type.isCollection = false →
    ∀ type kind, (resolveType p.type.name).result s = .ok (some type) → type.primitive? = some kind →
      ∃ v, value = some v ∧ (v = .null ∨ v.kind? = some kind)

variable {f : Function} {raw : List (String × Token)} {arguments : List Argument}

theorem parameter?_eq_some (hdistinct : (raw.map (·.1)).Nodup)
    (hnames : (f.parameters.map (·.name.text)).Perm (raw.map (·.1))) {name : String}
    {p : Csdl.Parameter} : f.parameter? name = some p ↔ p ∈ f.parameters ∧ p.name.text = name :=
  find?_key_eq_some (hnames.nodup_iff.mpr hdistinct)

/-- A literal that is read for a parameter of a known kind has a value of this kind. -/
theorem literal_of_gives_argument {name : String} {t : Token} {a : Argument} {text : String}
    {value : Option PrimitiveValue} (h : (argument f (name, t)).Gives answers a)
    (hvalue : a.value = .literal text value) :
    ∃ p, f.parameter? name = some p ∧ ∃ kind?, (parameterKind? p).Gives answers kind? ∧
      ∀ kind, kind? = some kind → ∃ v, value = some v ∧ (v = .null ∨ v.kind? = some kind) := by
  have hliteral : ∀ {kind?}, (literalArgument name t.text kind?).Gives answers a →
      ∀ kind, kind? = some kind → ∃ v, value = some v ∧ (v = .null ∨ v.kind? = some kind) := by
    rintro _ h kind rfl
    unfold literalArgument at h
    dsimp only at h
    split at h
    · rename_i v hvalid
      cases Resolution.gives_pure.mp h
      cases hvalue
      refine ⟨v, rfl, ?_⟩
      by_cases hnull : v = .null
      · exact Or.inl hnull
      · exact Or.inr (kind?_of_validate hvalid hnull)
    · exact absurd h Resolution.not_gives_reject
  unfold argument at h
  obtain ⟨p, hp, h⟩ := Resolution.gives_bind.mp h
  refine ⟨p, Resolution.gives_require.mp hp, ?_⟩
  split at h
  · cases Resolution.gives_pure.mp h
    cases hvalue
  · obtain ⟨kind?, hkind, h⟩ := Resolution.gives_bind.mp h
    exact ⟨kind?, hkind, hliteral h⟩
  · obtain ⟨kind?, hkind, h⟩ := Resolution.gives_bind.mp h
    exact ⟨kind?, hkind, hliteral h⟩
  · exact absurd h Resolution.not_gives_refuse

/-- The arguments of a function that has been found by their names are those of a proper call. -/
theorem calledWith_of_gives (tell : answers.FindByNames s) (hdistinct : (raw.map (·.1)).Nodup)
    (hnames : (f.parameters.map (·.name.text)).Perm (raw.map (·.1)))
    (h : (argumentsOf f raw).Gives answers arguments) : f.CalledWith s arguments := by
  have heach := Resolution.gives_mapM.mp h
  have hmap : arguments.map (·.name) = raw.map (·.1) := by
    clear hdistinct hnames h
    induction heach with
    | nil => rfl
    | cons ha _ ih => rw [List.map_cons, List.map_cons, ih, (gives_argument ha).1]
  refine ⟨by rwa [hmap], by rw [hmap]; exact hnames.symm, ?_⟩
  intro a ha text value hvalue p hp hname hsingle type kind htype hkind
  obtain ⟨⟨name, t⟩, -, hgives⟩ := exists_left_of_forall₂ heach ha
  obtain ⟨p', hp', kind?, hkind?, hliteral⟩ := literal_of_gives_argument hgives hvalue
  obtain rfl : p' = p := by
    have hfound := (parameter?_eq_some hdistinct hnames).mpr ⟨hp, hname⟩
    rw [(gives_argument hgives).1, hp', Option.some.injEq] at hfound
    exact hfound
  -- the kind of the parameter is the one of its type
  unfold parameterKind? at hkind?
  rw [hsingle] at hkind?
  obtain ⟨type', htype', heq⟩ := Resolution.gives_bind.mp hkind?
  rw [Resolution.gives_requireType] at htype'
  have hresult := tell.type htype'
  rw [htype, Except.ok.injEq, Option.some.injEq] at hresult
  subst hresult
  exact hliteral kind ((Resolution.gives_pure.mp heq).symm.trans hkind)

/-! ### The exit for an unknown parameter -/

/-- The resolution does not fail with the error, whatever the answers are. -/
def Resolution.NeverFails {α : Type} (error : SemanticError) : Resolution α → Prop
  | .done _ => True
  | .fail e => e ≠ .semantic error
  | .ask _ next => ∀ answer, (next answer).NeverFails error

namespace Resolution.NeverFails

variable {α β : Type} {error : SemanticError} {x : Resolution α}

theorem bind {g : α → Resolution β} (hx : x.NeverFails error) (hg : ∀ a, (g a).NeverFails error) :
    (x >>= g).NeverFails error := by
  show (x.bind g).NeverFails error
  induction x with
  | done a => exact hg a
  | fail e => exact hx
  | ask q next ih => exact fun answer => ih answer (hx answer)

theorem mapM {g : α → Resolution β} {as : List α} (hg : ∀ a ∈ as, (g a).NeverFails error) :
    (as.mapM g).NeverFails error := by
  induction as with
  | nil => trivial
  | cons a as ih =>
    obtain ⟨ha, has⟩ := List.forall_mem_cons.mp hg
    rw [List.mapM_cons]
    exact ha.bind fun b => (ih has).bind fun bs => trivial

/-- What the directory fails with is no such error either. -/
theorem runOn (h : x.NeverFails error) (d : Directory) : (x.runOn d).1 ≠ .error (.semantic error) := by
  induction x generalizing d with
  | done a => exact nofun
  | fail e =>
    intro heq
    cases heq
    exact h rfl
  | ask q next ih =>
    unfold Resolution.runOn
    split
    · exact ih _ (h _) _
    · exact nofun

end Resolution.NeverFails

/-- Each argument of a function that has been found by their names has its parameter. -/
theorem argumentsOf_ne_functionNotFound
    (hnames : (f.parameters.map (·.name.text)).Perm (raw.map (·.1))) (d : Directory) :
    ((argumentsOf f raw).runOn d).1 ≠ .error (.semantic (.functionNotFound f.name.text)) := by
  refine Resolution.NeverFails.runOn (.mapM fun pair hpair => ?_) d
  obtain ⟨name, t⟩ := pair
  obtain ⟨p, hp, hname⟩ : ∃ p ∈ f.parameters, p.name.text = name :=
    List.mem_map.mp (hnames.mem_iff.mpr (List.mem_map.mpr ⟨_, hpair, rfl⟩))
  obtain ⟨p', hp'⟩ : ∃ p', f.parameter? name = some p' := by
    refine Option.isSome_iff_exists.mp (List.find?_isSome.mpr ⟨p, hp, ?_⟩)
    simpa using hname
  have hfound : (Resolution.require (.functionNotFound f.name.text) (f.parameter? name)).NeverFails
      (.functionNotFound f.name.text) := by
    rw [hp']
    trivial
  refine hfound.bind fun parameter => ?_
  have hkind : (parameterKind? parameter).NeverFails (.functionNotFound f.name.text) := by
    unfold parameterKind?
    split
    · trivial
    · intro answer
      cases answer with
      | none => exact nofun
      | some type => trivial
  have hliteral : ∀ kind?,
      (literalArgument name t.text kind?).NeverFails (.functionNotFound f.name.text) := by
    intro kind?
    unfold literalArgument
    split
    · trivial
    · split
      · trivial
      · exact nofun
  split
  · trivial
  · exact hkind.bind hliteral
  · exact hkind.bind hliteral
  · exact nofun

/-! ### Paths -/

/-- A function is called properly; there is nothing to say of any other resource. -/
def Resource.ProperCall (s : Source) : Resource → Prop
  | .function f _ arguments _ _ _ => f.CalledWith s arguments
  | _ => True

theorem Resource.ProperCall.narrow {r r' : Resource} (h : r.ProperCall s) (hnarrows : r.Narrows r') :
    r'.ProperCall s := by
  obtain ⟨casts, keys, rfl⟩ := hnarrows
  cases r <;> exact h

theorem Resource.ProperCall.of_isAspect {r : Resource} (h : Address.isAspect r = true) :
    r.ProperCall s := by
  cases r with
  | function => cases h
  | _ => trivial

theorem Resource.ProperCall.of_isPropertyOf {r : Resource} {type : ModelType} (h : r.IsPropertyOf type) :
    r.ProperCall s := by
  cases r with
  | function => exact h.elim
  | _ => trivial

theorem Keyed.properCall {Allowed : EntityType → Prop} {plain r : Resource}
    (h : Keyed answers aliases Allowed plain source ts r rest) (hplain : plain.ProperCall s) :
    r.ProperCall s := by
  cases h with
  | without => exact hplain
  | withKey => cases plain <;> exact hplain

theorem properCall_of_actionResource {a : Action} {byImport : Option Csdl.ActionImport} {r : Resource}
    (h : (actionResource a byImport).Gives answers r) : r.ProperCall s := by
  obtain ⟨returnType, -, h⟩ := Resolution.gives_bind.mp h
  cases Resolution.gives_pure.mp h
  trivial

section Segments

variable (tell : answers.FindByNames s) {r previous : Resource}
include tell

theorem properCall_of_calledFunction {byImport : Option Csdl.FunctionImport} {missing : SemanticError}
    {find : List String → Resolution (Option Function)}
    (hfind : ∀ {names f}, (find names).Gives answers (some f) →
      (f.parameters.map (·.name.text)).Perm names)
    (h : Reads answers (calledFunction aliases byImport missing find) source ts r rest) :
    r.ProperCall s := by
  obtain ⟨raw, between, f, hraw, hf, hfunction⟩ := reads_calledFunction_iff.mp h
  obtain ⟨arguments, returnType, harguments, -, hkeyed⟩ := reads_functionResource_iff.mp hfunction
  exact hkeyed.properCall
    (calledWith_of_gives tell (ArgumentTokens.of_reads hraw).2 (hfind hf) harguments)

theorem properCall_of_calledOperation {noFunction noAction : SemanticError}
    {findFunction : QualifiedName → List String → Resolution (Option Function)}
    {findAction : QualifiedName → Resolution (Option Action)} {name : QualifiedName}
    (hfind : ∀ {names f}, (findFunction name names).Gives answers (some f) →
      (f.parameters.map (·.name.text)).Perm names)
    (h : Reads answers (calledOperation aliases noFunction noAction findFunction findAction name) source
      ts r rest) : r.ProperCall s := by
  unfold calledOperation at h
  rcases reads_ifSees.mp h with ⟨-, h⟩ | ⟨-, h⟩
  · exact properCall_of_calledFunction tell hfind h
  · obtain ⟨a, -, hgives, -⟩ := reads_calledAction_iff.mp h
    exact properCall_of_actionResource hgives

theorem properCall_of_boundOperation {name : QualifiedName} {binding : Binding}
    (h : Reads answers (boundOperation aliases name binding) source ts r rest) : r.ProperCall s := by
  have hform : boundOperation aliases name binding =
      calledOperation aliases (.functionNotFound name.text) (.actionNotFound name.text)
        (fun name names => Resolution.answerTo (.boundFunction name binding names))
        (fun name => Resolution.answerTo (.boundAction name binding)) name := rfl
  rw [hform] at h
  exact properCall_of_calledOperation tell
    (fun hfound => tell.bound (Resolution.gives_answerTo.mp hfound)) h

theorem properCall_of_containerResource {c : Container} {name : String}
    (h : Reads answers (containerResource aliases c name) source ts r rest) : r.ProperCall s := by
  have helement := containerResource_element aliases c name
  generalize containerResource aliases c name = reader at h helement
  cases helement with
  | entitySet =>
    obtain ⟨type, -, hkeyed⟩ := reads_entitySetResource_iff.mp h
    exact hkeyed.properCall trivial
  | singleton =>
    rcases reads_ifSees.mp h with ⟨-, h⟩ | ⟨-, h⟩
    · exact absurd (reads_lift.mp h).1 Resolution.not_gives_reject
    · obtain ⟨type, -, hgives⟩ := Resolution.gives_bind.mp (reads_lift.mp h).1
      cases Resolution.gives_pure.mp hgives
      trivial
  | actionImport =>
    obtain ⟨a, -, hgives⟩ := gives_of_reads_importedAction h
    exact properCall_of_actionResource hgives
  | functionImport =>
    exact properCall_of_calledFunction tell
      (fun hfound => tell.unbound (Resolution.gives_answerTo.mp hfound)) h
  | missing => exact absurd (reads_lift.mp h).1 Resolution.not_gives_reject

theorem properCall_of_firstSegment (h : Reads answers (firstSegment aliases) source ts r rest) :
    r.ProperCall s := by
  obtain ⟨t, us, rfl, -, ⟨-, h⟩ | ⟨-, c, -, h⟩⟩ := reads_firstSegment_iff.mp h
  · obtain ⟨name, -, h⟩ := reads_unboundOperation_iff.mp h
    exact properCall_of_calledOperation tell
      (fun hfound => tell.unbound (Resolution.gives_answerTo.mp hfound)) h
  · exact properCall_of_containerResource tell h

/-- A segment that adds a function calls it properly. -/
theorem properCall_of_nextSegment {next : Resource}
    (h : Reads answers (nextSegment aliases previous) source ts (.add next) rest) :
    next.ProperCall s := by
  obtain ⟨t, us, rfl, -, ⟨-, _, hdollar, heq, -⟩ | ⟨-, -, h⟩ | ⟨-, -, _, hproperty, heq⟩⟩ :=
    reads_nextSegment_iff.mp h
  · cases heq
    exact .of_isAspect (gives_dollarSegment hdollar).2.1
  · obtain ⟨name, owner, -, -, ⟨_, _, -, -, heq⟩ | ⟨-, _, hoperation, heq⟩⟩ :=
      reads_qualifiedSegment_iff.mp h
    · cases heq
    · cases heq
      exact properCall_of_boundOperation tell hoperation
  · cases heq
    obtain ⟨found, ⟨-, _, _, -, -, hfound⟩, hkeyed⟩ := reads_propertySegment_iff.mp hproperty
    refine hkeyed.properCall ?_
    rcases gives_propertyResource hfound with ⟨_, _, rfl, -⟩ | ⟨_, _, rfl, -⟩ <;> trivial

theorem properCall_of_followSegments {last : Resource} {segments : List String}
    {path : List Resource} (hlast : last.ProperCall s)
    (h : (followSegments aliases last [] segments).Gives answers path) :
    ∀ r ∈ path, r.ProperCall s := by
  induction segments generalizing last path with
  | nil =>
    cases Resolution.gives_pure.mp h
    exact List.forall_mem_singleton.mpr hlast
  | cons segment segments ih =>
    cases hend : segment.isEmpty && segments.isEmpty with
    | true =>
      rw [followSegments, if_pos hend] at h
      cases Resolution.gives_pure.mp h
      exact List.forall_mem_singleton.mpr hlast
    | false =>
      obtain ⟨effect, heffect, h⟩ := (followSegments_cons hend).mp h
      obtain ⟨tokens, left, -, hreads, -⟩ := gives_readAll.mp heffect
      cases effect with
      | narrow narrowed => exact ih (hlast.narrow (narrows_of_nextSegment hreads)) h
      | add next =>
        obtain ⟨behind, hbehind, rfl⟩ := gives_followSegments_append.mp h
        exact List.forall_mem_cons.mpr ⟨hlast, ih (properCall_of_nextSegment tell hreads) hbehind⟩

/-- All functions in a path are called properly. -/
theorem properCall_of_resourcePath {first : String} {segments : List String} {path : List Resource}
    (h : (resourcePath aliases first segments).Gives answers path) : ∀ r ∈ path, r.ProperCall s := by
  obtain ⟨start, hstart, h⟩ := Resolution.gives_bind.mp h
  obtain ⟨tokens, left, -, hreads, -⟩ := gives_readAll.mp hstart
  exact properCall_of_followSegments tell (properCall_of_firstSegment tell hreads) h

end Segments

end ODataRequest
