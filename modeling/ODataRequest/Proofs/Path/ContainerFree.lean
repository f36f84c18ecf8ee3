import ODataRequest.Proofs.Directory.Alike
import ODataRequest.Request.Reader

/-!
# ODataRequest.Proofs.Path.ContainerFree

Which questions the segments of a path ask. Only the first segment of a path asks for the container, once
and before everything else; all that follows is *container-free* (`firstSegment_asks`,
`followSegments_containerFree`). A resolution that is container-free comes to a value on a directory if and
only if it gives this value with the answers of the source, whatever the directory has been asked before,
and it leaves one that is alike (`ContainerFree.runOn`).
-/

namespace ODataRequest

variable {α β σ : Type}

/-! ### Resolutions -/

namespace Resolution

/-- The container is never asked for, whatever the answers are. -/
def ContainerFree : Resolution α → Prop
  | .done _ => True
  | .fail _ => True
  | .ask q next => q ≠ .container ∧ ∀ answer, (next answer).ContainerFree

namespace ContainerFree

variable {x : Resolution α} {s : Source} {d : Directory}

theorem bind {f : α → Resolution β} (hx : x.ContainerFree) (hf : ∀ a, (f a).ContainerFree) :
    (x >>= f).ContainerFree := by
  show (x.bind f).ContainerFree
  induction x with
  | done a => exact hf a
  | fail error => trivial
  | ask q next ih => exact ⟨hx.1, fun answer => ih answer (hx.2 answer)⟩

theorem answerTo {q : Question} (h : q ≠ .container) : (answerTo q).ContainerFree :=
  ⟨h, fun _ => trivial⟩

theorem require (e : SemanticError) (o : Option α) : (require e o).ContainerFree := by
  cases o <;> trivial

theorem ofGrammar (x : Except GrammarError α) : (ofGrammar x).ContainerFree := by
  cases x <;> trivial

theorem ofSemantic (x : Except SemanticError α) : (ofSemantic x).ContainerFree := by
  cases x <;> trivial

theorem mapM {f : α → Resolution β} (hf : ∀ a, (f a).ContainerFree) (as : List α) :
    (as.mapM f).ContainerFree := by
  induction as with
  | nil => trivial
  | cons a as ih =>
    rw [List.mapM_cons]
    exact (hf a).bind fun b => ih.bind fun bs => trivial

theorem optionMapM {f : α → Resolution β} (hf : ∀ a, (f a).ContainerFree) (o : Option α) :
    (o.mapM f).ContainerFree := by
  cases o with
  | none => trivial
  | some a => exact (hf a).bind fun b => trivial

theorem requireType (name : QualifiedName) : (requireType name).ContainerFree := by
  refine bind (answerTo nofun) fun found => ?_
  cases found <;> trivial

theorem requireEntityType (name : QualifiedName) : (requireEntityType name).ContainerFree := by
  refine bind (answerTo nofun) fun found => ?_
  cases found <;> trivial

theorem requireName (text : String) : (requireName text).ContainerFree := by
  unfold ODataRequest.requireName
  split <;> trivial

/-! ### Runs -/

/-- Only the answers to the questions that are asked matter. -/
theorem gives_congr {answers answers' : Answers} (h : x.ContainerFree)
    (hsame : ∀ q answer, q ≠ .container → (answers q answer ↔ answers' q answer)) {a : α} :
    x.Gives answers a ↔ x.Gives answers' a := by
  induction x with
  | done value => rw [gives_done, gives_done]
  | fail error => exact ⟨nofun, nofun⟩
  | ask q next ih =>
    constructor
    · intro hgives
      cases hgives with
      | ask possible hnext =>
        exact .ask ((hsame _ _ h.1).mp possible) ((ih _ (h.2 _)).mp hnext)
    · intro hgives
      cases hgives with
      | ask possible hnext =>
        exact .ask ((hsame _ _ h.1).mpr possible) ((ih _ (h.2 _)).mpr hnext)

/-- Without the container, the answers of the source tell what a resolution comes to, and nothing is known
of containers afterwards that has not been known before. -/
theorem runOn (h : x.ContainerFree) (hd : d.Alike s d) :
    (∀ a, (x.runOn d).1 = .ok a ↔ x.Gives s.answers a) ∧ d.Alike s (x.runOn d).2 := by
  induction x generalizing d with
  | done value =>
    refine ⟨fun a => ?_, hd⟩
    rw [gives_done]
    exact Except.ok.injEq .. |>.to_iff
  | fail error => exact ⟨fun a => ⟨nofun, nofun⟩, hd⟩
  | ask q next ih =>
    have hblind := q.ask_blind h.1
    obtain ⟨hresult, hafter, hsame⟩ := hblind.runOn (q.ask_settled_of_ne h.1) hd.left
    unfold Resolution.runOn
    rcases hrun : q.ask.runOn d with ⟨r, d'⟩
    rw [hrun] at hresult hafter hsame
    have halike : d.Alike s d' := ⟨hd.left, hafter, hsame.symm⟩
    cases r with
    | error error =>
      refine ⟨fun a => ⟨fun hok => (by cases hok), fun hgives => ?_⟩, halike⟩
      cases hgives with
      | ask possible => cases hresult.trans possible
    | ok answer =>
      obtain ⟨hiff, hrest⟩ := ih answer (h.2 answer) halike.refl_right
      refine ⟨fun a => (hiff a).trans ⟨fun hnext => .ask hresult.symm hnext, fun hgives => ?_⟩,
        halike.trans hrest⟩
      cases hgives with
      | ask possible hnext =>
        cases hresult.trans possible
        exact hnext

end ContainerFree

end Resolution

/-- The answers that a directory gives as long as nothing else is asked. -/
def Directory.presentAnswers (d : Directory) : Answers :=
  fun q answer => (q.ask.runOn d).1 = .ok answer

namespace Resolution

variable {x : Resolution α} {y : Resolution β} {s : Source} {d : Directory} {first : Bool}

theorem ContainerFree.gives_present (h : x.ContainerFree) (hd : d.Alike s d) {a : α} :
    x.Gives d.presentAnswers a ↔ x.Gives s.answers a := by
  refine h.gives_congr fun q answer hq => ?_
  have hresult := ((q.ask_blind hq).runOn (q.ask_settled_of_ne hq) hd.left).1
  unfold Directory.presentAnswers Source.answers
  rw [hresult]

/-- The container is never asked for, or else it is asked for once and before everything else. -/
def Asks (x : Resolution α) : (first : Bool) → Prop
  | false => x.ContainerFree
  | true => ∃ next, x = .ask .container next ∧ ∀ answer, (next answer).ContainerFree

namespace Asks

theorem bind {f : α → Resolution β} (hx : x.Asks first) (hf : ∀ a, (f a).ContainerFree) :
    (x >>= f).Asks first := by
  cases first with
  | false => exact ContainerFree.bind hx hf
  | true =>
    obtain ⟨next, rfl, hnext⟩ := hx
    exact ⟨fun answer => (next answer).bind f, rfl, fun answer => (hnext answer).bind hf⟩

/-- The present answers tell what the resolution comes to, since none of them is asked for twice that may
change in between. -/
theorem runOn (h : x.Asks first) (hd : d.Alike s d) {a : α} :
    (x.runOn d).1 = .ok a ↔ x.Gives d.presentAnswers a := by
  cases first with
  | false =>
    have hfree : x.ContainerFree := h
    rw [hfree.gives_present hd]
    exact (hfree.runOn hd).1 a
  | true =>
    obtain ⟨next, rfl, hnext⟩ := h
    have hafter := (Question.container.ask_agrees d d hd).2
    rcases hrun : Question.container.ask.runOn d with ⟨r, d'⟩
    rw [hrun] at hafter
    unfold Resolution.runOn
    rw [hrun]
    cases r with
    | error error =>
      refine ⟨fun hok => (by cases hok), fun hgives => ?_⟩
      cases hgives with
      | ask possible =>
        have hfailed : (Question.container.ask.runOn d).1 = .ok _ := possible
        rw [hrun] at hfailed
        cases hfailed
    | ok answer =>
      have hrest := hnext answer
      have hcontinue : ((next answer).runOn d').1 = .ok a ↔ (next answer).Gives d.presentAnswers a :=
        ((hrest.runOn hafter).1 a).trans (hrest.gives_present hd).symm
      refine hcontinue.trans ⟨fun hgives => .ask ?_ hgives, fun hgives => ?_⟩
      · show (Question.container.ask.runOn d).1 = .ok answer
        rw [hrun]
      · cases hgives with
        | ask possible hgives =>
          have hanswer : (Question.container.ask.runOn d).1 = .ok _ := possible
          rw [hrun] at hanswer
          cases hanswer
          exact hgives

/-- Two resolutions that ask for the container alike leave directories that are alike. -/
theorem alike (hx : x.Asks first) (hy : y.Asks first) (hd : d.Alike s d) :
    (x.runOn d).2.Alike s (y.runOn d).2 := by
  cases first with
  | false =>
    have hx : x.ContainerFree := hx
    have hy : y.ContainerFree := hy
    exact (hx.runOn hd).2.symm.trans (hy.runOn hd).2
  | true =>
    obtain ⟨next, rfl, hnext⟩ := hx
    obtain ⟨next', rfl, hnext'⟩ := hy
    have hafter := (Question.container.ask_agrees d d hd).2
    rcases hrun : Question.container.ask.runOn d with ⟨r, d'⟩
    rw [hrun] at hafter
    unfold Resolution.runOn
    rw [hrun]
    cases r with
    | error error => exact hafter
    | ok answer => exact ((hnext answer).runOn hafter).2.symm.trans ((hnext' answer).runOn hafter).2

end Asks

end Resolution

/-! ### Readers -/

namespace TokenReader

/-- The container is never asked for, whatever the tokens and the answers are. -/
def ContainerFree (x : TokenReader α) : Prop :=
  ∀ source tokens, (x source tokens).ContainerFree

namespace ContainerFree

theorem pure (a : α) : ContainerFree (pure a : TokenReader α) :=
  fun _ _ => trivial

theorem bind {x : TokenReader α} {f : α → TokenReader β} (hx : ContainerFree x)
    (hf : ∀ a, ContainerFree (f a)) : ContainerFree (x >>= f) :=
  fun source tokens => (hx source tokens).bind fun read => (hf read.1 source read.2.1).bind fun _ => trivial

theorem lift {x : Resolution α} (h : x.ContainerFree) :
    ContainerFree (liftM x : TokenReader α) :=
  fun _ _ => h.bind fun _ => trivial

theorem reject (e : SemanticError) : ContainerFree (liftM (Resolution.reject e : Resolution α)) :=
  fun _ _ => trivial

/-- Nothing is asked behind an error. -/
theorem reject_bind {e : SemanticError} {f : α → TokenReader β} :
    ContainerFree (liftM (Resolution.reject e : Resolution α) >>= f) :=
  fun _ _ => trivial

theorem malformed : ContainerFree (malformed : TokenReader α) :=
  fun _ _ => trivial

theorem peekAt (n : Nat) : ContainerFree (peekAt n) :=
  fun _ _ => trivial

theorem next : ContainerFree next := by
  intro source tokens
  unfold TokenReader.next
  split
  · trivial
  · split <;> trivial

theorem sees (kind : TokenKind) : ContainerFree (sees kind) :=
  (peekAt 0).bind fun _ => .pure _

theorem skips (kind : TokenKind) : ContainerFree (skips kind) := by
  refine (sees kind).bind fun seen => ?_
  split
  · exact next.bind fun _ => .pure true
  · exact .pure false

theorem expect (kind : TokenKind) : ContainerFree (expect kind) := by
  refine (sees kind).bind fun seen => ?_
  split
  · exact next
  · exact malformed

theorem foldWhile {select : σ → Token → Option (TokenReader σ)}
    (hselect : ∀ state t step, select state t = some step → ContainerFree step) (state : σ) :
    ContainerFree (foldWhile select state) := by
  intro source tokens
  induction hlength : tokens.length using Nat.strongRecOn generalizing state tokens with
  | ind n ih =>
    unfold TokenReader.foldWhile
    cases tokens with
    | nil => trivial
    | cons t ts =>
      dsimp only
      split
      · trivial
      · rename_i step hstep
        refine (hselect _ _ _ hstep source ts).bind fun read => ?_
        have hshorter : read.2.1.length < n := by
          have hle := read.2.2
          rw [List.length_cons] at hlength
          omega
        exact (ih _ hshorter read.1 read.2.1 rfl).bind fun _ => trivial

theorem foldSeparated {separator : TokenKind} {step : σ → TokenReader σ}
    (hstep : ∀ state, ContainerFree (step state)) (state : σ) :
    ContainerFree (foldSeparated separator step state) := by
  refine (hstep state).bind fun state => foldWhile (fun state t step h => ?_) state
  split at h
  · cases h
    exact hstep state
  · cases h

theorem finish : ContainerFree finish := by
  refine (sees _).bind fun seen => ?_
  split
  · exact .pure ()
  · exact malformed

theorem readAll {x : TokenReader α} (h : ContainerFree x) (text : String) :
    (readAll x text).ContainerFree := by
  refine (Resolution.ContainerFree.ofGrammar _).bind fun tokens => (h text tokens).bind fun read => ?_
  exact (finish text read.2.1).bind fun _ => trivial

end ContainerFree

end TokenReader

/-! ### Keys and arguments -/

section Parts

open TokenReader (ContainerFree)
open TokenReader.ContainerFree

variable (aliases : AliasTable)

theorem keyPredicate_containerFree (k : KeyProperty) (t : Token) :
    (keyPredicate aliases k t).ContainerFree := by
  have hchecked : ∀ kind text, (checkedKey k kind text).ContainerFree := by
    intro kind text
    unfold checkedKey
    split <;> trivial
  have hkind : (keyKind k).ContainerFree := by
    unfold keyKind
    dsimp only
    split
    · trivial
    · refine (Resolution.ContainerFree.requireType _).bind fun type => ?_
      split <;> trivial
  refine hkind.bind fun kind => ?_
  dsimp only
  split
  · exact (Resolution.ContainerFree.require _ _).bind fun text =>
      (hchecked kind text).bind fun _ => trivial
  · exact (hchecked kind _).bind fun _ => trivial
  · exact (hchecked kind _).bind fun _ => trivial
  · trivial

theorem namedKeys_containerFree (keys : List KeyProperty) : ContainerFree (namedKeys aliases keys) := by
  refine (foldSeparated (fun read => ?_) []).bind fun predicates => ?_
  · refine (expect _).bind fun name => (expect _).bind fun _ => ?_
    split
    · exact .lift trivial
    · split
      · exact .lift trivial
      · exact next.bind fun t => (lift (keyPredicate_containerFree aliases _ t)).bind fun _ => .pure _
  · split
    · exact .lift trivial
    · exact .pure _

theorem key_containerFree (type : EntityType) : ContainerFree (key aliases type) := by
  refine (expect _).bind fun _ => (sees _).bind fun empty => ?_
  dsimp only
  split
  · exact reject_bind
  · refine (sees _).bind fun _ => (peekAt 1).bind fun _ => ?_
    split
    · exact (namedKeys_containerFree aliases type.keys).bind fun _ => (expect _).bind fun _ => .pure _
    · split
      · refine next.bind fun t => (lift (keyPredicate_containerFree aliases _ t)).bind fun _ => ?_
        exact (pure _).bind fun _ => (expect _).bind fun _ => .pure _
      · exact reject_bind

theorem rawArguments_containerFree : ContainerFree rawArguments := by
  refine (expect _).bind fun _ => (skips _).bind fun empty => ?_
  split
  · exact .pure []
  · refine (foldSeparated (fun read => ?_) []).bind fun _ => (expect _).bind fun _ => .pure _
    refine (expect _).bind fun _ => (expect _).bind fun _ => next.bind fun _ => ?_
    split
    · exact malformed
    · exact .pure _

theorem argumentsOf_containerFree (f : Function) (raw : List (String × Token)) :
    (argumentsOf f raw).ContainerFree := by
  have hkind : ∀ p, (parameterKind? p).ContainerFree := by
    intro p
    unfold parameterKind?
    split
    · trivial
    · exact (Resolution.ContainerFree.requireType _).bind fun _ => trivial
  refine .mapM (fun pair => (Resolution.ContainerFree.require _ _).bind fun parameter => ?_) raw
  have hliteral : ∀ {f : Option PrimitiveKind → Resolution Argument}, (f none).ContainerFree →
      (∀ kind, (f (some kind)).ContainerFree) → (parameterKind? parameter >>= f).ContainerFree := by
    intro f hnone hsome
    refine (hkind parameter).bind fun kind => ?_
    cases kind with
    | none => exact hnone
    | some kind => exact hsome kind
  split
  · trivial
  · exact hliteral trivial fun kind => by dsimp only; split <;> trivial
  · exact hliteral trivial fun kind => by dsimp only; split <;> trivial
  · trivial

/-! ### Segments -/

theorem functionResource_containerFree (f : Function) (byImport : Option Csdl.FunctionImport)
    (raw : List (String × Token)) : ContainerFree (functionResource aliases f byImport raw) := by
  refine (lift (argumentsOf_containerFree f raw)).bind fun arguments => ?_
  refine (lift (.requireType _)).bind fun returnType => (sees _).bind fun opens => ?_
  split
  · split
    · split
      · exact (key_containerFree aliases _).bind fun _ => .pure _
      · exact reject_bind
    · exact reject_bind
  · exact (pure _).bind fun _ => .pure _

theorem actionResource_containerFree (a : Action) (byImport : Option Csdl.ActionImport) :
    (actionResource a byImport).ContainerFree :=
  (Resolution.ContainerFree.optionMapM (fun _ => .requireType _) _).bind fun _ => trivial

theorem unboundOperation_containerFree (text : String) :
    ContainerFree (unboundOperation aliases text) := by
  refine (lift (.requireName text)).bind fun name => (sees _).bind fun opens => ?_
  split
  · refine rawArguments_containerFree.bind fun raw => (lift (.answerTo (by simp))).bind fun found => ?_
    exact (lift (.require _ found)).bind fun f => functionResource_containerFree aliases f none raw
  · refine (lift (.answerTo (by simp))).bind fun found => (lift (.require _ found)).bind fun a => ?_
    exact lift (actionResource_containerFree a none)

theorem boundOperation_containerFree (name : QualifiedName) (binding : Binding) :
    ContainerFree (boundOperation aliases name binding) := by
  refine (sees _).bind fun opens => ?_
  split
  · refine rawArguments_containerFree.bind fun raw => (lift (.answerTo (by simp))).bind fun found => ?_
    exact (lift (.require _ found)).bind fun f => functionResource_containerFree aliases f none raw
  · refine (lift (.answerTo (by simp))).bind fun found => (lift (.require _ found)).bind fun a => ?_
    exact lift (actionResource_containerFree a none)

theorem entitySetResource_containerFree (set : EntitySet) :
    ContainerFree (entitySetResource aliases set) := by
  refine (lift (.requireEntityType _)).bind fun type => (sees _).bind fun opens => ?_
  split
  · exact (key_containerFree aliases type).bind fun _ => .pure _
  · exact (pure _).bind fun _ => .pure _

theorem containerResource_containerFree (c : Container) (name : String) :
    ContainerFree (containerResource aliases c name) := by
  unfold containerResource
  split
  · exact entitySetResource_containerFree aliases _
  · split
    · refine (sees _).bind fun opens => ?_
      split
      · exact reject _
      · exact lift ((Resolution.ContainerFree.requireEntityType _).bind fun _ => trivial)
    · split
      · refine (lift (.answerTo (by simp))).bind fun found => (lift (.require _ found)).bind fun a => ?_
        refine (skips _).bind fun opens => ?_
        have haction := actionResource_containerFree a
        dsimp only
        split
        · exact (expect _).bind fun _ => lift (haction _)
        · exact lift (haction _)
      · split
        · refine rawArguments_containerFree.bind fun raw => ?_
          refine (lift (.answerTo (by simp))).bind fun found => (lift (.require _ found)).bind fun f => ?_
          exact functionResource_containerFree aliases f _ raw
        · exact reject _

theorem castSegment_containerFree (previous : Resource) (name : String) (type : ModelType) :
    ContainerFree (castSegment aliases previous name type) := by
  refine (lift (.ofSemantic _)).bind fun narrowed => (sees _).bind fun opens => ?_
  split
  · split
    · split
      · exact (key_containerFree aliases _).bind fun _ => .pure _
      · exact reject _
    · exact reject _
  · exact .pure narrowed

theorem propertyResource_containerFree (owner : StructuredType) (name : String) :
    (propertyResource owner name).ContainerFree := by
  unfold propertyResource
  split
  · exact (Resolution.ContainerFree.requireType _).bind fun _ => trivial
  · split
    · exact (Resolution.ContainerFree.requireEntityType _).bind fun _ => trivial
    · trivial

theorem propertySegment_containerFree (previous : Resource) (name : String) :
    ContainerFree (propertySegment aliases previous name) := by
  refine (lift (.require _ _)).bind fun type => (lift (.require _ _)).bind fun owner => ?_
  dsimp only
  split
  · exact reject_bind
  · refine (lift (propertyResource_containerFree owner name)).bind fun found => ?_
    refine (lift (.require _ found)).bind fun resource => (sees _).bind fun opens => ?_
    split
    · split
      · split
        · exact (key_containerFree aliases _).bind fun _ => .pure _
        · exact reject _
      · exact reject _
    · exact .pure resource

theorem dollarSegment_containerFree (previous : Resource) (name : String) :
    (dollarSegment previous name).ContainerFree := by
  unfold dollarSegment
  dsimp only
  repeat' split
  all_goals trivial

theorem nextSegment_containerFree (previous : Resource) :
    ContainerFree (nextSegment aliases previous) := by
  refine next.bind fun t => ?_
  dsimp only
  split
  · exact fun _ _ => trivial
  · split
    · exact (lift (dollarSegment_containerFree previous _)).bind fun _ => .pure _
    · split
      · refine (lift (.requireName _)).bind fun name => (lift (.require _ _)).bind fun owner => ?_
        refine (lift (.answerTo (by simp))).bind fun found => ?_
        cases found with
        | some type => exact (castSegment_containerFree aliases previous _ type).bind fun _ => .pure _
        | none => exact (boundOperation_containerFree aliases name _).bind fun _ => .pure _
      · exact (propertySegment_containerFree aliases previous _).bind fun _ => .pure _
    · exact malformed

theorem followSegments_containerFree (last : Resource) (earlier : List Resource)
    (segments : List String) : (followSegments aliases last earlier segments).ContainerFree := by
  induction segments generalizing last earlier with
  | nil => trivial
  | cons segment segments ih =>
    unfold followSegments
    split
    · trivial
    · refine (readAll (nextSegment_containerFree aliases last) segment).bind fun effect => ?_
      cases effect with
      | narrow last => exact ih last earlier
      | add next => exact ih next (last :: earlier)

/-- Do the tokens start with a simple name? -/
def startsSimply : List Token → Bool
  | t :: _ => t.kind == .identifier && !isQualified t.text
  | [] => false

/-- A simple name at the start of a path asks for the container, and that before everything else. -/
theorem firstSegment_asks (source : String) (ts : List Token) :
    (firstSegment aliases source ts).Asks (startsSimply ts) := by
  cases ts with
  | nil => trivial
  | cons t ts =>
    obtain ⟨kind, name, offset, spaced⟩ := t
    cases kind
    case identifier =>
      have hstart : firstSegment aliases source (⟨.identifier, name, offset, spaced⟩ :: ts) =
          ((if isQualified name then unboundOperation aliases name
            else (do containerResource aliases (← requireContainer) name)) source ts >>= fun read =>
              pure (read.1, ⟨read.2.1, Nat.le_trans read.2.2 (Nat.le_succ _)⟩)) := rfl
      rw [hstart]
      refine Resolution.Asks.bind ?_ fun _ => trivial
      cases hname : isQualified name with
      | true =>
        rw [startsSimply, hname]
        exact unboundOperation_containerFree aliases name source ts
      | false =>
        rw [startsSimply, hname]
        have hasks : requireContainer.Asks true :=
          ⟨_, rfl, fun answer => Resolution.ContainerFree.require _ answer⟩
        refine Resolution.Asks.bind (hasks.bind fun _ => trivial) fun read => ?_
        exact (containerResource_containerFree aliases read.1 name source read.2.1).bind fun _ => trivial
    all_goals trivial

/-- Is the container asked for if a path starts with this segment? -/
def asksContainer (first : String) : Bool :=
  match tokenize first with
  | .ok ts => startsSimply ts
  | .error _ => false

/-- A path that starts with a simple name asks for the container, and that before everything else. -/
theorem resourcePath_asks (first : String) (segments : List String) :
    (resourcePath aliases first segments).Asks (asksContainer first) := by
  refine Resolution.Asks.bind ?_ fun r => followSegments_containerFree aliases r [] segments
  unfold TokenReader.readAll asksContainer
  cases tokenize first with
  | error e => trivial
  | ok ts =>
    show ((firstSegment aliases first ts : Resolution _) >>= _).Asks _
    exact (firstSegment_asks aliases first ts).bind fun read =>
      (finish first read.2.1).bind fun _ => trivial

end Parts

end ODataRequest
