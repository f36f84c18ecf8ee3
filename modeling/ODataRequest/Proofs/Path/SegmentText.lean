import ODataRequest.Proofs.Path.Keyed

/-!
# ODataRequest.Proofs.Path.SegmentText

Segments are read back from their texts. Whatever alias a segment has been written with, the text of
the resource that it leads to has the actual name of what it refers to, with arguments and a key
behind it, and this text leads to the same resource (`firstSegment_rewritten`,
`nextSegment_rewritten`).
-/

namespace ODataRequest

open TokenReader

variable {answers : Answers} {aliases : AliasTable} {source : String} {ts rest : List Token}
variable {actual : QualifiedName → QualifiedName}

/-! ### Operations -/

/-- A call of a function that is found by the names of the arguments that follow. -/
def calledFunction (aliases : AliasTable) (byImport : Option Csdl.FunctionImport)
    (missing : SemanticError) (find : List String → Resolution (Option Function)) :
    TokenReader Resource := do
  let raw ← rawArguments
  let f ← Resolution.require missing (← find (raw.map (·.1)))
  functionResource aliases f byImport raw

variable {find : List String → Resolution (Option Function)} {missing : SemanticError}

theorem reads_calledFunction_iff {byImport : Option Csdl.FunctionImport} {r : Resource} :
    Reads answers (calledFunction aliases byImport missing find) source ts r rest ↔
      ∃ raw between f, Reads answers rawArguments source ts raw between ∧
        (find (raw.map (·.1))).Gives answers (some f) ∧
        Reads answers (functionResource aliases f byImport raw) source between r rest := by
  unfold calledFunction
  rw [reads_bind]
  simp only [reads_require_bind, exists_and_left]

/-- A call is read back behind its name, as long as the same function is found. -/
theorem calledFunction_rewritten (tell : answers.TellPlainKeys) (portable : PortableTokens ts)
    {byImport : Option Csdl.FunctionImport} {r : Resource}
    (h : Reads answers (calledFunction aliases byImport missing find) source ts r rest) :
    ∃ names f text, (find names).Gives answers (some f) ∧
      r.text = (byImport.map (·.name.text)).getD f.name.text ++ text ∧
      ∀ missing' find', (find' names).Gives answers (some f) →
        ReadsBehind (fun source ts rest => (firstToken ts).kind = .openParen ∧ Reads answers
          (calledFunction aliases byImport missing' find') source ts r rest) text := by
  obtain ⟨raw, between, f, hraw, hfind, hfunction⟩ := reads_calledFunction_iff.mp h
  obtain ⟨arguments, returnType, harguments, htype, hkeyed⟩ :=
    reads_functionResource_iff.mp hfunction
  obtain ⟨opening, us, closing, rfl, -⟩ := namedValues_of_rawArguments hraw
  obtain ⟨content, hcontent⟩ := arguments_rewritten portable hraw harguments
  have hallowed : ∀ type, ReturnsEntities f returnType type →
      PlainKeys type.keys ∧ (plainCall f byImport arguments returnType).Unkeyed := by
    rintro type ⟨rfl, -⟩
    exact ⟨tell.type htype, ⟨rfl, rfl, rfl⟩⟩
  obtain ⟨text, hr, hbehind⟩ := hkeyed.rewritten hallowed portable.of_append.2.of_cons
  refine ⟨raw.map (·.1), f, argumentText arguments ++ text, hfind, ?_, fun missing' find' hfind' =>
    hbehind.group hcontent.inner hcontent.text ?_⟩
  · rw [hr, plainCall, Resource.text_eq rfl, Resource.plainText_eq]
    simp [Resource.segment, Resource.callText, Resource.casts, Resource.keys, Casts.none, castText,
      keyText, String.append_assoc]
  · intro source opening us closing ts rest hopening hclosing hus hkeyed
    obtain ⟨raw', hraw', hnames, harguments'⟩ := hcontent.reads hopening hclosing hus
    refine ⟨hopening, reads_calledFunction_iff.mpr ⟨raw', ts, f, hraw', by rwa [hnames], ?_⟩⟩
    exact reads_functionResource_iff.mpr ⟨arguments, returnType, harguments', htype, hkeyed⟩

/-- A call of a function of a name if arguments follow, or else of an action. -/
def calledOperation (aliases : AliasTable) (noFunction noAction : SemanticError)
    (findFunction : QualifiedName → List String → Resolution (Option Function))
    (findAction : QualifiedName → Resolution (Option Action)) (name : QualifiedName) :
    TokenReader Resource := do
  if ← sees .openParen then calledFunction aliases none noFunction (findFunction name)
  else
    let a ← Resolution.require noAction (← findAction name)
    actionResource a none

theorem gives_actionResource_text {a : Action} {byImport : Option Csdl.ActionImport} {r : Resource}
    (h : (actionResource a byImport).Gives answers r) :
    r.text = (byImport.map (·.name.text)).getD a.name.text := by
  unfold actionResource at h
  obtain ⟨returnType, -, h⟩ := Resolution.gives_bind.mp h
  cases Resolution.gives_pure.mp h
  simp [Resource.text, Resource.plainText, Resource.segment, Resource.casts, Resource.keys,
    Casts.none, castText, keyText]

theorem reads_calledAction_iff {findAction : Resolution (Option Action)} {r : Resource}
    {byImport : Option Csdl.ActionImport} :
    Reads answers (do
      let a ← Resolution.require missing (← findAction)
      actionResource a byImport) source ts r rest ↔
      ∃ a, findAction.Gives answers (some a) ∧ (actionResource a byImport).Gives answers r ∧
        rest = ts := by
  rw [reads_require_bind]
  simp only [reads_lift]

/-- A call of an operation is read back behind its actual name. -/
theorem calledOperation_rewritten (tell : answers.TellPlainKeys) (portable : PortableTokens ts)
    {findFunction : QualifiedName → List String → Resolution (Option Function)}
    {findAction : QualifiedName → Resolution (Option Action)} {name : QualifiedName}
    {noFunction noAction : SemanticError} {r : Resource}
    (h : Reads answers (calledOperation aliases noFunction noAction findFunction findAction name)
      source ts r rest)
    (hfunction : ∀ names f, (findFunction name names).Gives answers (some f) →
      (findFunction (actual name) names).Gives answers (some f) ∧ f.name = actual name)
    (haction : ∀ a, (findAction name).Gives answers (some a) →
      (findAction (actual name)).Gives answers (some a) ∧ a.name = actual name) :
    ∃ behind, r.text = (actual name).text ++ behind ∧ ∀ noFunction noAction,
      ReadsBehind (fun source ts rest => Reads answers (calledOperation aliases noFunction noAction
        findFunction findAction (actual name)) source ts r rest) behind := by
  unfold calledOperation at h
  rcases reads_ifSees.mp h with ⟨-, h⟩ | ⟨-, h⟩
  · obtain ⟨names, f, behind, hfind, htext, hbehind⟩ := calledFunction_rewritten tell portable h
    obtain ⟨hfind', hname⟩ := hfunction names f hfind
    refine ⟨behind, by rw [htext, ← hname]; rfl, fun noFunction noAction => ?_⟩
    refine (hbehind noFunction _ hfind').mono fun source ts rest hreads => ?_
    unfold calledOperation
    exact reads_ifSees.mpr (Or.inl hreads)
  · obtain ⟨a, hfind, hgives, -⟩ := reads_calledAction_iff.mp h
    obtain ⟨hfind', hname⟩ := haction a hfind
    refine ⟨"", by simp [gives_actionResource_text hgives, hname], fun noFunction noAction => ?_⟩
    refine .nil fun source rest hrest => ?_
    unfold calledOperation
    refine reads_ifSees.mpr (Or.inr ⟨hrest, ?_⟩)
    exact reads_calledAction_iff.mpr ⟨a, hfind', hgives, rfl⟩

theorem reads_unboundOperation_iff {text : String} {r : Resource} :
    Reads answers (unboundOperation aliases text) source ts r rest ↔
      ∃ name, QualifiedName.ofString? text = some name ∧ Reads answers
        (calledOperation aliases (.resourceNotFound text) (.resourceNotFound text)
          (fun name names => Resolution.answerTo (.unboundFunction name names))
          (fun name => Resolution.answerTo (.unboundAction name)) name) source ts r rest := by
  unfold unboundOperation
  rw [reads_lift_bind]
  simp only [Resolution.gives_requireName]
  rfl

/-- An unbound operation is read back with its actual name. -/
theorem unboundOperation_rewritten (named : answers.NamedBy actual) (tell : answers.TellPlainKeys)
    (portable : PortableTokens ts) {text : String} {r : Resource}
    (h : Reads answers (unboundOperation aliases text) source ts r rest) :
    ∃ name : QualifiedName, ∃ behind, r.text = name.text ++ behind ∧
      ReadsBehind (fun source ts rest =>
        Reads answers (unboundOperation aliases name.text) source ts r rest) behind := by
  obtain ⟨name, -, h⟩ := reads_unboundOperation_iff.mp h
  obtain ⟨behind, htext, hbehind⟩ := calledOperation_rewritten tell portable h
    (fun _ _ hf => (named.unboundFunction (Resolution.gives_answerTo.mp hf)).imp_left
      Resolution.gives_answerTo.mpr)
    (fun _ ha => (named.unboundAction (Resolution.gives_answerTo.mp ha)).imp_left
      Resolution.gives_answerTo.mpr)
  refine ⟨actual name, behind, htext, (hbehind (.resourceNotFound (actual name).text)
    (.resourceNotFound (actual name).text)).mono fun source ts rest hreads => ?_⟩
  exact reads_unboundOperation_iff.mpr ⟨actual name, QualifiedName.ofString?_text _, hreads⟩

theorem boundOperation_eq (name : QualifiedName) (binding : Binding) :
    boundOperation aliases name binding =
      calledOperation aliases (.functionNotFound name.text) (.actionNotFound name.text)
        (fun name names => Resolution.answerTo (.boundFunction name binding names))
        (fun name => Resolution.answerTo (.boundAction name binding)) name := rfl

/-- A bound operation is read back with its actual name. -/
theorem boundOperation_rewritten (named : answers.NamedBy actual) (tell : answers.TellPlainKeys)
    (portable : PortableTokens ts) {name : QualifiedName} {binding : Binding} {r : Resource}
    (h : Reads answers (boundOperation aliases name binding) source ts r rest) :
    ∃ behind, r.text = (actual name).text ++ behind ∧ ReadsBehind (fun source ts rest =>
      Reads answers (boundOperation aliases (actual name) binding) source ts r rest) behind := by
  rw [boundOperation_eq] at h
  obtain ⟨behind, htext, hbehind⟩ := calledOperation_rewritten tell portable h
    (fun _ _ hf => (named.boundFunction (Resolution.gives_answerTo.mp hf)).imp_left
      Resolution.gives_answerTo.mpr)
    (fun _ ha => (named.boundAction (Resolution.gives_answerTo.mp ha)).imp_left
      Resolution.gives_answerTo.mpr)
  refine ⟨behind, htext, ?_⟩
  rw [boundOperation_eq]
  exact hbehind _ _

/-! ### First segment -/

/-- The resource of an entity set is read back behind the name of the set. -/
theorem entitySetResource_rewritten (tell : answers.TellPlainKeys) (portable : PortableTokens ts)
    {set : EntitySet} {r : Resource}
    (h : Reads answers (entitySetResource aliases set) source ts r rest) :
    ∃ behind, r.text = set.name.text ++ behind ∧ ReadsBehind (fun source ts rest =>
      Reads answers (entitySetResource aliases set) source ts r rest) behind := by
  obtain ⟨type, htype, hkeyed⟩ := reads_entitySetResource_iff.mp h
  have hallowed : ∀ type', type' = type →
      PlainKeys type'.keys ∧ (Resource.entitySet set type [] Casts.none).Unkeyed := by
    rintro _ rfl
    exact ⟨tell.entityType htype, ⟨rfl, rfl, rfl⟩⟩
  obtain ⟨behind, htext, hbehind⟩ := hkeyed.rewritten hallowed portable
  refine ⟨behind, ?_, hbehind.mono fun source ts rest hkeyed => ?_⟩
  · rw [htext, Resource.text_eq rfl, Resource.plainText_eq]
    simp [Resource.segment, Resource.callText, Resource.casts, Resource.keys, Casts.none, castText,
      keyText]
  · exact reads_entitySetResource_iff.mpr ⟨type, htype, hkeyed⟩

theorem gives_singletonResource_text {single : Singleton} {r : Resource}
    (h : (singletonResource single).Gives answers r) : r.text = single.name.text := by
  unfold singletonResource at h
  obtain ⟨type, -, h⟩ := Resolution.gives_bind.mp h
  cases Resolution.gives_pure.mp h
  simp [Resource.text, Resource.plainText, Resource.segment, Resource.casts, Resource.keys,
    castText, keyText]

/-- A call of an action by the name of an import, with parentheses or without. -/
def importedAction (missing : SemanticError) (byImport : Csdl.ActionImport) :
    TokenReader Resource := do
  let a ← Resolution.require missing (← Resolution.answerTo (.unboundAction byImport.action))
  if ← skips .openParen then
    let _ ← expect .closeParen
  actionResource a (some byImport)

theorem gives_of_reads_importedAction {byImport : Csdl.ActionImport} {r : Resource}
    (h : Reads answers (importedAction missing byImport) source ts r rest) :
    ∃ a, (Resolution.answerTo (.unboundAction byImport.action)).Gives answers (some a) ∧
      (actionResource a (some byImport)).Gives answers r := by
  unfold importedAction at h
  obtain ⟨a, hfound, h⟩ := reads_require_bind.mp h
  simp only [reads_bind, reads_lift, reads_ite] at h
  obtain ⟨-, -, -, ⟨-, -, -, -, hgives, -⟩ | ⟨-, hgives, -⟩⟩ := h
  · exact ⟨a, hfound, hgives⟩
  · exact ⟨a, hfound, hgives⟩

/-- Parentheses behind the name of an action import are left out. -/
theorem importedAction_rewritten {byImport : Csdl.ActionImport} {r : Resource}
    (h : Reads answers (importedAction missing byImport) source ts r rest) :
    r.text = byImport.name.text ∧ ReadsBehind (fun source ts rest =>
      Reads answers (importedAction missing byImport) source ts r rest) "" := by
  have hskips : TokenKind.openParen ≠ .endOfText := by decide
  obtain ⟨a, hfound, hgives⟩ := gives_of_reads_importedAction h
  refine ⟨gives_actionResource_text hgives, .nil fun source rest hrest => ?_⟩
  unfold importedAction
  refine reads_require_bind.mpr ⟨a, hfound, reads_bind.mpr ⟨false, rest, (reads_skips hskips).mpr ?_,
    ?_⟩⟩
  · exact Or.inr ⟨rfl, hrest, rfl⟩
  exact reads_lift.mpr ⟨hgives, rfl⟩

/-- The element of a container that a name stands for, and how it is read. -/
inductive ContainerElement (aliases : AliasTable) (c : Container) (name : String) :
    TokenReader Resource → Prop
  | entitySet {set : EntitySet} (found : c.entitySet? name = some set) :
      ContainerElement aliases c name (entitySetResource aliases set)
  | singleton {single : Singleton} (found : c.singleton? name = some single) :
      ContainerElement aliases c name (sees .openParen >>= fun b =>
        if b = true then (Resolution.reject (.keyNotAllowed name) : Resolution Resource)
        else singletonResource single)
  | actionImport {byImport : Csdl.ActionImport} (found : c.actionImport? name = some byImport) :
      ContainerElement aliases c name (importedAction (.actionNotFound name) byImport)
  | functionImport {byImport : Csdl.FunctionImport} (found : c.functionImport? name = some byImport) :
      ContainerElement aliases c name (calledFunction aliases (some byImport) (.functionNotFound name)
        fun names => Resolution.answerTo (.unboundFunction byImport.function names))
  | missing : ContainerElement aliases c name
      (Resolution.reject (.resourceNotFound name) : Resolution Resource)

theorem containerResource_element (aliases : AliasTable) (c : Container) (name : String) :
    ContainerElement aliases c name (containerResource aliases c name) := by
  cases hset : c.entitySet? name with
  | some set =>
    have hform : containerResource aliases c name = entitySetResource aliases set := by
      simp only [containerResource, hset]
    rw [hform]
    exact .entitySet hset
  | none =>
  cases hsingle : c.singleton? name with
  | some single =>
    have hform : containerResource aliases c name = (sees .openParen >>= fun b =>
        if b = true then (Resolution.reject (.keyNotAllowed name) : Resolution Resource)
        else singletonResource single) := by
      simp only [containerResource, hset, hsingle]
    rw [hform]
    exact .singleton hsingle
  | none =>
  cases haction : c.actionImport? name with
  | some byImport =>
    have hform : containerResource aliases c name =
        importedAction (.actionNotFound name) byImport := by
      simp only [containerResource, hset, hsingle, haction]
      rfl
    rw [hform]
    exact .actionImport haction
  | none =>
  cases hfunction : c.functionImport? name with
  | some byImport =>
    have hform : containerResource aliases c name =
        calledFunction aliases (some byImport) (.functionNotFound name) (fun names =>
          Resolution.answerTo (.unboundFunction byImport.function names)) := by
      simp only [containerResource, hset, hsingle, haction, hfunction]
      rfl
    rw [hform]
    exact .functionImport hfunction
  | none =>
    have hform : containerResource aliases c name =
        (Resolution.reject (.resourceNotFound name) : Resolution Resource) := by
      simp only [containerResource, hset, hsingle, haction, hfunction]
    rw [hform]
    exact .missing

/-- What a name of a container stands for is read back behind this name. -/
theorem containerResource_rewritten (tell : answers.TellPlainKeys) (portable : PortableTokens ts)
    {container : Container} {name : String} {r : Resource}
    (h : Reads answers (containerResource aliases container name) source ts r rest) :
    ∃ id : Identifier, ∃ behind, id.text = name ∧ r.text = name ++ behind ∧
      ReadsBehind (fun source ts rest =>
        Reads answers (containerResource aliases container name) source ts r rest) behind := by
  have helement := containerResource_element aliases container name
  generalize containerResource aliases container name = reader at h helement ⊢
  cases helement with
  | @entitySet set found =>
    have hname : set.name.text = name := by simpa using List.find?_some found
    obtain ⟨behind, htext, hbehind⟩ := entitySetResource_rewritten tell portable h
    exact ⟨set.name, behind, hname, by rw [htext, hname], hbehind⟩
  | @singleton single found =>
    have hname : single.name.text = name := by simpa using List.find?_some found
    rcases reads_ifSees.mp h with ⟨-, h⟩ | ⟨-, h⟩
    · exact absurd (reads_lift.mp h).1 Resolution.not_gives_reject
    · obtain ⟨hgives, rfl⟩ := reads_lift.mp h
      refine ⟨single.name, "", hname, ?_, .nil fun source rest hrest => ?_⟩
      · rw [gives_singletonResource_text hgives, hname, String.append_empty]
      · exact reads_ifSees.mpr (Or.inr ⟨hrest, reads_lift.mpr ⟨hgives, rfl⟩⟩)
  | @actionImport byImport found =>
    have hname : byImport.name.text = name := by simpa using List.find?_some found
    obtain ⟨htext, hbehind⟩ := importedAction_rewritten h
    exact ⟨byImport.name, "", hname, by rw [htext, hname, String.append_empty], hbehind⟩
  | @functionImport byImport found =>
    have hname : byImport.name.text = name := by simpa using List.find?_some found
    obtain ⟨names, f, behind, hfind, htext, hbehind⟩ := calledFunction_rewritten tell portable h
    refine ⟨byImport.name, behind, hname, by rw [htext, ← hname]; rfl, ?_⟩
    exact (hbehind _ _ hfind).mono fun _ _ _ hreads => hreads.2
  | missing => exact absurd (reads_lift.mp h).1 Resolution.not_gives_reject

/-- A token that names an element of the model is a name. -/
theorem PortableTokens.isName {t : Token} (h : PortableTokens (t :: ts))
    (hkind : t.kind = .identifier) {id : Identifier} (hid : id.text = t.text) : IsName t.text where
  stands := by
    have hword : t.word = Word.identifier t.text := by
      rw [Token.word, hkind]
      rfl
    rw [← hword]
    exact (h t List.mem_cons_self (by simp [hkind]) (by simp [hkind]) (by simp [hkind])
      (by simp [hkind])).stands
  dotted := by
    rw [← hid]
    exact .identifier id

theorem reads_firstSegment_iff {r : Resource} :
    Reads answers (firstSegment aliases) source ts r rest ↔
      ∃ t us, ts = t :: us ∧ t.kind = .identifier ∧
        ((isQualified t.text = true ∧
            Reads answers (unboundOperation aliases t.text) source us r rest) ∨
          (isQualified t.text = false ∧ ∃ container, answers .container (some container) ∧
            Reads answers (containerResource aliases container t.text) source us r rest)) := by
  have hidentifier : TokenKind.identifier ≠ .endOfText := by decide
  unfold firstSegment
  rw [reads_bind]
  simp only [reads_expect hidentifier, reads_ite, reads_lift_bind,
    Resolution.gives_requireContainer, Bool.not_eq_true, and_assoc]

/-- A token of a name. -/
theorem Token.eq_of_word {t : Token} {name : String} (h : t.word = Word.identifier name) :
    t.kind = .identifier ∧ t.text = name :=
  ⟨congrArg Word.kind h, congrArg Word.text h⟩

theorem isQualified_text (q : QualifiedName) : isQualified q.text = true :=
  List.contains_iff_mem.mpr q.dot_mem_text

/-- An identifier is not qualified. -/
theorem Identifier.isQualified_text (id : Identifier) : isQualified id.text = false := by
  obtain ⟨c, cs, hchars, -, hparts⟩ := id.chars
  unfold isQualified
  rw [hchars, List.contains_eq_mem, decide_eq_false_iff_not]
  exact Text.not_mem_of_forall hparts (by decide)

theorem isQualified_of_isSimpleName {text : String} (h : isSimpleName text = true) :
    isQualified text = false := by
  simp only [isSimpleName, Bool.and_eq_true] at h
  exact Identifier.isQualified_text ⟨text, h.1⟩

/-- The first segment is read back: a name and what stands behind it. -/
theorem firstSegment_rewritten (named : answers.NamedBy actual) (tell : answers.TellPlainKeys)
    (portable : PortableTokens ts) {r : Resource}
    (h : Reads answers (firstSegment aliases) source ts r rest) :
    ∃ name behind, IsName name ∧ r.text = name ++ behind ∧ ReadsBehind (fun source ts rest =>
      ∀ t, t.word = Word.identifier name →
        Reads answers (firstSegment aliases) source (t :: ts) r rest) behind := by
  obtain ⟨t, us, rfl, hkind, ⟨-, h⟩ | ⟨hqualified, container, hcontainer, h⟩⟩ :=
    reads_firstSegment_iff.mp h
  · obtain ⟨name, behind, htext, hbehind⟩ :=
      unboundOperation_rewritten named tell portable.of_cons h
    refine ⟨name.text, behind, isName_qualifiedName name, htext, ?_⟩
    refine hbehind.mono fun source ts rest hreads t' ht' => ?_
    obtain ⟨hkind', htext'⟩ := Token.eq_of_word ht'
    refine reads_firstSegment_iff.mpr ⟨t', ts, rfl, hkind', Or.inl ?_⟩
    rw [htext']
    exact ⟨isQualified_text name, hreads⟩
  · obtain ⟨id, behind, hid, htext, hbehind⟩ :=
      containerResource_rewritten tell portable.of_cons h
    refine ⟨t.text, behind, portable.isName hkind hid, htext, ?_⟩
    refine hbehind.mono fun source ts rest hreads t' ht' => ?_
    obtain ⟨hkind', htext'⟩ := Token.eq_of_word ht'
    refine reads_firstSegment_iff.mpr ⟨t', ts, rfl, hkind', Or.inr ?_⟩
    rw [htext']
    exact ⟨hqualified, container, hcontainer, hreads⟩

/-! ### Further segments -/

/-- A cast is read back with the actual name of its type. -/
theorem castSegment_rewritten (tell : answers.TellPlainKeys) (portable : PortableTokens ts)
    {previous r : Resource} {text : String} {name : QualifiedName} {type : ModelType}
    (hsound : previous.Sound) (htype : answers (.type name) (some type))
    (h : Reads answers (castSegment aliases previous text type) source ts r rest) :
    ∃ behind, r.text = previous.text ++ "/" ++ (type.text ++ behind) ∧
      ReadsBehind (fun source ts rest => ∀ text,
        Reads answers (castSegment aliases previous text type) source ts r rest) behind := by
  obtain ⟨narrowed, hcast, hkeyed⟩ := reads_castSegment_iff.mp h
  have hallowed : ∀ entity, TakesKeyAs previous type entity →
      PlainKeys entity.keys ∧ narrowed.Unkeyed := by
    rintro entity ⟨rfl, hcollection, htakesKey⟩
    have huncast := (hsound.cast hcast).uncast
    obtain ⟨rfl, -⟩ := cast_eq_ok hcast
    rw [Resource.isCollection_withCasts] at huncast
    refine ⟨tell.type htype, ?_, ?_, huncast hcollection⟩
    · rw [Resource.takesKey_withCasts, htakesKey]
    · rw [Resource.keys_withCasts]
      exact Resource.keys_eq_nil hcollection
  obtain ⟨behind, htext, hbehind⟩ := hkeyed.rewritten hallowed portable
  refine ⟨behind, by rw [htext, Resource.text_cast hsound.uncast hcast, String.append_assoc], ?_⟩
  exact hbehind.mono fun source ts rest hkeyed text =>
    reads_castSegment_iff.mpr ⟨narrowed, hcast, hkeyed⟩

/-- A property has the text of its name. -/
theorem gives_propertyResource_text {owner : StructuredType} {name : String} {found : Resource}
    (h : (propertyResource owner name).Gives answers (some found)) :
    ∃ id : Identifier, id.text = name ∧ found.text = name := by
  rcases gives_propertyResource h with ⟨p, type', rfl, hp⟩ | ⟨p, target, rfl, hp, -⟩
  · have hid := property?_name hp
    refine ⟨p.name, hid, ?_⟩
    simp [Resource.text, Resource.plainText, Resource.segment, Resource.casts, Resource.keys,
      Casts.none, castText, keyText, hid]
  · have hid := navigationProperty?_name hp
    refine ⟨p.name, hid, ?_⟩
    simp [Resource.text, Resource.plainText, Resource.segment, Resource.casts, Resource.keys,
      Casts.none, castText, keyText, hid]

/-- A property is read back behind its name. -/
theorem propertySegment_rewritten (tell : answers.TellPlainKeys) (portable : PortableTokens ts)
    {previous r : Resource} {name : String}
    (h : Reads answers (propertySegment aliases previous name) source ts r rest) :
    ∃ id : Identifier, ∃ behind, id.text = name ∧ r.text = name ++ behind ∧
      ReadsBehind (fun source ts rest =>
        Reads answers (propertySegment aliases previous name) source ts r rest) behind := by
  obtain ⟨found, hfinds, hkeyed⟩ := reads_propertySegment_iff.mp h
  have ⟨_, type, owner, _, _, hproperty⟩ := hfinds
  have hallowed : ∀ target, LeadsTo found target → PlainKeys target.keys ∧ found.Unkeyed := by
    rintro target ⟨p, keys, casts, rfl, -⟩
    rcases gives_propertyResource hproperty with ⟨_, _, heq, -⟩ | ⟨_, _, heq, -, htarget⟩
    · cases heq
    · cases heq
      exact ⟨tell.entityType htarget, rfl, rfl, rfl⟩
  obtain ⟨id, hid, hfound⟩ := gives_propertyResource_text hproperty
  obtain ⟨behind, htext, hbehind⟩ := hkeyed.rewritten hallowed portable
  refine ⟨id, behind, hid, by rw [htext, hfound], ?_⟩
  exact hbehind.mono fun source ts rest hkeyed =>
    reads_propertySegment_iff.mpr ⟨found, hfinds, hkeyed⟩

theorem gives_dollarSegment_text {previous next : Resource} {name : String}
    (h : (dollarSegment previous name).Gives answers next) :
    next.text = name ∧ '/' ∉ name.toList := by
  unfold dollarSegment at h
  split at h
  · rename_i hname
    split at h
    · cases Resolution.gives_pure.mp h
      rw [hname]
      exact ⟨by simp only [Resource.text], by decide⟩
    · exact absurd h Resolution.not_gives_reject
  split at h
  · rename_i hname
    split at h
    · cases Resolution.gives_pure.mp h
      rw [hname]
      exact ⟨by simp only [Resource.text], by decide⟩
    · exact absurd h Resolution.not_gives_reject
  split at h
  · rename_i hname
    have hvalue : next = .value := by
      split at h
      · split at h
        · exact (Resolution.gives_pure.mp h).symm
        · exact absurd h Resolution.not_gives_reject
      · exact (Resolution.gives_pure.mp h).symm
      · exact (Resolution.gives_pure.mp h).symm
      · exact (Resolution.gives_pure.mp h).symm
      · exact absurd h Resolution.not_gives_reject
    rw [hvalue, hname]
    exact ⟨by simp only [Resource.text], by decide⟩
  · exact absurd h Resolution.not_gives_refuse

theorem reads_qualifiedSegment_iff {previous : Resource} {text : String} {effect : SegmentEffect} :
    Reads answers (qualifiedSegment aliases previous text) source ts effect rest ↔
      ∃ name owner, QualifiedName.ofString? text = some name ∧ previous.type? = some owner ∧
        ((∃ type last, answers (.type name) (some type) ∧
            Reads answers (castSegment aliases previous text type) source ts last rest ∧
            effect = .narrow last) ∨
          (answers (.type name) none ∧ ∃ next, Reads answers
            (boundOperation aliases name ⟨owner.name, previous.isCollection⟩) source ts next rest ∧
            effect = .add next)) := by
  unfold qualifiedSegment
  simp only [reads_lift_bind, Resolution.gives_requireName, Resolution.gives_require]
  constructor
  · rintro ⟨name, hname, owner, howner, found, hfound, h⟩
    refine ⟨name, owner, hname, howner, ?_⟩
    have hfound := Resolution.gives_answerTo.mp hfound
    cases found with
    | some type =>
      obtain ⟨last, hcast, rfl⟩ := reads_bind_pure.mp h
      exact Or.inl ⟨type, last, hfound, hcast, rfl⟩
    | none =>
      obtain ⟨next, hoperation, rfl⟩ := reads_bind_pure.mp h
      exact Or.inr ⟨hfound, next, hoperation, rfl⟩
  · rintro ⟨name, owner, hname, howner, ⟨type, last, hfound, hcast, rfl⟩ |
      ⟨hfound, next, hoperation, rfl⟩⟩
    · exact ⟨name, hname, owner, howner, some type, Resolution.gives_answerTo.mpr hfound,
        reads_bind_pure.mpr ⟨last, hcast, rfl⟩⟩
    · exact ⟨name, hname, owner, howner, none, Resolution.gives_answerTo.mpr hfound,
        reads_bind_pure.mpr ⟨next, hoperation, rfl⟩⟩

/-- What a segment adds to the text of a path that ends with a resource. -/
def SegmentEffect.Adds (previous : Resource) (segment : String) : SegmentEffect → Prop
  | .narrow last => last.text = previous.text ++ "/" ++ segment
  | .add next => next.text = segment

/-- A cast or a bound operation is read back with its actual name. -/
theorem qualifiedSegment_rewritten (named : answers.NamedBy actual) (tell : answers.TellPlainKeys)
    (portable : PortableTokens ts) {previous : Resource} {text : String} {effect : SegmentEffect}
    (hsound : previous.Sound)
    (h : Reads answers (qualifiedSegment aliases previous text) source ts effect rest) :
    ∃ name : QualifiedName, ∃ behind, effect.Adds previous (name.text ++ behind) ∧
      ReadsBehind (fun source ts rest => Reads answers
        (qualifiedSegment aliases previous name.text) source ts effect rest) behind := by
  obtain ⟨name, owner, -, howner, ⟨type, last, htype, hcast, rfl⟩ |
    ⟨htype, next, hoperation, rfl⟩⟩ := reads_qualifiedSegment_iff.mp h
  · obtain ⟨hactual, hname⟩ := named.type htype
    obtain ⟨behind, htext, hbehind⟩ := castSegment_rewritten tell portable hsound htype hcast
    refine ⟨actual name, behind, ?_, hbehind.mono fun source ts rest hreads => ?_⟩
    · show last.text = _
      rw [htext, ModelType.text, hname type rfl]
    · exact reads_qualifiedSegment_iff.mpr ⟨actual name, owner, QualifiedName.ofString?_text _,
        howner, Or.inl ⟨type, last, hactual, hreads _, rfl⟩⟩
  · obtain ⟨behind, htext, hbehind⟩ := boundOperation_rewritten named tell portable hoperation
    refine ⟨actual name, behind, htext, hbehind.mono fun source ts rest hreads => ?_⟩
    exact reads_qualifiedSegment_iff.mpr ⟨actual name, owner, QualifiedName.ofString?_text _,
      howner, Or.inr ⟨(named.type htype).1, next, hreads, rfl⟩⟩

theorem reads_nextSegment_iff {previous : Resource} {effect : SegmentEffect} :
    Reads answers (nextSegment aliases previous) source ts effect rest ↔
      ∃ t us, ts = t :: us ∧ mayFollow previous t.kind = true ∧
        ((t.kind = .dollar ∧ ∃ next, (dollarSegment previous t.text).Gives answers next ∧
            effect = .add next ∧ rest = us) ∨
          (t.kind = .identifier ∧ isQualified t.text = true ∧
            Reads answers (qualifiedSegment aliases previous t.text) source us effect rest) ∨
          (t.kind = .identifier ∧ isQualified t.text = false ∧ ∃ next, Reads answers
            (propertySegment aliases previous t.text) source us next rest ∧
            effect = .add next)) := by
  unfold nextSegment
  simp only [reads_bind, reads_ite, reads_lift, Resolution.not_gives_refuse, false_and,
    exists_false, and_false, false_or, Bool.not_eq_true', Bool.not_eq_false]
  constructor
  · rintro ⟨t, us, hnext, hmay, h⟩
    split at h
    · rename_i hkind
      obtain rfl := (reads_next (by simp [hkind])).mp hnext
      simp only [reads_lift_bind, reads_pure] at h
      obtain ⟨next, hgives, rfl, rfl⟩ := h
      exact ⟨t, _, rfl, hmay, Or.inl ⟨hkind, next, hgives, rfl, rfl⟩⟩
    · rename_i hkind
      obtain rfl := (reads_next (by simp [hkind])).mp hnext
      rcases reads_ite.mp h with ⟨hqualified, h⟩ | ⟨hqualified, h⟩
      · exact ⟨t, us, rfl, hmay, Or.inr (Or.inl ⟨hkind, hqualified, h⟩)⟩
      · obtain ⟨next, hproperty, rfl⟩ := reads_bind_pure.mp h
        exact ⟨t, us, rfl, hmay,
          Or.inr (Or.inr ⟨hkind, by simpa using hqualified, next, hproperty, rfl⟩)⟩
    · exact absurd h not_reads_malformed
  · rintro ⟨t, us, rfl, hmay, h⟩
    have hend : t.kind ≠ .endOfText := by
      rcases h with ⟨hkind, -⟩ | ⟨hkind, -⟩ | ⟨hkind, -⟩ <;> simp [hkind]
    refine ⟨t, us, (reads_next hend).mpr rfl, hmay, ?_⟩
    rcases h with ⟨hkind, next, hgives, rfl, rfl⟩ | ⟨hkind, hqualified, h⟩ |
      ⟨hkind, hqualified, next, hproperty, rfl⟩
    · simp only [hkind]
      exact reads_lift_bind.mpr ⟨next, hgives, reads_pure.mpr ⟨rfl, rfl⟩⟩
    · simp only [hkind, hqualified, if_true]
      exact h
    · simp only [hkind, hqualified, Bool.false_eq_true, if_false]
      exact reads_bind_pure.mpr ⟨next, hproperty, rfl⟩

/-- A further segment is read back: a word and what stands behind it. -/
theorem nextSegment_rewritten (named : answers.NamedBy actual) (tell : answers.TellPlainKeys)
    (portable : PortableTokens ts) {previous : Resource} {effect : SegmentEffect}
    (hsound : previous.Sound)
    (h : Reads answers (nextSegment aliases previous) source ts effect rest) :
    ∃ (w : Word) (behind : String), w.Portable ∧ '/' ∉ w.text.toList ∧
      effect.Adds previous (w.text ++ behind) ∧ ReadsBehind (fun source ts rest =>
        ∀ t, t.word = w →
          Reads answers (nextSegment aliases previous) source (t :: ts) effect rest) behind := by
  obtain ⟨t, us, rfl, hmay, h⟩ := reads_nextSegment_iff.mp h
  rcases h with ⟨hkind, next, hgives, rfl, rfl⟩ | ⟨hkind, hqualified, h⟩ |
    ⟨hkind, hqualified, next, hproperty, rfl⟩
  · obtain ⟨htext, hslash⟩ := gives_dollarSegment_text hgives
    have hportable : t.word.Portable :=
      portable t List.mem_cons_self (by simp [hkind]) (by simp [hkind]) (by simp [hkind])
        (by simp [hkind])
    refine ⟨t.word, "", hportable, hslash, ?_, .nil fun source rest hrest t' ht' => ?_⟩
    · rw [String.append_empty]
      exact htext
    · have hkind' : t'.kind = t.kind := congrArg Word.kind ht'
      have htext' : t'.text = t.text := congrArg Word.text ht'
      refine reads_nextSegment_iff.mpr ⟨t', rest, rfl, by rwa [hkind'], Or.inl ?_⟩
      rw [hkind', htext']
      exact ⟨hkind, next, hgives, rfl, rfl⟩
  · obtain ⟨name, behind, hadds, hbehind⟩ :=
      qualifiedSegment_rewritten named tell portable.of_cons hsound h
    have hname := isName_qualifiedName name
    refine ⟨.identifier name.text, behind, hname.portable, hname.slash_not_mem, hadds, ?_⟩
    refine hbehind.mono fun source ts rest hreads t' ht' => ?_
    obtain ⟨hkind', htext'⟩ := Token.eq_of_word ht'
    refine reads_nextSegment_iff.mpr ⟨t', ts, rfl, by rwa [hkind', ← hkind], Or.inr (Or.inl ?_)⟩
    rw [htext']
    exact ⟨hkind', isQualified_text name, hreads⟩
  · obtain ⟨id, behind, hid, htext, hbehind⟩ :=
      propertySegment_rewritten tell portable.of_cons hproperty
    have hname := portable.isName hkind hid
    refine ⟨.identifier t.text, behind, hname.portable, hname.slash_not_mem, htext, ?_⟩
    refine hbehind.mono fun source ts rest hreads t' ht' => ?_
    obtain ⟨hkind', htext'⟩ := Token.eq_of_word ht'
    refine reads_nextSegment_iff.mpr ⟨t', ts, rfl, by rwa [hkind', ← hkind], Or.inr (Or.inr ?_)⟩
    rw [htext']
    exact ⟨hkind', hqualified, next, hreads, rfl⟩

end ODataRequest
