import ODataRequest.Proofs.CallHistory
import ODataRequest.Proofs.Directory.Answers
import ODataRequest.Proofs.Path.CallForm
import ODataRequest.Proofs.Path.CallTokens
import ODataRequest.Proofs.Path.Resolved
import ODataRequest.Proofs.Request.Recoded

/-!
# ODataRequest.Proofs.Request.FunctionImports

A function import addresses the function that it names. A path that starts with a call of the import
leads to the same as the path that calls the function by its qualified name with the same text behind it,
and the request differs in nothing but the import that is kept with the call
(`Request.read_functionImport`). Behind the two names the texts are cut into the same segments and tokens
(`pathSegments_call`, `tokenize_call`), the same function is found for them
(`reads_firstSegment_imported`, `reads_firstSegment_qualified`), and nothing that follows looks at how the
function has been named (`followSegments_mapCall`).
-/

namespace ODataRequest

open TokenReader

variable {answers : Answers} {aliases : AliasTable} {source source' : String}
variable {ts ts' rest : List Token} {name text : String}

/-! ### Texts of calls -/

/-- The segments of a path behind the parenthesis that opens a call in it. -/
def callSegments (text : String) : Except GrammarError (List String) :=
  (Text.splitFrom '/' ⟨1, false⟩ text.toList).mapM fun segment => decoded (String.ofList segment)

theorem decoded_append_eq_ok {as cs : List Char} (h : '%' ∉ as) {s : String} :
    decoded (String.ofList (as ++ cs)) = .ok s ↔
      ∃ behind, decoded (String.ofList cs) = .ok behind ∧ s = String.ofList as ++ behind := by
  unfold decoded
  rw [Text.percentDecode?_append h]
  cases Text.percentDecode? (String.ofList cs) with
  | none => simp
  | some behind => simp [eq_comm]

/-- A path that starts with a call is cut behind the name, and the name stands in the first segment. -/
theorem pathSegments_call (hname : IsName name) {segments : List String} :
    pathSegments (name ++ "(" ++ text) = .ok segments ↔
      ∃ behind others, callSegments text = .ok (behind :: others) ∧
        segments = (name ++ "(" ++ behind) :: others := by
  have hslash : '/' ∉ (name ++ "(").toList := by simp [hname.slash_not_mem]
  have hpercent : '%' ∉ (name ++ "(").toList := by simp [hname.percent_not_mem]
  have hscan : Text.Nesting.outermost.scan (name ++ "(").toList = ⟨1, false⟩ := by
    have hinside : Text.Nesting.outermost.scan name.toList = .outermost :=
      hname.portable.calm.scan 0
    rw [String.toList_append, Text.Nesting.scan_append, hinside]
    rfl
  obtain ⟨part, parts, hparts, hsplit⟩ :=
    Text.splitFrom_append_of_not_mem hslash .outermost text.toList
  rw [hscan] at hparts
  unfold pathSegments callSegments Text.splitTopLevel
  rw [String.toList_append, Text.dropWhile_slash_append (by simp) hslash, hsplit, hparts]
  simp only [List.mapM_cons, except_bind_eq_ok, except_pure, Except.ok.injEq,
    decoded_append_eq_ok hpercent, String.ofList_toList]
  constructor
  · rintro ⟨_, ⟨behind, hbehind, rfl⟩, others, hothers, rfl⟩
    exact ⟨behind, others, ⟨behind, hbehind, others, hothers, rfl⟩, rfl⟩
  · rintro ⟨behind, others, ⟨_, hbehind, _, hothers, heq⟩, rfl⟩
    cases heq
    exact ⟨_, ⟨behind, hbehind, rfl⟩, others, hothers, rfl⟩

/-- A text that opens a call has the token of the name, one for the parenthesis, and behind any other
name the same words. -/
theorem tokenize_call (hname : IsName name) {name' : String} (hname' : IsName name')
    (h : tokenize (name ++ "(" ++ text) = .ok ts) :
    ∃ t us t' us', ts = t :: us ∧ t.word = Word.identifier name ∧ (firstToken us).kind = .openParen ∧
      tokenize (name' ++ "(" ++ text) = .ok (t' :: us') ∧ t'.word = Word.identifier name' ∧
      us'.map Token.word = us.map Token.word := by
  have hcut : ∀ {name : String}, IsName name →
      Lexeme.tokensFrom 0 false (name ++ "(" ++ text).toList =
        (Lexeme.tokensFrom (0 + Lexeme.byteLength name.toList) false ('(' :: text.toList)).map
          (⟨.identifier, name, 0, false⟩ :: ·) := by
    intro name hname
    have hlexes := hname.stands ('(' :: text.toList) (Lexeme.bounded_cons (by decide))
    have htext : (name ++ "(" ++ text).toList = name.toList ++ '(' :: text.toList := by simp
    rw [htext]
    exact Word.tokensFrom_of_lexes hlexes 0 false
  rw [tokenize_eq_ok, hcut hname] at h
  obtain ⟨us, hus, rfl⟩ := Option.map_eq_some_iff.mp h
  obtain ⟨us', hus', hwords⟩ := tokensFrom_offset hus (0 + Lexeme.byteLength name'.toList)
  refine ⟨_, us, ⟨.identifier, name', 0, false⟩, us', rfl, rfl, ?_, ?_, rfl, hwords⟩
  · have hopening := Word.tokensFrom_of_lexes (Word.lexes_openParen text.toList)
      (0 + Lexeme.byteLength name.toList) false
    rw [show '(' :: text.toList = Word.openParen.text.toList ++ text.toList from rfl,
      hopening] at hus
    obtain ⟨vs, -, rfl⟩ := Option.map_eq_some_iff.mp hus
    rfl
  · rw [tokenize_eq_ok, hcut hname', hus']
    rfl

/-! ### Calls by two names -/

variable {byImport byImport' : Option Csdl.FunctionImport} {missing missing' : SemanticError}
variable {find : List String → Resolution (Option Function)} {r : Resource}

/-- A resource is a call of a function that is kept with an import or without one. -/
def Resource.IsCallBy (byImport : Option Csdl.FunctionImport) (r : Resource) : Prop :=
  ∃ f arguments returnType keys casts, r = .function f byImport arguments returnType keys casts

theorem Resource.IsCallBy.narrow {r' : Resource} (h : r.IsCallBy byImport) (hnarrows : r.Narrows r') :
    r'.IsCallBy byImport := by
  obtain ⟨f, arguments, returnType, keys, casts, rfl⟩ := h
  obtain ⟨casts', keys', rfl⟩ := hnarrows
  exact ⟨f, arguments, returnType, keys', casts', rfl⟩

/-- The same call with another import. -/
def Resource.importedBy (byImport : Option Csdl.FunctionImport) : Resource → Resource :=
  Resource.mapCall (fun _ => byImport) id

/-- A call is read from tokens with the same words, whatever import it is kept with. -/
theorem calledFunction_importedBy
    (h : Reads answers (calledFunction aliases byImport missing find) source ts r rest)
    (hwords : ts'.map Token.word = ts.map Token.word) :
    r.IsCallBy byImport ∧ ∃ rest',
      Reads answers (calledFunction aliases byImport' missing' find) source' ts'
        (r.importedBy byImport') rest' ∧ rest'.map Token.word = rest.map Token.word := by
  obtain ⟨raw, us, f, hraw, -⟩ := reads_calledFunction_iff.mp h
  have htokens := (ArgumentTokens.of_reads hraw).1
  obtain ⟨hdistinct, f, arguments, returnType, hfind, harguments, htype, hkeyed⟩ :=
    (reads_calledFunction_of_argumentTokens htokens).mp h
  have hcall : r.IsCallBy byImport := by
    cases hkeyed with
    | without => exact ⟨f, arguments, returnType, [], Casts.none, rfl⟩
    | withKey => exact ⟨f, arguments, returnType, _, Casts.none, rfl⟩
  obtain ⟨us', htokens', hus⟩ := htokens.of_words hwords
  -- neither the type of the result nor a key depends on the import
  have hmapped := hkeyed.mapCall (i := fun _ => byImport') (a := id) fun _ allowed => allowed
  obtain ⟨rest', hkeyed', hrest⟩ := hmapped.of_words hus
  exact ⟨hcall, rest', (reads_calledFunction_of_argumentTokens htokens').mpr
    ⟨hdistinct, f, arguments, returnType, hfind, harguments, htype, hkeyed'⟩, hrest⟩

/-- The import is found under its name in the container, and nothing that would be found before it. -/
structure Container.Imports (c : Container) (i : Csdl.FunctionImport) : Prop where
  found : c.functionImport? i.name.text = some i
  noEntitySet : c.entitySet? i.name.text = none
  noSingleton : c.singleton? i.name.text = none
  noActionImport : c.actionImport? i.name.text = none

/-- What is asked for the function of an import. -/
def findImported (i : Csdl.FunctionImport) (names : List String) : Resolution (Option Function) :=
  Resolution.answerTo (.unboundFunction i.function names)

theorem reads_firstSegment_imported {c : Container} {i : Csdl.FunctionImport} (himports : c.Imports i)
    (hcontainer : ∀ found, answers .container found ↔ found = some c) {t : Token}
    (ht : t.word = Word.identifier i.name.text) :
    Reads answers (firstSegment aliases) source (t :: ts) r rest ↔
      Reads answers (calledFunction aliases (some i) (.functionNotFound i.name.text) (findImported i))
        source ts r rest := by
  obtain ⟨hkind, htext⟩ := Token.eq_of_word ht
  have hform : containerResource aliases c i.name.text = calledFunction aliases (some i)
      (.functionNotFound i.name.text) (findImported i) := by
    simp only [containerResource, himports.noEntitySet, himports.noSingleton, himports.noActionImport,
      himports.found]
    rfl
  have hsimple : isQualified i.name.text = false := i.name.isQualified_text
  rw [reads_firstSegment_iff]
  constructor
  · rintro ⟨_, _, heq, -, ⟨hqualified, -⟩ | ⟨-, found, hfound, h⟩⟩
    · cases heq
      rw [htext, hsimple] at hqualified
      cases hqualified
    · cases heq
      cases (hcontainer _).mp hfound
      rwa [htext, hform] at h
  · intro h
    refine ⟨t, ts, rfl, hkind, Or.inr ?_⟩
    rw [htext, hsimple]
    exact ⟨rfl, c, (hcontainer _).mpr rfl, by rwa [hform]⟩

theorem reads_firstSegment_qualified {q : QualifiedName} {t : Token}
    (ht : t.word = Word.identifier q.text) (hopens : (firstToken ts).kind = .openParen) :
    Reads answers (firstSegment aliases) source (t :: ts) r rest ↔
      Reads answers (calledFunction aliases none (.resourceNotFound q.text)
        fun names => Resolution.answerTo (.unboundFunction q names)) source ts r rest := by
  obtain ⟨hkind, htext⟩ := Token.eq_of_word ht
  have hoperation : Reads answers (unboundOperation aliases q.text) source ts r rest ↔
      Reads answers (calledFunction aliases none (.resourceNotFound q.text)
        fun names => Resolution.answerTo (.unboundFunction q names)) source ts r rest := by
    rw [reads_unboundOperation_iff]
    unfold calledOperation
    simp [QualifiedName.ofString?_text, hopens]
  rw [reads_firstSegment_iff, ← hoperation]
  constructor
  · rintro ⟨_, _, heq, -, ⟨-, h⟩ | ⟨hqualified, -⟩⟩
    · cases heq
      rwa [htext] at h
    · cases heq
      rw [htext, isQualified_text] at hqualified
      cases hqualified
  · intro h
    refine ⟨t, ts, rfl, hkind, Or.inl ?_⟩
    rw [htext]
    exact ⟨isQualified_text q, h⟩

/-! ### Paths and requests -/

/-- Wherever a call by one name is read, the call by the other name is read with its own import. -/
def CallsLike (answers : Answers) (aliases : AliasTable) (name : String)
    (byImport : Option Csdl.FunctionImport) (name' : String)
    (byImport' : Option Csdl.FunctionImport) : Prop :=
  ∀ (source source' : String) (t t' : Token) (ts ts' rest : List Token) (r : Resource),
    t.word = Word.identifier name → t'.word = Word.identifier name' →
    (firstToken ts).kind = .openParen → ts'.map Token.word = ts.map Token.word →
    Reads answers (firstSegment aliases) source (t :: ts) r rest →
      r.IsCallBy byImport ∧ ∃ rest', Reads answers (firstSegment aliases) source' (t' :: ts')
        (r.importedBy byImport') rest' ∧ rest'.map Token.word = rest.map Token.word

section Calls

variable {c : Container} {i : Csdl.FunctionImport}

theorem callsLike_qualified (himports : c.Imports i)
    (hcontainer : ∀ found, answers .container found ↔ found = some c) :
    CallsLike answers aliases i.name.text (some i) i.function.text none := by
  intro source source' t t' ts ts' rest r ht ht' hopens hwords h
  have hcalled := (reads_firstSegment_imported himports hcontainer ht).mp h
  have hopens' : (firstToken ts').kind = .openParen := by rwa [firstToken_kind_of_words hwords]
  obtain ⟨hcall, rest', h', hrest⟩ := calledFunction_importedBy hcalled hwords
  exact ⟨hcall, rest', (reads_firstSegment_qualified ht' hopens').mpr h', hrest⟩

theorem callsLike_imported (himports : c.Imports i)
    (hcontainer : ∀ found, answers .container found ↔ found = some c) :
    CallsLike answers aliases i.function.text none i.name.text (some i) := by
  intro source source' t t' ts ts' rest r ht ht' hopens hwords h
  have hcalled := (reads_firstSegment_qualified ht hopens).mp h
  obtain ⟨hcall, rest', h', hrest⟩ := calledFunction_importedBy hcalled hwords
  exact ⟨hcall, rest', (reads_firstSegment_imported himports hcontainer ht').mpr h', hrest⟩

end Calls

section Paths

variable {name' : String} {segments : List String} {path : List Resource}

/-- A path that starts with a call leads to the same behind the call by the other name. -/
theorem gives_resourcePath_callsLike (hname : IsName name) (hname' : IsName name')
    (hlike : CallsLike answers aliases name byImport name' byImport')
    (h : (resourcePath aliases (name ++ "(" ++ text) segments).Gives answers path) :
    ∃ r behind, path = r :: behind ∧ r.IsCallBy byImport ∧
      (resourcePath aliases (name' ++ "(" ++ text) segments).Gives answers
        (r.importedBy byImport' :: behind) := by
  obtain ⟨first, hfirst, hpath⟩ := Resolution.gives_bind.mp h
  obtain ⟨ts, rest, htokens, hreads, hend⟩ := gives_readAll.mp hfirst
  obtain ⟨t, us, t', us', rfl, ht, hopens, htokens', ht', hwords⟩ := tokenize_call hname hname' htokens
  obtain ⟨hcall, rest', hreads', hrest⟩ := hlike _ (name' ++ "(" ++ text) t t' us us' rest first ht ht'
    hopens hwords hreads
  obtain ⟨r, behind, rfl, hnarrows, hsame⟩ := followSegments_mapCall hpath
  refine ⟨r, behind, rfl, hcall.narrow hnarrows, Resolution.gives_bind.mpr ⟨_, ?_, hsame _ _⟩⟩
  exact gives_readAll.mpr ⟨_, rest', htokens', hreads', by rwa [firstToken_kind_of_words hrest]⟩

theorem Address.target?_importedBy (r : Resource) (behind : List Resource) :
    (Address.resource (r.importedBy byImport :: behind)).target? =
      (Address.resource (r :: behind)).target? := by
  simp only [target?, List.reverse_cons, List.find?_append, Resource.importedBy]
  cases behind.reverse.find? (!isAspect ·) with
  | some _ => rfl
  | none =>
    by_cases haspect : isAspect r
    · simp [haspect]
    · simp [haspect]

end Paths

theorem addressOf_call (hname : IsName name) {behind : String} {others : List String} :
    addressOf aliases ((name ++ "(" ++ behind) :: others) =
      (do return .resource (← resourcePath aliases (name ++ "(" ++ behind) others)) := by
  obtain ⟨x, xs, hchars, hstart⟩ := hname.dotted.start
  exact addressOf_identifier (by rw [String.toList_append, String.toList_append, hchars]; rfl) hstart

namespace Request

variable {config : Config} {query fragment : Option String} {request : Request}

/-- The same request for a path that starts with a resource in place of its first one. -/
def startingWith (request : Request) (r : Resource) (behind : List Resource) : Request :=
  { request with address := .resource (r :: behind) }

/-- A request that starts with a call is read with the other name of the function too. -/
theorem gives_read_callsLike (hname : IsName name) {name' : String} (hname' : IsName name')
    (hlike : ∀ aliases, CallsLike answers aliases name byImport name' byImport')
    (h : (read config (name ++ "(" ++ text) query fragment).Gives answers request) :
    ∃ r behind, request.address = .resource (r :: behind) ∧ r.IsCallBy byImport ∧
      (read config (name' ++ "(" ++ text) query fragment).Gives answers
        (request.startingWith (r.importedBy byImport') behind) := by
  obtain ⟨items, segments, hitems, hdistinct, hsegments, haddress, hoptions, hid, hfragment, hcustom,
    haliases⟩ := gives_read.mp h
  obtain ⟨behind, others, hcut, rfl⟩ := (pathSegments_call hname).mp hsegments
  rw [addressOf_call hname] at haddress
  obtain ⟨path, hpath, hresource⟩ := Resolution.gives_bind.mp haddress
  have hresource := Resolution.gives_pure.mp hresource
  obtain ⟨r, followed, rfl, hcall, hpath'⟩ :=
    gives_resourcePath_callsLike hname hname' (hlike request.aliases) hpath
  refine ⟨r, followed, hresource.symm, hcall, gives_read.mpr ⟨items, _, hitems, hdistinct,
    (pathSegments_call hname').mpr ⟨behind, others, hcut, rfl⟩, ?_, ?_, rfl, hfragment, hcustom,
    haliases⟩⟩
  · rw [addressOf_call hname']
    exact Resolution.gives_bind.mpr ⟨_, hpath', Resolution.gives_pure.mpr rfl⟩
  · -- the options are read against the type the path leads to, which is the same
    have hscope : (request.startingWith (r.importedBy byImport') followed).address.scope
        request.aliases = request.address.scope request.aliases := by
      rw [← hresource]
      unfold Address.scope startingWith
      rw [Address.target?_importedBy]
      rfl
    exact hscope ▸ hoptions

/-- A path that starts with a call of a function import of the default container is accepted if and only
if the path that calls the function by its qualified name is, whatever stands behind the name and whatever
calls the directories have had before. The requests are the same but for the import that the call is kept
with. -/
theorem read_functionImport {s : Source} (names : s.WellNamed) {c : Container}
    (hcontainer : (container none).result s = .ok (some c)) {i : Csdl.FunctionImport}
    (himports : c.Imports i) (hname : isSimpleName i.name.text = true) (config : Config) (text : String)
    (query fragment : Option String) (calls calls' : List DirectoryCall) :
    let byImport := ((read config (i.name.text ++ "(" ++ text) query fragment).runOn
      (DirectoryCall.after calls (.ofSource s))).1
    let byName := ((read config (i.function.text ++ "(" ++ text) query fragment).runOn
      (DirectoryCall.after calls' (.ofSource s))).1
    ((∃ r, byImport = .ok r) ↔ ∃ r, byName = .ok r) ∧
      ∀ r r', byImport = .ok r → byName = .ok r' →
        ∃ f arguments returnType keys casts behind,
          r.address = .resource (.function f (some i) arguments returnType keys casts :: behind) ∧
          r' = r.startingWith (.function f none arguments returnType keys casts) behind := by
  have hd := DirectoryCall.after_consistent names calls (.ofSource s)
  have hd' := DirectoryCall.after_consistent names calls' (.ofSource s)
  have hanswer : ∀ found, s.answers .container found ↔ found = some c := by
    intro found
    show (container none).result s = .ok found ↔ _
    rw [hcontainer, Except.ok.injEq]
    exact eq_comm
  have hsimple := isName_of_isSimpleName hname
  have hqualified := isName_qualifiedName i.function
  intro byImport byName
  refine ⟨⟨?_, ?_⟩, ?_⟩
  · rintro ⟨r, hr⟩
    obtain ⟨_, _, -, -, hr'⟩ := gives_read_callsLike hsimple hqualified
      (fun _ => callsLike_qualified himports hanswer) (Resolution.gives_answers_of_runOn names hd hr)
    exact ⟨_, Resolution.runOn_of_gives_answers names hr' hd'⟩
  · rintro ⟨r', hr'⟩
    obtain ⟨_, _, -, -, hr⟩ := gives_read_callsLike hqualified hsimple
      (fun _ => callsLike_imported himports hanswer) (Resolution.gives_answers_of_runOn names hd' hr')
    exact ⟨_, Resolution.runOn_of_gives_answers names hr hd⟩
  · intro r r' hr hr'
    obtain ⟨_, behind, haddress, ⟨f, arguments, returnType, keys, casts, rfl⟩, hsame⟩ :=
      gives_read_callsLike hsimple hqualified (fun _ => callsLike_qualified himports hanswer)
        (Resolution.gives_answers_of_runOn names hd hr)
    have heq : byName = _ := Resolution.runOn_of_gives_answers names hsame hd'
    rw [heq] at hr'
    cases hr'
    exact ⟨f, arguments, returnType, keys, casts, behind, haddress, rfl⟩

section Library

private def librarySpace : Namespace := ⟨⟨"Library", by decide⟩, []⟩
private def bookName : QualifiedName := ⟨librarySpace, ⟨"Book", by decide⟩⟩
private def stringReference : TypeReference := ⟨PrimitiveKind.string.qualifiedName, false⟩

/-- A model with a function that gives the books of an author, and an import of it that names it with the
alias of the schema. -/
def library : Source :=
  { basicOnly := false
    schemas :=
      [{ space := librarySpace
         aliasName := some ⟨"L", rfl⟩
         entityTypes :=
           [{ name := bookName.name, baseType := none, isAbstract := false, isOpen := false,
              properties := [⟨⟨"Title", rfl⟩, stringReference, false, none, none, none, none⟩],
              navigationProperties := [], hasStream := false, key := [⟨"Title", none⟩] }]
         complexTypes := []
         enumTypes := []
         typeDefinitions := []
         actions := []
         functions :=
           [{ name := ⟨"Written", by decide⟩, isBound := false, entitySetPath := none,
              parameters := [⟨⟨"by", by decide⟩, stringReference, false⟩],
              isComposable := true, returnType := ⟨⟨bookName, true⟩, false⟩ }]
         terms := []
         container := some
           { name := librarySpace.first
             entitySets := []
             singletons := []
             actionImports := []
             functionImports :=
               [⟨⟨"Works", by decide⟩, ⟨⟨⟨"L", rfl⟩, []⟩, ⟨"Written", by decide⟩⟩, none, false⟩] }
         annotations := [] }] }

/-- The import with the real name of the function. -/
private def works : Csdl.FunctionImport :=
  ⟨⟨"Works", by decide⟩, ⟨librarySpace, ⟨"Written", by decide⟩⟩, none, false⟩

private def libraryContainer : Container :=
  { name := ⟨librarySpace, librarySpace.first⟩, entitySets := [], singletons := [], actionImports := [],
    functionImports := [works] }

/-- An argument with a slash in it, a key, and a property behind it. -/
private def emma : String := "by='A/B')('Emma')/Title"

/-- A book of an author is asked for by the import and by the name of the function. -/
theorem read_functionImport_emma :
    library.WellNamed ∧ (container none).result library = .ok (some libraryContainer) ∧
      libraryContainer.Imports works ∧ works.function.text = "Library.Written" ∧
      ∃ r r', ((read .standard ("Works" ++ "(" ++ emma) none none).runOn (.ofSource library)).1 = .ok r ∧
        ((read .standard ("Library.Written" ++ "(" ++ emma) none none).runOn (.ofSource library)).1 =
          .ok r' ∧
        r.address.path.map Resource.segment = ["Works", "Title"] ∧
        ∃ f arguments returnType keys casts behind,
          r.address = .resource (.function f (some works) arguments returnType keys casts :: behind) ∧
          r' = r.startingWith (.function f none arguments returnType keys casts) behind := by
  have names : library.WellNamed := ⟨by decide, by decide⟩
  have hcontainer : (container none).result library = .ok (some libraryContainer) := rfl
  have himports : libraryContainer.Imports works := ⟨rfl, rfl, rfl, rfl⟩
  have hfunction : works.function.text = "Library.Written" := by decide +kernel
  have haccepted : acceptedSegments ((read .standard ("Works" ++ "(" ++ emma) none none).runOn
      (.ofSource library)).1 = ["Works", "Title"] := by
    decide +kernel
  obtain ⟨hiff, hsame⟩ := read_functionImport names hcontainer himports (by decide) .standard emma none
    none [] []
  rw [hfunction] at hiff hsame
  cases hread : ((read .standard ("Works" ++ "(" ++ emma) none none).runOn (.ofSource library)).1 with
  | error e =>
    rw [hread] at haccepted
    cases haccepted
  | ok r =>
    rw [hread] at haccepted
    obtain ⟨r', hread'⟩ := hiff.mp ⟨r, hread⟩
    exact ⟨names, hcontainer, himports, hfunction, r, r', rfl, hread', haccepted,
      hsame r r' hread hread'⟩

end Library

end Request

end ODataRequest
