import ODataRequest.Proofs.Directory.NearestOverload
import ODataRequest.Proofs.Path.CallOrder
import ODataRequest.Proofs.Path.ContainerFree
import ODataRequest.Proofs.Path.Resolved
import ODataRequest.Proofs.Request.Reader

/-!
# ODataRequest.Proofs.Request.CallOrder

Requests with the pairs of a call in another order. Such a request is accepted on a directory in the same
cases as the request itself, and it differs in nothing but the arguments of the call
(`Request.read_reorderedCall`). Nothing is assumed of the model: the path is resolved by the same look-ups,
asked in the same places, and leaves a directory that is alike for the options.
-/

namespace ODataRequest

open TokenReader

variable {α β : Type} {aliases : AliasTable} {pairs pairs' : List (String × Word)}
variable {s : Source} {d : Directory}

/-! ### Answers -/

/-- A function is looked for by a key with its parameters in ascending order. -/
theorem Directory.presentAnswers_ignoreOrder (d : Directory) : d.presentAnswers.IgnoreOrder where
  unbound := by
    intro name names names' found hperm h
    have hask : (Question.unboundFunction name names').ask = (Question.unboundFunction name names).ask := by
      simp only [Question.ask, ODataRequest.unboundFunction, OverloadKey.function,
        ascending_eq_iff.mpr hperm]
    unfold presentAnswers at h ⊢
    rw [hask]
    exact h
  bound := by
    intro name binding names names' found hperm h
    have hask : (Question.boundFunction name binding names').ask =
        (Question.boundFunction name binding names).ask := by
      simp only [Question.ask, ODataRequest.boundFunction, OverloadKey.function,
        ascending_eq_iff.mpr hperm]
    unfold presentAnswers at h ⊢
    rw [hask]
    exact h

/-! ### Runs -/

namespace Resolution

theorem runOn_bind_eq_ok {x : Resolution α} {f : α → Resolution β} {b : β} :
    ((x >>= f).runOn d).1 = .ok b ↔
      ∃ a, (x.runOn d).1 = .ok a ∧ ((f a).runOn (x.runOn d).2).1 = .ok b := by
  show ((x.bind f).runOn d).1 = .ok b ↔ _
  rw [runOn_bind]
  rcases x.runOn d with ⟨r, d'⟩
  cases r with
  | error e => simp
  | ok a => simp

theorem runOn_ofGrammar {x : Except GrammarError α} :
    (ofGrammar x).runOn d = (x.mapError RequestError.grammar, d) := by
  cases x <;> rfl

theorem runOn_pure {a : α} : (pure a : Resolution α).runOn d = (.ok a, d) := rfl

end Resolution

/-! ### Addresses -/

namespace ReorderedCall

variable {segment segment' : String}

theorem head_ne_dollar (h : ReorderedCall pairs pairs' segment segment') :
    segment.toList.head? ≠ some '$' := by
  obtain ⟨tokens, -, isName, -⟩ := h
  obtain ⟨hkind, -⟩ := Token.eq_of_word isName
  intro hhead
  obtain ⟨cs, hchars⟩ := List.head?_eq_some_iff.mp hhead
  rw [tokenize_eq_ok, hchars, Lexeme.tokensFrom, if_neg (by decide)] at tokens
  by_cases hnone : Lexeme.runLength isIdentifierPart cs = 0
  · simp [Lexeme.lexeme?, Lexeme.punctuation?, hnone] at tokens
  · simp only [Lexeme.lexeme?, Lexeme.punctuation?, hnone] at tokens
    obtain ⟨_, -, heq⟩ := Option.map_eq_some_iff.mp tokens
    cases heq
    cases hkind

/-- A segment with pairs behind its name is more than a name. -/
theorem ne_name (h : ReorderedCall pairs pairs' segment segment') (name : QualifiedName) :
    name.text ≠ segment := by
  obtain ⟨tokens, -, -, -, ⟨left, -⟩⟩ := h
  rintro rfl
  have hlexes := (isName_qualifiedName name).stands [] Lexeme.bounded_nil
  have hcut := Word.tokensFrom_of_lexes hlexes 0 false
  rw [List.append_nil] at hcut
  rw [tokenize_eq_ok, show name.text = (Word.identifier name.text).text from rfl, hcut,
    Lexeme.tokensFrom] at tokens
  cases tokens
  cases left.firstToken_kind

theorem asksContainer_eq (h : ReorderedCall pairs pairs' segment segment') :
    asksContainer segment' = asksContainer segment := by
  obtain ⟨tokens, tokens', isName, isName', -⟩ := h
  obtain ⟨hkind, htext⟩ := Token.eq_of_word isName
  obtain ⟨hkind', htext'⟩ := Token.eq_of_word isName'
  simp only [asksContainer, tokens, tokens', startsSimply, hkind, hkind', htext, htext']

end ReorderedCall

/-- Paths that ask for the container alike, and that lead to related resources on the present answers,
are related addresses. -/
theorem runOn_resource_alike (hd : d.Alike s d) {first first' : String} {rest rest' : List String}
    {R : List Resource → List Resource → Prop} (hasks : asksContainer first' = asksContainer first)
    (hgives : ∀ path, (resourcePath aliases first rest).Gives d.presentAnswers path →
      ∃ path', R path path' ∧ (resourcePath aliases first' rest').Gives d.presentAnswers path')
    {address : Address} {x x' : Resolution Address}
    (hx : x = do return .resource (← resourcePath aliases first rest))
    (hx' : x' = do return .resource (← resourcePath aliases first' rest'))
    (h : (x.runOn d).1 = .ok address) :
    ∃ path path', address = .resource path ∧ R path path' ∧ (x'.runOn d).1 = .ok (.resource path') ∧
      (x.runOn d).2.Alike s (x'.runOn d).2 := by
  subst hx hx'
  have hfirst : (do return Address.resource (← resourcePath aliases first rest) :
      Resolution Address).Asks (asksContainer first) :=
    (resourcePath_asks aliases first rest).bind fun _ => trivial
  have hfirst' : (do return Address.resource (← resourcePath aliases first' rest') :
      Resolution Address).Asks (asksContainer first) := by
    rw [← hasks]
    exact (resourcePath_asks aliases first' rest').bind fun _ => trivial
  obtain ⟨path, hpath, heq⟩ := Resolution.gives_bind.mp ((hfirst.runOn hd).mp h)
  obtain ⟨path', hR, hpath'⟩ := hgives path hpath
  refine ⟨path, path', (Resolution.gives_pure.mp heq).symm, hR, ?_, hfirst.alike hfirst' hd⟩
  exact (hfirst'.runOn hd).mpr (Resolution.gives_bind.mpr ⟨path', hpath', Resolution.gives_pure.mpr rfl⟩)

/-- An address with the pairs of a call in another order is the same, but for the arguments of the call. -/
theorem ReorderedCall.runOn_addressOf {segment segment' : String}
    (hcall : ReorderedCall pairs pairs' segment segment') (hd : d.Alike s d) {front after : List String}
    {address : Address}
    (h : ((addressOf aliases (front ++ segment :: after)).runOn d).1 = .ok address) :
    ∃ path path', address = .resource path ∧ ReorderedPath pairs pairs' path path' ∧
      ((addressOf aliases (front ++ segment' :: after)).runOn d).1 = .ok (.resource path') ∧
      ((addressOf aliases (front ++ segment :: after)).runOn d).2.Alike s
        ((addressOf aliases (front ++ segment' :: after)).runOn d).2 := by
  have ignore := d.presentAnswers_ignoreOrder
  cases front with
  | nil =>
    exact runOn_resource_alike hd hcall.asksContainer_eq
      (fun path hpath => hcall.gives_resourcePath_first ignore hpath)
      (addressOf_plain hcall.isEmpty_eq_false hcall.head_ne_dollar)
      (addressOf_plain hcall.symm.isEmpty_eq_false hcall.symm.head_ne_dollar) h
  | cons first front =>
    rcases addressOf_first .any aliases first with hplain | hnames
    · exact runOn_resource_alike hd rfl (fun path hpath => hcall.gives_resourcePath_later ignore hpath)
        (hplain _) (hplain _) h
    · obtain ⟨name, hname⟩ := (hnames _ _ (Resolution.gives_of_runOn h)).2 segment
        (List.mem_append_right _ List.mem_cons_self)
      exact absurd hname (hcall.ne_name name)

/-! ### Requests -/

theorem Resource.Reordered.type? {r r' : Resource} (h : r.Reordered pairs pairs' r') :
    r'.type? = r.type? ∧ Address.isAspect r' = Address.isAspect r := by
  cases h with
  | call => exact ⟨rfl, rfl⟩
  | key => exact ⟨rfl, rfl⟩

theorem ReorderedPath.target?_eq {path path' : List Resource} (h : ReorderedPath pairs pairs' path path') :
    (Address.resource path').target? = (Address.resource path).target? := by
  have htyped : (path'.map fun r => (Address.isAspect r, r.type?)) =
      path.map fun r => (Address.isAspect r, r.type?) := by
    induction h with
    | here h => simp only [List.map_cons, h.type?.1, h.type?.2]
    | later _ ih => simp only [List.map_cons, ih]
  have htarget : ∀ path, (Address.resource path).target? =
      (((path.map fun r => (Address.isAspect r, r.type?)).reverse.find? (!·.1)).bind (·.2)) := by
    intro path
    rw [← List.map_reverse, List.find?_map, Option.bind_map]
    rfl
  rw [htarget, htarget, htyped]

namespace Request

variable {config : Config} {path path' : String} {query fragment : Option String} {r : Request}

/-- The parts of a request are read one after another: the query and the segments of the path without
the directory, the address on it, and the options on the directory that is left. -/
theorem runOn_read : ((read config path query fragment).runOn d).1 = .ok r ↔
    ∃ parts segments, QueryParts.ofQuery config (query.getD "") = .ok parts ∧
      pathSegments path = .ok segments ∧
      ((addressOf r.aliases segments).runOn d).1 = .ok r.address ∧
      ((parts.system.mapM (systemOption config (r.address.scope r.aliases))).runOn
        ((addressOf r.aliases segments).runOn d).2).1 = .ok r.options ∧
      requireId r.address r.options = .ok () ∧ r.fragment = fragment ∧
      r.customOptions = parts.custom ∧ r.aliases = ascendingByName parts.aliases := by
  unfold read
  simp only [Resolution.runOn_bind_eq_ok, Resolution.runOn_ofGrammar, Resolution.runOn_pure,
    except_mapError_eq_ok]
  constructor
  · rintro ⟨parts, hparts, segments, hsegments, address, haddress, options, hoptions, _, hid, hr⟩
    cases hr
    exact ⟨parts, segments, hparts, hsegments, haddress, hoptions, hid, rfl, rfl, rfl⟩
  · rintro ⟨parts, segments, hparts, hsegments, haddress, hoptions, hid, rfl, hcustom, haliases⟩
    rw [haliases] at haddress hoptions
    refine ⟨parts, hparts, segments, hsegments, r.address, haddress, r.options, hoptions, (), hid, ?_⟩
    rw [← haliases, ← hcustom]

/-- A request is accepted with the pairs of a call in another order, too, and it is the same but for the
arguments of the call. -/
theorem read_reorderedCall (hd : d.Alike s d) {segment segment' : String}
    (hcall : ReorderedCall pairs pairs' segment segment') {front after : List String}
    (hpath : pathSegments path = .ok (front ++ segment :: after))
    (hpath' : pathSegments path' = .ok (front ++ segment' :: after))
    (h : ((read config path query fragment).runOn d).1 = .ok r) :
    ∃ resources resources', r.address = .resource resources ∧
      ReorderedPath pairs pairs' resources resources' ∧
      ((read config path' query fragment).runOn d).1 = .ok { r with address := .resource resources' } := by
  obtain ⟨parts, segments, hparts, hsegments, haddress, hoptions, -, hrest⟩ := runOn_read.mp h
  obtain rfl := Except.ok.inj (hsegments.symm.trans hpath)
  obtain ⟨resources, resources', hresources, hre, haddress', hafter⟩ :=
    hcall.runOn_addressOf hd haddress
  refine ⟨resources, resources', hresources, hre, runOn_read.mpr
    ⟨parts, _, hparts, hpath', haddress', ?_, rfl, hrest⟩⟩
  -- the options are read against the same type, on a directory that is alike
  have hscope : (Address.resource resources').scope r.aliases = r.address.scope r.aliases := by
    rw [hresources, Address.scope, Address.scope, hre.target?_eq]
    rfl
  exact hscope ▸ (Resolution.runOn_alike _ hafter).1.symm.trans hoptions

end Request

end ODataRequest
