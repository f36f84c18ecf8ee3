import ODataRequest.Proofs.Path.CallForm
import ODataRequest.Proofs.Path.CallTokens

/-!
# ODataRequest.Proofs.Path.CallOrder

The order of the pairs of a call does not matter. A segment with its pairs in another order
(`ReorderedCall`) leads to the same resource, but for the arguments of a function, which stand in that
order, too (`Resource.Reordered`). The function is the same since what finds it does not look at the order
of the names (`Answers.IgnoreOrder`), and each argument is read on its own. The pairs of a key are put in
the order of the declaration when they are read, so such a segment leads to the very same resource.
-/

namespace ODataRequest

open TokenReader

variable {answers : Answers} {aliases : AliasTable} {source source' : String}
variable {ts ts' rest : List Token} {pairs pairs' : List (String × Word)}

/-! ### Reordered pairs -/

/-- Which function is found does not depend on the order of the parameters that it is asked for with. -/
structure Answers.IgnoreOrder (answers : Answers) : Prop where
  unbound : ∀ {name : QualifiedName} {names names' : List String} {found : Option Function},
    names'.Perm names → answers (.unboundFunction name names) found →
      answers (.unboundFunction name names') found
  bound : ∀ {name : QualifiedName} {binding : Binding} {names names' : List String}
    {found : Option Function}, names'.Perm names → answers (.boundFunction name binding names) found →
      answers (.boundFunction name binding names') found

/-- The tokens start with the same pairs in another order, and the words behind the pairs are the same. -/
inductive ReorderedTokens (pairs pairs' : List (String × Word)) (ts ts' : List Token) : Prop
  | intro {us us' : List Token} (left : ArgumentTokens ts pairs us) (right : ArgumentTokens ts' pairs' us')
      (words : us'.map Token.word = us.map Token.word) (perm : pairs'.Perm pairs)

theorem ReorderedTokens.symm (h : ReorderedTokens pairs pairs' ts ts') :
    ReorderedTokens pairs' pairs ts' ts := by
  obtain ⟨left, right, words, perm⟩ := h
  exact ⟨right, left, words.symm, perm.symm⟩

/-- The pairs name predicates of a key, by path or by the name of the key property. -/
def NamesKeys (pairs : List (String × Word)) (keys : List KeyPredicate) : Prop :=
  ∀ pair ∈ pairs, ∃ p ∈ keys, p.path = pair.1 ∨ p.name = pair.1

/-- The resource has the pairs as its key. A function, whose arguments stand right behind its name, has
them as its key behind a cast only. -/
structure Resource.KeyedBy (pairs : List (String × Word)) (r : Resource) : Prop where
  named : NamesKeys pairs r.keys
  cast : r.isOperation = true → pairs = [] ∨ r.casts ≠ Casts.none

/-- A resource, and the one that is read if the pairs behind its name stand in another order. -/
inductive Resource.Reordered (pairs pairs' : List (String × Word)) : Resource → Resource → Prop
  /-- The arguments of a function follow the pairs. -/
  | call {f : Function} {byImport : Option Csdl.FunctionImport} {arguments arguments' : List Argument}
      {returnType : ModelType} {keys : List KeyPredicate} {casts : Casts}
      (names : arguments.map (·.name) = pairs.map (·.1))
      (names' : arguments'.map (·.name) = pairs'.map (·.1)) (perm : arguments'.Perm arguments) :
      Reordered pairs pairs' (.function f byImport arguments returnType keys casts)
        (.function f byImport arguments' returnType keys casts)
  /-- A key has its predicates in the order of the declaration. -/
  | key {r : Resource} (keyed : r.KeyedBy pairs) : Reordered pairs pairs' r r

/-! ### Keys -/

theorem NamesKeys.keys_ne_nil {keys : List KeyPredicate} (h : NamesKeys pairs keys)
    (hpairs : pairs ≠ []) : keys ≠ [] := by
  obtain ⟨pair, hpair⟩ := List.exists_mem_of_ne_nil _ hpairs
  obtain ⟨p, hp, -⟩ := h pair hpair
  exact List.ne_nil_of_mem hp

theorem IsPredicate.path_or_name {keys : List KeyProperty} {pair : String × Word} {p : KeyPredicate}
    (h : IsPredicate answers aliases keys pair p) : p.path = pair.1 ∨ p.name = pair.1 := by
  obtain ⟨k, kind, value, hname, -, -, rfl⟩ := h
  unfold keyNamed? at hname
  have hfound := List.find?_some hname
  rw [Bool.or_eq_true, beq_iff_eq, beq_iff_eq, ← k.name_withValue value] at hfound
  exact hfound.symm

theorem ArePredicates.namesKeys {keys : List KeyProperty} {ps : List KeyPredicate}
    (h : ArePredicates answers aliases keys pairs ps) : NamesKeys pairs (inDeclaredOrder keys ps) := by
  intro pair hpair
  obtain ⟨p, hp, hpredicate⟩ := exists_right_of_forall₂ h.each hpair
  refine ⟨p, List.mem_filterMap.mpr ⟨p.path, ?_, ?_⟩, hpredicate.path_or_name⟩
  · obtain ⟨k, kind, value, hname, -, -, rfl⟩ := hpredicate
    rw [List.mem_eraseDups]
    exact List.mem_map.mpr ⟨k, mem_of_keyNamed? hname, rfl⟩
  · exact (find?_key_eq_some h.distinct).mpr ⟨hp, rfl⟩

theorem isOperation_withKeys {r : Resource} (keys : List KeyPredicate) :
    (r.withKeys keys).isOperation = r.isOperation := by
  cases r <;> rfl

/-- A key is never empty. -/
theorem not_reads_key_empty {type : EntityType} {keys : List KeyPredicate} {opening closing : Token}
    (hclosing : closing.kind = .closeParen) :
    ¬Reads answers (key aliases type) source (opening :: closing :: ts) keys rest := by
  intro h
  obtain ⟨opening', us, closing', heq, -, -, ⟨pairs, ps, hus, -⟩ | ⟨value, k, p, rfl, -, hp, -⟩⟩ :=
    reads_key_iff.mp h
  · obtain ⟨name, sign, vs, rfl, hname, -⟩ := hus.exists_cons
    cases heq
    rw [hclosing] at hname
    cases hname
  · obtain ⟨kind, v, -, hvalue, -⟩ := gives_keyPredicate_iff.mp hp
    cases heq
    exact hvalue.kind_ne.2.1 hclosing

/-- A key is the same for its values in any order. -/
theorem reads_key_reordered {type : EntityType} {keys : List KeyPredicate}
    (h : Reads answers (key aliases type) source ts keys rest)
    (hre : ReorderedTokens pairs pairs' ts ts') :
    NamesKeys pairs keys ∧ ∃ rest', Reads answers (key aliases type) source' ts' keys rest' ∧
      rest'.map Token.word = rest.map Token.word := by
  obtain ⟨left, right, words, perm⟩ := hre
  cases left with
  | empty _ closes => exact absurd h (not_reads_key_empty closes)
  | named opens closes values =>
    obtain ⟨rfl, ps, hps, hcomplete, rfl⟩ := (reads_key_named opens closes values).mp h
    obtain ⟨ps', hps', hpsPerm⟩ := hps.perm perm
    refine ⟨hps.namesKeys, _, ?_, words⟩
    cases right with
    | empty => exact absurd perm.nil_eq.symm values.ne_nil
    | named opens' closes' values' =>
      exact (reads_key_named opens' closes' values').mpr ⟨rfl, ps', hps', hcomplete.perm hpsPerm,
        (inDeclaredOrder_perm hpsPerm hps.distinct).symm⟩

/-- A resource with a key is the same for the values of the key in any order. -/
theorem Keyed.reordered {Allowed : EntityType → Prop} {plain r : Resource}
    (htakes : ∀ type, Allowed type → plain.takesKey = true ∧
      (plain.isOperation = true → plain.casts ≠ Casts.none))
    (h : Keyed answers aliases Allowed plain source ts r rest)
    (hre : ReorderedTokens pairs pairs' ts ts') :
    ∃ rest', Keyed answers aliases Allowed plain source' ts' r rest' ∧
      rest'.map Token.word = rest.map Token.word ∧ r.Reordered pairs pairs' r := by
  cases h with
  | without noKey =>
    obtain ⟨left, -⟩ := hre
    exact absurd left.firstToken_kind noKey
  | withKey allowed reads =>
    obtain ⟨hnamed, rest', hreads, hrest⟩ := reads_key_reordered reads hre
    obtain ⟨htakesKey, hcast⟩ := htakes _ allowed
    refine ⟨rest', .withKey allowed hreads, hrest, .key ⟨?_, ?_⟩⟩
    · rwa [Resource.keys_withKeys htakesKey]
    · rw [isOperation_withKeys, Resource.casts_withKeys]
      exact fun hoperation => Or.inr (hcast hoperation)

/-! ### Operations -/

theorem names_of_argumentOf {f : Function} {arguments : List Argument}
    (h : List.Forall₂ (fun pair a => (argumentOf f pair).Gives answers a) pairs arguments) :
    arguments.map (·.name) = pairs.map (·.1) := by
  induction h with
  | nil => rfl
  | cons ha _ ih => rw [List.map_cons, List.map_cons, ih, (gives_argument ha).1]

/-- A call with its pairs in another order is one of the same function, with its arguments in that
order. -/
theorem calledFunction_reordered {byImport : Option Csdl.FunctionImport} {missing : SemanticError}
    {find : List String → Resolution (Option Function)} {r : Resource}
    (hfind : ∀ {names names' : List String} {found : Option Function}, names'.Perm names →
      (find names).Gives answers found → (find names').Gives answers found)
    (h : Reads answers (calledFunction aliases byImport missing find) source ts r rest)
    (hre : ReorderedTokens pairs pairs' ts ts') :
    ∃ r' rest', Reads answers (calledFunction aliases byImport missing find) source' ts' r' rest' ∧
      rest'.map Token.word = rest.map Token.word ∧ r.Reordered pairs pairs' r' := by
  obtain ⟨left, right, words, perm⟩ := hre
  obtain ⟨hdistinct, f, arguments, returnType, hf, harguments, htype, hkeyed⟩ :=
    (reads_calledFunction_of_argumentTokens left).mp h
  obtain ⟨arguments', harguments', hperm⟩ := List.perm_comp_forall₂ perm harguments
  have hnames : (pairs'.map (·.1)).Perm (pairs.map (·.1)) := perm.map _
  -- what follows the arguments does not look at them
  have hmapped := hkeyed.mapCall (i := id) (a := fun _ => arguments') fun _ allowed => allowed
  obtain ⟨rest', hkeyed', hrest⟩ := hmapped.of_words words
  refine ⟨_, rest', (reads_calledFunction_of_argumentTokens right).mpr ⟨hnames.nodup_iff.mpr hdistinct,
    f, arguments', returnType, hfind hnames hf, harguments', htype, hkeyed'⟩, hrest, ?_⟩
  have hcall : ∀ keys, Resource.Reordered pairs pairs'
      (.function f byImport arguments returnType keys Casts.none)
      (.function f byImport arguments' returnType keys Casts.none) := fun keys =>
    .call (names_of_argumentOf harguments) (names_of_argumentOf harguments') hperm
  cases hkeyed with
  | without => exact hcall []
  | withKey => exact hcall _

/-- An operation that is called with pairs is a function. -/
theorem calledOperation_reordered {noFunction noAction : SemanticError}
    {findFunction : QualifiedName → List String → Resolution (Option Function)}
    {findAction : QualifiedName → Resolution (Option Action)} {name : QualifiedName} {r : Resource}
    (hfind : ∀ {names names' : List String} {found : Option Function}, names'.Perm names →
      (findFunction name names).Gives answers found → (findFunction name names').Gives answers found)
    (h : Reads answers (calledOperation aliases noFunction noAction findFunction findAction name) source
      ts r rest)
    (hre : ReorderedTokens pairs pairs' ts ts') :
    ∃ r' rest', Reads answers (calledOperation aliases noFunction noAction findFunction findAction name)
        source' ts' r' rest' ∧
      rest'.map Token.word = rest.map Token.word ∧ r.Reordered pairs pairs' r' := by
  unfold calledOperation at h ⊢
  have ⟨left, right, _, _⟩ := hre
  rcases reads_ifSees.mp h with ⟨-, h⟩ | ⟨hnone, -⟩
  · obtain ⟨r', rest', h', hrest, hr⟩ := calledFunction_reordered hfind h hre
    exact ⟨r', rest', reads_ifSees.mpr (Or.inl ⟨right.firstToken_kind, h'⟩), hrest, hr⟩
  · exact absurd left.firstToken_kind hnone

theorem unboundOperation_reordered (ignore : answers.IgnoreOrder) {text : String} {r : Resource}
    (h : Reads answers (unboundOperation aliases text) source ts r rest)
    (hre : ReorderedTokens pairs pairs' ts ts') :
    ∃ r' rest', Reads answers (unboundOperation aliases text) source' ts' r' rest' ∧
      rest'.map Token.word = rest.map Token.word ∧ r.Reordered pairs pairs' r' := by
  obtain ⟨name, hname, h⟩ := reads_unboundOperation_iff.mp h
  obtain ⟨r', rest', h', hrest, hr⟩ := calledOperation_reordered (fun hperm hfound =>
    Resolution.gives_answerTo.mpr (ignore.unbound hperm (Resolution.gives_answerTo.mp hfound))) h hre
  exact ⟨r', rest', reads_unboundOperation_iff.mpr ⟨name, hname, h'⟩, hrest, hr⟩

theorem boundOperation_reordered (ignore : answers.IgnoreOrder) {name : QualifiedName}
    {binding : Binding} {r : Resource}
    (h : Reads answers (boundOperation aliases name binding) source ts r rest)
    (hre : ReorderedTokens pairs pairs' ts ts') :
    ∃ r' rest', Reads answers (boundOperation aliases name binding) source' ts' r' rest' ∧
      rest'.map Token.word = rest.map Token.word ∧ r.Reordered pairs pairs' r' := by
  have hform : boundOperation aliases name binding =
      calledOperation aliases (.functionNotFound name.text) (.actionNotFound name.text)
        (fun name names => Resolution.answerTo (.boundFunction name binding names))
        (fun name => Resolution.answerTo (.boundAction name binding)) name := rfl
  rw [hform] at h ⊢
  exact calledOperation_reordered (fun hperm hfound =>
    Resolution.gives_answerTo.mpr (ignore.bound hperm (Resolution.gives_answerTo.mp hfound))) h hre

/-- An action that is called by an import has empty parentheses, if any. -/
theorem reads_importedAction_of_argumentTokens {missing : SemanticError}
    {byImport : Csdl.ActionImport} {us : List Token} {r : Resource} (h : ArgumentTokens ts pairs us) :
    Reads answers (importedAction missing byImport) source ts r rest ↔
      pairs = [] ∧ rest = us ∧ ∃ a, answers (.unboundAction byImport.action) (some a) ∧
        (actionResource a (some byImport)).Gives answers r := by
  have hopen : TokenKind.openParen ≠ .endOfText := by decide
  have hclose : TokenKind.closeParen ≠ .endOfText := by decide
  unfold importedAction
  rw [reads_require_bind]
  simp only [reads_bind, reads_skips hopen, reads_ite, reads_lift, reads_expect hclose]
  constructor
  · rintro ⟨a, ha, _, _, ⟨rfl, opening, rfl, hopening⟩ | ⟨rfl, hnone, rfl⟩, hreads⟩
    · obtain ⟨-, closing, _, ⟨rfl, hclosing⟩, hgives, rfl⟩ | ⟨hfalse, -⟩ := hreads
      · have htokens : ArgumentTokens (opening :: closing :: rest) [] rest := .empty hopening hclosing
        obtain ⟨rfl, rfl⟩ := h.unique htokens
        exact ⟨rfl, rfl, a, Resolution.gives_answerTo.mp ha, hgives⟩
      · exact absurd rfl hfalse
    · exact absurd h.firstToken_kind hnone
  · rintro ⟨rfl, rfl, a, ha, hgives⟩
    cases h with
    | empty opens closes =>
      refine ⟨a, Resolution.gives_answerTo.mpr ha, true, _, Or.inl ⟨rfl, _, rfl, opens⟩,
        Or.inl ⟨rfl, ?_⟩⟩
      exact ⟨_, _, ⟨rfl, closes⟩, hgives, rfl⟩
    | named _ _ values => exact absurd rfl values.ne_nil

/-! ### Segments -/

theorem containerResource_reordered (ignore : answers.IgnoreOrder) {c : Container} {name : String}
    {r : Resource} (h : Reads answers (containerResource aliases c name) source ts r rest)
    (hre : ReorderedTokens pairs pairs' ts ts') :
    ∃ r' rest', Reads answers (containerResource aliases c name) source' ts' r' rest' ∧
      rest'.map Token.word = rest.map Token.word ∧ r.Reordered pairs pairs' r' := by
  have helement := containerResource_element aliases c name
  generalize containerResource aliases c name = reader at h helement ⊢
  cases helement with
  | entitySet =>
    obtain ⟨type, htype, hkeyed⟩ := reads_entitySetResource_iff.mp h
    obtain ⟨rest', hkeyed', hrest, hr⟩ := hkeyed.reordered (fun _ _ => ⟨rfl, by nofun⟩) hre
    exact ⟨r, rest', reads_entitySetResource_iff.mpr ⟨type, htype, hkeyed'⟩, hrest, hr⟩
  | singleton =>
    obtain ⟨left, -⟩ := hre
    rcases reads_ifSees.mp h with ⟨-, h⟩ | ⟨hnone, -⟩
    · exact absurd (reads_lift.mp h).1 Resolution.not_gives_reject
    · exact absurd left.firstToken_kind hnone
  | actionImport =>
    obtain ⟨left, right, words, perm⟩ := hre
    obtain ⟨rfl, rfl, haction⟩ := (reads_importedAction_of_argumentTokens left).mp h
    refine ⟨r, _, (reads_importedAction_of_argumentTokens right).mpr
      ⟨perm.eq_nil, rfl, haction⟩, words, .key ⟨nofun, fun _ => Or.inl rfl⟩⟩
  | functionImport =>
    exact calledFunction_reordered (fun hperm hfound =>
      Resolution.gives_answerTo.mpr (ignore.unbound hperm (Resolution.gives_answerTo.mp hfound))) h hre
  | missing => exact absurd (reads_lift.mp h).1 Resolution.not_gives_reject

theorem firstSegment_reordered (ignore : answers.IgnoreOrder) {name : String} {t t' : Token}
    (ht : t.word = Word.identifier name) (ht' : t'.word = Word.identifier name) {r : Resource}
    (h : Reads answers (firstSegment aliases) source (t :: ts) r rest)
    (hre : ReorderedTokens pairs pairs' ts ts') :
    ∃ r' rest', Reads answers (firstSegment aliases) source' (t' :: ts') r' rest' ∧
      rest'.map Token.word = rest.map Token.word ∧ r.Reordered pairs pairs' r' := by
  obtain ⟨-, htext⟩ := Token.eq_of_word ht
  obtain ⟨hkind', htext'⟩ := Token.eq_of_word ht'
  obtain ⟨_, _, heq, -, ⟨hqualified, h⟩ | ⟨hqualified, c, hc, h⟩⟩ := reads_firstSegment_iff.mp h
  · cases heq
    rw [htext] at hqualified h
    obtain ⟨r', rest', h', hrest, hr⟩ := unboundOperation_reordered ignore h hre
    refine ⟨r', rest', reads_firstSegment_iff.mpr ⟨t', ts', rfl, hkind', Or.inl ?_⟩, hrest, hr⟩
    rw [htext']
    exact ⟨hqualified, h'⟩
  · cases heq
    rw [htext] at hqualified h
    obtain ⟨r', rest', h', hrest, hr⟩ := containerResource_reordered ignore h hre
    refine ⟨r', rest', reads_firstSegment_iff.mpr ⟨t', ts', rfl, hkind', Or.inr ?_⟩, hrest, hr⟩
    rw [htext']
    exact ⟨hqualified, c, hc, h'⟩

/-- What a segment does, and what it does with its pairs in another order. -/
inductive SegmentEffect.Reordered (pairs pairs' : List (String × Word)) :
    SegmentEffect → SegmentEffect → Prop
  | narrow {last last' : Resource} (h : last.Reordered pairs pairs' last') :
      Reordered pairs pairs' (.narrow last) (.narrow last')
  | add {next next' : Resource} (h : next.Reordered pairs pairs' next') :
      Reordered pairs pairs' (.add next) (.add next')

variable {previous : Resource}

theorem casts_ne_none_of_cast {type : ModelType} {r r' : Resource} (h : r.cast type = .ok r') :
    r'.casts ≠ Casts.none := by
  obtain ⟨rfl, htakes, -⟩ := cast_eq_ok h
  rw [Resource.casts_withCasts_add htakes]
  cases r.isCollection <;> simp [Casts.add, Casts.none]

theorem castSegment_reordered {name : String} {type : ModelType} {r : Resource}
    (h : Reads answers (castSegment aliases previous name type) source ts r rest)
    (hre : ReorderedTokens pairs pairs' ts ts') :
    ∃ rest', Reads answers (castSegment aliases previous name type) source' ts' r rest' ∧
      rest'.map Token.word = rest.map Token.word ∧ r.Reordered pairs pairs' r := by
  obtain ⟨narrowed, hcast, hkeyed⟩ := reads_castSegment_iff.mp h
  have htakes : ∀ entity, TakesKeyAs previous type entity → narrowed.takesKey = true ∧
      (narrowed.isOperation = true → narrowed.casts ≠ Casts.none) := by
    intro entity htakes
    refine ⟨?_, fun _ => casts_ne_none_of_cast hcast⟩
    obtain ⟨rfl, -⟩ := cast_eq_ok hcast
    rw [Resource.takesKey_withCasts]
    exact htakes.2.2
  obtain ⟨rest', hkeyed', hrest, hr⟩ := hkeyed.reordered htakes hre
  exact ⟨rest', reads_castSegment_iff.mpr ⟨narrowed, hcast, hkeyed'⟩, hrest, hr⟩

theorem propertySegment_reordered {name : String} {r : Resource}
    (h : Reads answers (propertySegment aliases previous name) source ts r rest)
    (hre : ReorderedTokens pairs pairs' ts ts') :
    ∃ rest', Reads answers (propertySegment aliases previous name) source' ts' r rest' ∧
      rest'.map Token.word = rest.map Token.word ∧ r.Reordered pairs pairs' r := by
  obtain ⟨found, hfound, hkeyed⟩ := reads_propertySegment_iff.mp h
  have htakes : ∀ target, LeadsTo found target → found.takesKey = true ∧
      (found.isOperation = true → found.casts ≠ Casts.none) := by
    rintro target ⟨p, keys, casts, rfl, -⟩
    exact ⟨rfl, nofun⟩
  obtain ⟨rest', hkeyed', hrest, hr⟩ := hkeyed.reordered htakes hre
  exact ⟨rest', reads_propertySegment_iff.mpr ⟨found, hfound, hkeyed'⟩, hrest, hr⟩

theorem qualifiedSegment_reordered (ignore : answers.IgnoreOrder) {text : String}
    {effect : SegmentEffect}
    (h : Reads answers (qualifiedSegment aliases previous text) source ts effect rest)
    (hre : ReorderedTokens pairs pairs' ts ts') :
    ∃ effect' rest', Reads answers (qualifiedSegment aliases previous text) source' ts' effect' rest' ∧
      rest'.map Token.word = rest.map Token.word ∧ effect.Reordered pairs pairs' effect' := by
  obtain ⟨name, owner, hname, howner, ⟨type, last, htype, hcast, rfl⟩ |
    ⟨htype, next, hoperation, rfl⟩⟩ := reads_qualifiedSegment_iff.mp h
  · obtain ⟨rest', hcast', hrest, hr⟩ := castSegment_reordered hcast hre
    exact ⟨_, rest', reads_qualifiedSegment_iff.mpr ⟨name, owner, hname, howner,
      Or.inl ⟨type, last, htype, hcast', rfl⟩⟩, hrest, .narrow hr⟩
  · obtain ⟨next', rest', hoperation', hrest, hr⟩ := boundOperation_reordered ignore hoperation hre
    exact ⟨_, rest', reads_qualifiedSegment_iff.mpr ⟨name, owner, hname, howner,
      Or.inr ⟨htype, next', hoperation', rfl⟩⟩, hrest, .add hr⟩

theorem nextSegment_reordered (ignore : answers.IgnoreOrder) {name : String} {t t' : Token}
    (ht : t.word = Word.identifier name) (ht' : t'.word = Word.identifier name)
    {effect : SegmentEffect}
    (h : Reads answers (nextSegment aliases previous) source (t :: ts) effect rest)
    (hre : ReorderedTokens pairs pairs' ts ts') :
    ∃ effect' rest', Reads answers (nextSegment aliases previous) source' (t' :: ts') effect' rest' ∧
      rest'.map Token.word = rest.map Token.word ∧ effect.Reordered pairs pairs' effect' := by
  obtain ⟨hkind, htext⟩ := Token.eq_of_word ht
  obtain ⟨hkind', htext'⟩ := Token.eq_of_word ht'
  obtain ⟨_, _, heq, hmay, h⟩ := reads_nextSegment_iff.mp h
  cases heq
  rw [hkind, htext] at h
  rw [hkind, ← hkind'] at hmay
  rcases h with ⟨hdollar, -⟩ | ⟨-, hqualified, h⟩ | ⟨-, hqualified, next, hproperty, rfl⟩
  · cases hdollar
  · obtain ⟨effect', rest', h', hrest, heffect⟩ := qualifiedSegment_reordered ignore h hre
    refine ⟨effect', rest', reads_nextSegment_iff.mpr ⟨t', ts', rfl, hmay, Or.inr (Or.inl ?_)⟩, hrest,
      heffect⟩
    rw [htext']
    exact ⟨hkind', hqualified, h'⟩
  · obtain ⟨rest', hproperty', hrest, hr⟩ := propertySegment_reordered hproperty hre
    refine ⟨.add next, rest', reads_nextSegment_iff.mpr ⟨t', ts', rfl, hmay, Or.inr (Or.inr ?_)⟩, hrest,
      .add hr⟩
    rw [htext']
    exact ⟨hkind', hqualified, next, hproperty', rfl⟩

/-- A segment that narrows keeps a key, and it leaves a cast. -/
theorem keys_of_nextSegment {last : Resource} (hkeys : previous.keys ≠ [])
    (h : Reads answers (nextSegment aliases previous) source ts (.narrow last) rest) :
    last.keys = previous.keys ∧ last.casts ≠ Casts.none := by
  obtain ⟨t, us, rfl, -, ⟨-, _, -, heq, -⟩ | ⟨-, -, h⟩ | ⟨-, -, _, -, heq⟩⟩ :=
    reads_nextSegment_iff.mp h
  · cases heq
  · obtain ⟨name, owner, -, -, ⟨type, _, -, hcast, heq⟩ | ⟨-, _, -, heq⟩⟩ :=
      reads_qualifiedSegment_iff.mp h
    · cases heq
      obtain ⟨narrowed, hcast, hkeyed⟩ := reads_castSegment_iff.mp hcast
      have hcasts := casts_ne_none_of_cast hcast
      obtain ⟨rfl, -⟩ := cast_eq_ok hcast
      cases hkeyed with
      | without => exact ⟨Resource.keys_withCasts .., hcasts⟩
      | withKey allowed => exact absurd (Resource.keys_eq_nil allowed.2.1) hkeys
    · cases heq
  · cases heq

/-! ### Paths -/

/-- Behind a resource with a key comes the same resource, or the resource with the same key and a cast. -/
theorem followSegments_keys {last : Resource} {segments : List String} {path : List Resource}
    (hkeys : last.keys ≠ []) (h : (followSegments aliases last [] segments).Gives answers path) :
    ∃ r behind, path = r :: behind ∧ (r = last ∨ r.keys = last.keys ∧ r.casts ≠ Casts.none) := by
  induction segments generalizing last path with
  | nil =>
    cases Resolution.gives_pure.mp h
    exact ⟨last, [], rfl, Or.inl rfl⟩
  | cons segment segments ih =>
    cases hend : segment.isEmpty && segments.isEmpty with
    | true =>
      rw [followSegments, if_pos hend] at h
      cases Resolution.gives_pure.mp h
      exact ⟨last, [], rfl, Or.inl rfl⟩
    | false =>
      obtain ⟨effect, heffect, h⟩ := (followSegments_cons hend).mp h
      cases effect with
      | narrow narrowed =>
        obtain ⟨tokens, left, -, hreads, -⟩ := gives_readAll.mp heffect
        obtain ⟨hsame, hcasts⟩ := keys_of_nextSegment hkeys hreads
        obtain ⟨r, behind, rfl, rfl | ⟨hr, hrcasts⟩⟩ := ih (by rwa [hsame]) h
        · exact ⟨r, behind, rfl, Or.inr ⟨hsame, hcasts⟩⟩
        · exact ⟨r, behind, rfl, Or.inr ⟨hr.trans hsame, hrcasts⟩⟩
      | add next =>
        obtain ⟨behind, -, rfl⟩ := gives_followSegments_append.mp h
        exact ⟨last, behind, rfl, Or.inl rfl⟩

/-- The same resources, but for one that is read from pairs in another order. -/
inductive ReorderedPath (pairs pairs' : List (String × Word)) : List Resource → List Resource → Prop
  | here {r r' : Resource} {behind : List Resource} (h : r.Reordered pairs pairs' r') :
      ReorderedPath pairs pairs' (r :: behind) (r' :: behind)
  | later {r : Resource} {path path' : List Resource} (h : ReorderedPath pairs pairs' path path') :
      ReorderedPath pairs pairs' (r :: path) (r :: path')

/-- What follows does the same behind a resource with its pairs in another order. -/
theorem followSegments_reordered {last last' : Resource} (hlast : last.Reordered pairs pairs' last')
    {segments : List String} {path : List Resource}
    (h : (followSegments aliases last [] segments).Gives answers path) :
    ∃ path', ReorderedPath pairs pairs' path path' ∧
      (followSegments aliases last' [] segments).Gives answers path' := by
  cases hlast with
  | @call f byImport arguments arguments' returnType keys casts names names' perm =>
    obtain ⟨r, behind, rfl, ⟨casts', keys', rfl⟩, hsame⟩ := followSegments_mapCall h
    exact ⟨_, .here (.call names names' perm), hsame id fun _ => arguments'⟩
  | key keyed =>
    obtain ⟨r, behind, rfl, hr⟩ : ∃ r behind, path = r :: behind ∧ r.KeyedBy pairs := by
      by_cases hpairs : pairs = []
      · obtain ⟨r, behind, rfl, -⟩ := followSegments_mapCall h
        exact ⟨r, behind, rfl, by simp [hpairs, NamesKeys], fun _ => Or.inl hpairs⟩
      · obtain ⟨r, behind, rfl, rfl | ⟨hkeys, hcasts⟩⟩ :=
          followSegments_keys (keyed.named.keys_ne_nil hpairs) h
        · exact ⟨r, behind, rfl, keyed⟩
        · exact ⟨r, behind, rfl, by rw [hkeys]; exact keyed.named, fun _ => Or.inr hcasts⟩
    exact ⟨_, .here (.key hr), h⟩

/-- A segment that is a name with pairs behind it, and the same segment with the pairs in another
order. -/
inductive ReorderedCall (pairs pairs' : List (String × Word)) (segment segment' : String) : Prop
  | intro {name : String} {t t' : Token} {ts ts' : List Token} (tokens : tokenize segment = .ok (t :: ts))
      (tokens' : tokenize segment' = .ok (t' :: ts')) (isName : t.word = Word.identifier name)
      (isName' : t'.word = Word.identifier name) (reordered : ReorderedTokens pairs pairs' ts ts')

namespace ReorderedCall

variable {segment segment' : String}

theorem symm (h : ReorderedCall pairs pairs' segment segment') :
    ReorderedCall pairs' pairs segment' segment := by
  obtain ⟨tokens, tokens', isName, isName', reordered⟩ := h
  exact ⟨tokens', tokens, isName', isName, reordered.symm⟩

theorem isEmpty_eq_false (h : ReorderedCall pairs pairs' segment segment') :
    segment.isEmpty = false := by
  obtain ⟨tokens, -, isName, -⟩ := h
  rw [String.isEmpty_eq_false_iff]
  rintro rfl
  obtain ⟨hkind, -⟩ := Token.eq_of_word isName
  rw [tokenize_eq_ok, String.toList_empty, Lexeme.tokensFrom] at tokens
  cases tokens
  cases hkind

/-- Behind the same resources the segments lead to the same, but for the order of the pairs. -/
theorem gives_followSegments (hcall : ReorderedCall pairs pairs' segment segment')
    (ignore : answers.IgnoreOrder) {last : Resource} {front after : List String} {path : List Resource}
    (h : (followSegments aliases last [] (front ++ segment :: after)).Gives answers path) :
    ∃ path', ReorderedPath pairs pairs' path path' ∧
      (followSegments aliases last [] (front ++ segment' :: after)).Gives answers path' := by
  induction front generalizing last path with
  | nil =>
    have hmore : (segment.isEmpty && after.isEmpty) = false := by rw [hcall.isEmpty_eq_false]; rfl
    have hmore' : (segment'.isEmpty && after.isEmpty) = false := by
      rw [hcall.symm.isEmpty_eq_false]
      rfl
    obtain ⟨effect, heffect, h⟩ := (followSegments_cons hmore).mp h
    obtain ⟨tokens, tokens', isName, isName', reordered⟩ := hcall
    obtain ⟨_, rest, htokens, hreads, hend⟩ := gives_readAll.mp heffect
    obtain rfl := Except.ok.inj (htokens.symm.trans tokens)
    obtain ⟨effect', rest', hreads', hrest, hre⟩ :=
      nextSegment_reordered ignore isName isName' hreads reordered
    have heffect' : (readAll (nextSegment aliases last) segment').Gives answers effect' :=
      gives_readAll.mpr ⟨_, rest', tokens', hreads', by rwa [firstToken_kind_of_words hrest]⟩
    cases hre with
    | narrow hre =>
      obtain ⟨path', hpath, h'⟩ := followSegments_reordered hre h
      exact ⟨path', hpath, (followSegments_cons hmore').mpr ⟨_, heffect', h'⟩⟩
    | add hre =>
      obtain ⟨behind, hbehind, rfl⟩ := gives_followSegments_append.mp h
      obtain ⟨behind', hpath, hbehind'⟩ := followSegments_reordered hre hbehind
      exact ⟨last :: behind', .later hpath, (followSegments_cons hmore').mpr ⟨_, heffect',
        gives_followSegments_append.mpr ⟨behind', hbehind', rfl⟩⟩⟩
  | cons first front ih =>
    have hmore : ∀ segment, (first.isEmpty && (front ++ segment :: after).isEmpty) = false := by
      intro segment
      simp
    obtain ⟨effect, heffect, h⟩ := (followSegments_cons (hmore segment)).mp h
    cases effect with
    | narrow narrowed =>
      obtain ⟨path', hpath, h'⟩ := ih h
      exact ⟨path', hpath, (followSegments_cons (hmore segment')).mpr ⟨_, heffect, h'⟩⟩
    | add next =>
      obtain ⟨behind, hbehind, rfl⟩ := gives_followSegments_append.mp h
      obtain ⟨behind', hpath, hbehind'⟩ := ih hbehind
      exact ⟨last :: behind', .later hpath, (followSegments_cons (hmore segment')).mpr ⟨_, heffect,
        gives_followSegments_append.mpr ⟨behind', hbehind', rfl⟩⟩⟩

/-- The same holds of paths that start with the segments. -/
theorem gives_resourcePath_first (hcall : ReorderedCall pairs pairs' segment segment')
    (ignore : answers.IgnoreOrder) {after : List String} {path : List Resource}
    (h : (resourcePath aliases segment after).Gives answers path) :
    ∃ path', ReorderedPath pairs pairs' path path' ∧
      (resourcePath aliases segment' after).Gives answers path' := by
  obtain ⟨first, hfirst, h⟩ := Resolution.gives_bind.mp h
  obtain ⟨tokens, tokens', isName, isName', reordered⟩ := hcall
  obtain ⟨_, rest, htokens, hreads, hend⟩ := gives_readAll.mp hfirst
  obtain rfl := Except.ok.inj (htokens.symm.trans tokens)
  obtain ⟨first', rest', hreads', hrest, hre⟩ :=
    firstSegment_reordered ignore isName isName' hreads reordered
  obtain ⟨path', hpath, h'⟩ := followSegments_reordered hre h
  refine ⟨path', hpath, Resolution.gives_bind.mpr ⟨first', ?_, h'⟩⟩
  exact gives_readAll.mpr ⟨_, rest', tokens', hreads', by rwa [firstToken_kind_of_words hrest]⟩

/-- The same holds of paths that start with another segment. -/
theorem gives_resourcePath_later (hcall : ReorderedCall pairs pairs' segment segment')
    (ignore : answers.IgnoreOrder) {first : String} {front after : List String} {path : List Resource}
    (h : (resourcePath aliases first (front ++ segment :: after)).Gives answers path) :
    ∃ path', ReorderedPath pairs pairs' path path' ∧
      (resourcePath aliases first (front ++ segment' :: after)).Gives answers path' := by
  obtain ⟨start, hstart, h⟩ := Resolution.gives_bind.mp h
  obtain ⟨path', hpath, h'⟩ := hcall.gives_followSegments ignore h
  exact ⟨path', hpath, Resolution.gives_bind.mpr ⟨start, hstart, h'⟩⟩

end ReorderedCall

end ODataRequest
