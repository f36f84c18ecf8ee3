import ODataRequest.Proofs.Path.Resolved
import ODataRequest.Proofs.Request.OptionOrder

/-!
# ODataRequest.Proofs.Request.Accounting

An accepted request accounts for all that it was given (`Request.read_accounts`). Each pair of the query
is one item (`QueryItem.Of`), and the tables of the request are the items of each sort: nothing is
dropped, added or kept twice. What the path leads to decides which of the other parts of a request may
be there.

The entity sets of a cross join are those of the container that the directory answers when it is asked
for the default one. The directory may be in any state, and it may answer differently later, so it
matters when it is asked. Reading a cross join asks nothing before (`readsFirst_crossJoin`); that
is what `Resolution.GivesFirst` is for.
-/

namespace ODataRequest

open TokenReader

variable {α β : Type} {config : Config}

/-! ### Items -/

/-- What stands in front of the first equals sign of a pair and what stands behind it, decoded. A pair
without an equals sign is a name. -/
structure ReadsPair (pair : List Char) (name text : String) : Prop where
  front : decoded (String.ofList ((Text.cutAt? '=' pair).getD (pair, [])).1) = .ok name
  behind : decoded (String.ofList ((Text.cutAt? '=' pair).getD (pair, [])).2) = .ok text

/-- What a pair of a query is: its name says where its text belongs. -/
inductive QueryItem.Of (config : Config) (pair : List Char) : QueryItem → Prop
  | parameterAlias {name text : String} (reads : ReadsPair pair name text)
      (sign : name.toList.head? = some '@') : Of config pair (.parameterAlias name text)
  | system {name text : String} {kind : OptionKind} (reads : ReadsPair pair name text)
      (noSign : name.toList.head? ≠ some '@') (isKind : optionKind? config name = .ok (some kind))
      (notLevels : kind ≠ .levels) : Of config pair (.system kind text)
  | custom {name text : String} (reads : ReadsPair pair name text)
      (noSign : name.toList.head? ≠ some '@') (noKind : optionKind? config name = .ok none) :
      Of config pair (.custom name text)

theorem QueryItem.of_ofPair {pair : List Char} {item : QueryItem} (h : ofPair config pair = .ok item) :
    Of config pair item := by
  unfold ofPair at h
  obtain ⟨name, hname, h⟩ := except_bind_eq_ok.mp h
  obtain ⟨text, htext, h⟩ := except_bind_eq_ok.mp h
  unfold ofName at h
  split at h
  · next sign =>
    cases h
    exact .parameterAlias ⟨hname, htext⟩ sign
  · next noSign =>
    obtain ⟨kind?, hkind, h⟩ := except_bind_eq_ok.mp h
    split at h
    · cases h
      exact .custom ⟨hname, htext⟩ noSign hkind
    · cases h
    · next kind notLevels =>
      cases h
      exact .system ⟨hname, htext⟩ noSign hkind notLevels

theorem QueryItem.system?_eq_some {item : QueryItem} {kind : OptionKind} {text : String} :
    item.system? = some (kind, text) ↔ item = .system kind text := by
  cases item <;> simp [system?]

/-! ### First questions -/

/-- What a directory answers to a question now. -/
def Directory.answersNow (d : Directory) : Answers :=
  fun q answer => (q.ask.runOn d).1 = .ok answer

namespace Resolution

variable {first : Answers}

/-- The resolution is done with the value for some answers to its questions, where `first` says which
answers are possible to the first question. -/
def GivesFirst (first : Answers) : Resolution α → α → Prop
  | .done value, a => value = a
  | .fail _, _ => False
  | .ask q next, a => ∃ answer, first q answer ∧ (next answer).Gives .any a

/-- The first question is put to the directory as it is. -/
theorem givesFirst_of_runOn {x : Resolution α} {d : Directory} {a : α} (h : (x.runOn d).1 = .ok a) :
    x.GivesFirst d.answersNow a := by
  cases x with
  | done value => exact Except.ok.inj h
  | fail error => cases h
  | ask q next =>
    unfold runOn at h
    split at h
    · next answer d' hanswer => exact ⟨answer, congrArg Prod.fst hanswer, gives_of_runOn h⟩
    · cases h

theorem GivesFirst.gives {x : Resolution α} {a : α} (h : x.GivesFirst first a) : x.Gives .any a := by
  cases x with
  | done value =>
    cases h
    exact .done a
  | fail error => cases h
  | ask q next =>
    obtain ⟨answer, -, h⟩ := h
    exact .ask trivial h

/-- Whether more is done afterwards or not, the first question is the same. -/
theorem GivesFirst.of_bind {x : Resolution α} {f : α → Resolution β} {b : β}
    (h : (x >>= f).GivesFirst first b) : ∃ a, x.GivesFirst first a ∧ (f a).Gives .any b := by
  cases x with
  | done a => exact ⟨a, rfl, GivesFirst.gives h⟩
  | fail error => cases h
  | ask q next =>
    obtain ⟨answer, hanswer, h⟩ := h
    obtain ⟨a, ha, hb⟩ := gives_bind.mp h
    exact ⟨a, ⟨answer, hanswer, ha⟩, hb⟩

/-- The resolution asks nothing. -/
def Silent (x : Resolution α) : Prop :=
  ∀ q next, x ≠ .ask q next

/-- Behind a part that asks nothing, the first question is still to come. -/
theorem GivesFirst.of_silent_bind {x : Resolution α} {f : α → Resolution β} {b : β} (silent : x.Silent)
    (h : (x >>= f).GivesFirst first b) : ∃ a, x.Gives .any a ∧ (f a).GivesFirst first b := by
  cases x with
  | done a => exact ⟨a, .done a, h⟩
  | fail error => cases h
  | ask q next => exact absurd rfl (silent q next)

theorem silent_done (a : α) : (done a).Silent := by
  intro q next h
  cases h

theorem silent_fail (error : RequestError) : (fail error : Resolution α).Silent := by
  intro q next h
  cases h

theorem silent_ofGrammar (x : Except GrammarError α) : (ofGrammar x).Silent := by
  cases x with
  | ok a => exact silent_done a
  | error e => exact silent_fail _

theorem Silent.bind {x : Resolution α} {f : α → Resolution β} (hx : x.Silent)
    (hf : ∀ a, (f a).Silent) : (x >>= f).Silent := by
  cases x with
  | done a => exact hf a
  | fail error => exact silent_fail error
  | ask q next => exact absurd rfl (hx q next)

end Resolution

namespace TokenReader

variable {first : Answers} {source : String}

/-- The reader gives the value and leaves the tokens `rest`, where `first` says which answers to its
first question are possible. -/
def ReadsFirst (first : Answers) (x : TokenReader α) (source : String) (tokens : List Token)
    (value : α) (rest : List Token) : Prop :=
  ∃ h, (x source tokens).GivesFirst first (value, ⟨rest, h⟩)

/-- The reader asks nothing. -/
def Silent (x : TokenReader α) : Prop :=
  ∀ source tokens, (x source tokens).Silent

theorem Silent.bind {x : TokenReader α} {f : α → TokenReader β} (hx : x.Silent)
    (hf : ∀ a, (f a).Silent) : (x >>= f).Silent := by
  intro source tokens
  refine (hx source tokens).bind fun read => ?_
  exact (hf read.1 source read.2.1).bind fun _ => Resolution.silent_done _

theorem silent_pure (a : α) : (Pure.pure a : TokenReader α).Silent :=
  fun _ _ => Resolution.silent_done _

theorem silent_malformed : (malformed : TokenReader α).Silent :=
  fun _ _ => Resolution.silent_fail _

theorem silent_peek : peek.Silent :=
  fun _ _ => Resolution.silent_done _

theorem silent_next : next.Silent := by
  intro source tokens
  cases tokens with
  | nil => exact Resolution.silent_done _
  | cons t rest =>
    by_cases hend : t.kind = .endOfText
    · simp only [next, if_pos hend]
      exact Resolution.silent_done _
    · simp only [next, if_neg hend]
      exact Resolution.silent_done _

theorem silent_expect (kind : TokenKind) : (expect kind).Silent := by
  refine Silent.bind (silent_peek.bind fun _ => silent_pure _) fun sees => ?_
  split
  · exact silent_next
  · exact silent_malformed

/-- Behind a part that asks nothing, the first question is still to come. -/
theorem ReadsFirst.of_silent_bind {x : TokenReader α} {f : α → TokenReader β} {b : β}
    {ts rest : List Token} (silent : x.Silent) (h : ReadsFirst first (x >>= f) source ts b rest) :
    ∃ a between, Reads .any x source ts a between ∧ ReadsFirst first (f a) source between b rest := by
  obtain ⟨_, h⟩ := h
  obtain ⟨⟨a, between, hle⟩, hx, h⟩ := Resolution.GivesFirst.of_silent_bind (silent source ts) h
  obtain ⟨⟨b', rest', hle'⟩, hf, h⟩ := Resolution.GivesFirst.of_bind h
  cases Resolution.gives_pure.mp h
  exact ⟨a, between, ⟨hle, hx⟩, hle', hf⟩

/-- The default container is asked for. -/
theorem ReadsFirst.of_container_bind {f : Container → TokenReader β} {b : β} {ts rest : List Token}
    (h : ReadsFirst first ((liftM requireContainer : TokenReader Container) >>= f) source ts b rest) :
    ∃ container, first .container (some container) ∧ Reads .any (f container) source ts b rest := by
  obtain ⟨_, answer, hanswer, h⟩ := h
  cases answer with
  | none => exact absurd h Resolution.not_gives_fail
  | some container =>
    obtain ⟨⟨_, _, _⟩, hcontainer, h⟩ := Resolution.gives_bind.mp h
    cases Resolution.gives_pure.mp hcontainer
    obtain ⟨⟨b', rest', hle'⟩, hf, h⟩ := Resolution.gives_bind.mp h
    cases Resolution.gives_pure.mp h
    exact ⟨container, hanswer, hle', hf⟩

end TokenReader

/-! ### Cross joins -/

/-- Items with commas between them are one at least, and each of them has been read. -/
theorem TokenReader.ReadsItems.each {answers : Answers} {item : TokenReader α} {source : String}
    {P : α → Prop} (hitem : ∀ ts a rest, Reads answers item source ts a rest → P a)
    {ts rest : List Token} {as : List α} (h : ReadsItems answers item source ts as rest) :
    as ≠ [] ∧ ∀ a ∈ as, P a := by
  induction h with
  | last h => exact ⟨by simp, List.forall_mem_singleton.mpr (hitem _ _ _ h)⟩
  | more h _ _ ih => exact ⟨by simp, List.forall_mem_cons.mpr ⟨hitem _ _ _ h, ih.2⟩⟩

/-- A cross join names entity sets of the container that is asked for first. -/
theorem readsFirst_crossJoin {first : Answers} {source : String} {ts rest : List Token}
    {address : Address} (h : ReadsFirst first crossJoin source ts address rest) :
    ∃ container sets, first .container (some container) ∧ address = .crossJoin sets ∧ sets ≠ [] ∧
      ∀ name ∈ sets, ∃ set, container.entitySet? name = some set := by
  unfold crossJoin at h
  obtain ⟨t, ts, -, h⟩ := h.of_silent_bind silent_next
  dsimp only at h
  split at h
  · obtain ⟨_, _, hmalformed, -⟩ := h.of_silent_bind silent_malformed
    exact absurd hmalformed not_reads_malformed
  obtain ⟨opening, ts, -, h⟩ := h.of_silent_bind (silent_expect _)
  obtain ⟨container, hcontainer, h⟩ := h.of_container_bind
  obtain ⟨sets, ts, hsets, h⟩ := reads_bind.mp h
  obtain ⟨closing, ts, -, h⟩ := reads_bind.mp h
  obtain ⟨rfl, -⟩ := reads_pure.mp h
  refine ⟨container, sets, hcontainer, rfl, (reads_commaSeparated.mp hsets).each ?_⟩
  intro ts name rest hname
  unfold joinedName at hname
  simp only [reads_bind, reads_lift, reads_pure, Resolution.gives_require] at hname
  obtain ⟨_, _, -, set, _, ⟨hset, -⟩, rfl, -⟩ := hname
  exact ⟨set, hset⟩

theorem readsFirst_of_readAll {first : Answers} {x : TokenReader α} {text : String} {a : α}
    (h : (readAll x text).GivesFirst first a) : ∃ ts rest, ReadsFirst first x text ts a rest := by
  obtain ⟨tokens, -, h⟩ := h.of_silent_bind (Resolution.silent_ofGrammar _)
  obtain ⟨⟨value, rest, hle⟩, hx, h⟩ := h.of_bind
  obtain ⟨_, -, h⟩ := Resolution.gives_bind.mp h
  cases Resolution.gives_pure.mp h
  exact ⟨tokens, rest, hle, hx⟩

/-- An address of entity sets is a cross join that has been read. -/
theorem givesFirst_addressOf {first : Answers} {aliases : AliasTable} {segments sets : List String}
    (h : (addressOf aliases segments).GivesFirst first (.crossJoin sets)) :
    ∃ text, (readAll crossJoin text).GivesFirst first (.crossJoin sets) := by
  cases segments with
  | nil => cases Resolution.gives_pure.mp h.gives
  | cons text rest =>
    cases addressForm h.gives with
    | crossJoin _ reader => exact ⟨text, reader ▸ h⟩

/-! ### Requests -/

namespace Address

theorem exists_of_path (a : Address) (h : a.path ≠ []) : ∃ path, a = .resource path := by
  cases a with
  | resource path => exact ⟨path, rfl⟩
  | _ => exact absurd rfl h

theorem exists_of_joined (a : Address) (h : a.joined ≠ []) : ∃ sets, a = .crossJoin sets := by
  cases a with
  | crossJoin sets => exact ⟨sets, rfl⟩
  | _ => exact absurd rfl h

theorem exists_of_cast? (a : Address) (h : a.cast? ≠ none) :
    ∃ cast, a = .all cast ∨ a = .entityId cast := by
  cases a with
  | all cast => exact ⟨cast, .inl rfl⟩
  | entityId cast => exact ⟨cast, .inr rfl⟩
  | _ => exact absurd rfl h

end Address

namespace Request

variable {path : String} {query fragment : Option String} {r : Request} {d : Directory}

/-- What the tables of a request hold: the items of its query, each in the table of its sort. -/
structure Accounts (config : Config) (query : Option String) (items : List QueryItem) (r : Request) :
    Prop where
  each : List.Forall₂ (QueryItem.Of config) (QueryParts.pairsOf (query.getD "")) items
  aliases : r.aliases.Perm (items.filterMap QueryItem.alias?)
  custom : r.customOptions = items.filterMap QueryItem.custom?
  options : r.options.map (fun o => (o.value.kind, o.raw)) = items.filterMap QueryItem.system?
  aliasesApart : (r.aliases.map (·.1)).Nodup
  kindsApart : (r.options.map (·.value.kind)).Nodup
  given : ∀ kind, (∃ o ∈ r.options, o.value.kind = kind) ↔ ∃ text, .system kind text ∈ items
  noLevels : ∀ o ∈ r.options, o.value.kind ≠ .levels

/-- What goes with what a request addresses. The entity sets of a cross join are those of the container
that `first` gives as the default one. -/
structure OneKind (first : Answers) (r : Request) : Prop where
  resources : r.address.path ≠ [] ↔ ∃ path, r.address = .resource path
  cast : r.address.cast? ≠ none → ∃ cast, r.address = .all cast ∨ r.address = .entityId cast
  joined : r.address.joined ≠ [] ↔ ∃ sets, r.address = .crossJoin sets
  sets : ∀ sets, r.address = .crossJoin sets → ∃ container, first .container (some container) ∧
    ∀ name ∈ sets, ∃ set, container.entitySet? name = some set
  id : ∀ cast, r.address = .entityId cast → ∃ o ∈ r.options, ∃ text, o.value = .id text ∧ text ≠ ""

/-- Options that are read are those that are given: each keeps its text, and its value is of its kind. -/
theorem map_given_of_forall₂ {answers : Answers} {scope : Scope} {given : List (OptionKind × String)}
    {options : List SystemOption}
    (h : List.Forall₂ (fun option o => (systemOption config scope option).Gives answers o) given
      options) : options.map (fun o => (o.value.kind, o.raw)) = given := by
  induction h with
  | nil => rfl
  | @cons option o given options ho _ ih =>
    obtain ⟨hkind, hraw, -⟩ := gives_systemOption.mp ho
    rw [List.map_cons, ih, hraw, show o.value.kind = option.1 from hkind]

theorem exists_accounts (h : (read config path query fragment).Gives .any r) :
    ∃ items, r.Accounts config query items := by
  obtain ⟨items, segments, hitems, hdistinct, -, -, hoptions, -, -, hcustom, haliases⟩ := gives_read.mp h
  obtain ⟨hkinds, hlevels⟩ := kinds_of_gives_read h
  have hperm : r.aliases.Perm (items.filterMap QueryItem.alias?) := by
    rw [haliases]
    exact List.mergeSort_perm _ _
  have hsystem : r.options.map (fun o => (o.value.kind, o.raw)) = items.filterMap QueryItem.system? :=
    map_given_of_forall₂ hoptions
  refine ⟨items, ?_, hperm, hcustom, hsystem, ?_, hkinds, fun kind => ?_, fun o ho hkind => ?_⟩
  · exact hitems.imp fun _ _ => QueryItem.of_ofPair
  · exact (hperm.map _).nodup_iff.mpr hdistinct.aliases
  · constructor
    · rintro ⟨o, ho, rfl⟩
      have hmem : (o.value.kind, o.raw) ∈ items.filterMap QueryItem.system? := by
        rw [← hsystem]
        exact List.mem_map_of_mem ho
      obtain ⟨item, hitem, heq⟩ := List.mem_filterMap.mp hmem
      rw [QueryItem.system?_eq_some.mp heq] at hitem
      exact ⟨o.raw, hitem⟩
    · rintro ⟨text, hitem⟩
      have hmem : (kind, text) ∈ r.options.map (fun o => (o.value.kind, o.raw)) := by
        rw [hsystem]
        exact List.mem_filterMap.mpr ⟨_, hitem, rfl⟩
      obtain ⟨o, ho, heq⟩ := List.mem_map.mp hmem
      exact ⟨o, ho, congrArg Prod.fst heq⟩
  · exact hlevels (List.mem_map.mpr ⟨o, ho, hkind⟩)

/-- An entity that is given by its id has one, and it is not empty. -/
theorem exists_id_of_gives_read (h : (read config path query fragment).Gives .any r)
    {cast : Option EntityType} (haddress : r.address = .entityId cast) :
    ∃ o ∈ r.options, ∃ text, o.value = .id text ∧ text ≠ "" := by
  obtain ⟨items, segments, -, -, -, -, hoptions, hid, -⟩ := gives_read.mp h
  rw [haddress, requireId] at hid
  cases hfind : SystemOption.find? r.options .id with
  | none => simp [hfind] at hid
  | some o =>
    have ho := List.mem_of_find?_eq_some hfind
    have hkind : o.kind = .id := by simpa using List.find?_some hfind
    obtain ⟨option, -, hread⟩ := exists_left_of_forall₂ hoptions ho
    obtain ⟨hsame, -, hvalue⟩ := gives_systemOption.mp hread
    rw [← hsame, hkind] at hvalue
    have hvalue : (nonEmptyText .id option.2 >>= fun text => Pure.pure (.id text)).Gives .any o.value := by
      cases hroom : config.maxNesting <;> rw [hroom] at hvalue <;> exact hvalue
    obtain ⟨text, htext, hvalue⟩ := Resolution.gives_bind.mp hvalue
    refine ⟨o, ho, text, (Resolution.gives_pure.mp hvalue).symm, ?_⟩
    unfold nonEmptyText at htext
    split at htext
    · exact absurd htext Resolution.not_gives_refuse
    · next hne =>
      cases Resolution.gives_pure.mp htext
      simpa using hne

/-- Nothing is asked before the address is read. -/
theorem givesFirst_address {first : Answers}
    (h : (read config path query fragment).GivesFirst first r) :
    ∃ aliases segments, (addressOf aliases segments).GivesFirst first r.address := by
  unfold read at h
  obtain ⟨parts, -, h⟩ := h.of_silent_bind (Resolution.silent_ofGrammar _)
  obtain ⟨segments, -, h⟩ := h.of_silent_bind (Resolution.silent_ofGrammar _)
  obtain ⟨address, haddress, h⟩ := h.of_bind
  obtain ⟨options, -, h⟩ := Resolution.gives_bind.mp h
  obtain ⟨_, -, h⟩ := Resolution.gives_bind.mp h
  cases Resolution.gives_pure.mp h
  exact ⟨_, segments, haddress⟩

theorem oneKind_of_givesFirst {first : Answers}
    (h : (read config path query fragment).GivesFirst first r) : r.OneKind first := by
  obtain ⟨aliases, segments, haddress⟩ := givesFirst_address h
  have hpath : ∀ path, r.address = .resource path → path ≠ [] := by
    intro path hresource
    have hgives := haddress.gives
    rw [hresource] at hgives
    obtain ⟨segment, rest, hresolved⟩ := gives_addressOf hgives
    obtain ⟨resource, others, rfl, -⟩ := (gives_resourcePath hresolved).first
    exact List.cons_ne_nil _ _
  have hsets : ∀ sets, r.address = .crossJoin sets → sets ≠ [] ∧ ∃ container,
      first .container (some container) ∧ ∀ name ∈ sets, ∃ set, container.entitySet? name = some set := by
    intro sets hjoin
    rw [hjoin] at haddress
    obtain ⟨text, hread⟩ := givesFirst_addressOf haddress
    obtain ⟨ts, rest, hread⟩ := readsFirst_of_readAll hread
    obtain ⟨container, _, hcontainer, ⟨⟩, hne, hsets⟩ := readsFirst_crossJoin hread
    exact ⟨hne, container, hcontainer, hsets⟩
  refine ⟨⟨r.address.exists_of_path, ?_⟩, r.address.exists_of_cast?, ⟨r.address.exists_of_joined, ?_⟩,
    fun sets hjoin => (hsets sets hjoin).2, fun cast => exists_id_of_gives_read h.gives⟩
  · rintro ⟨path, hresource⟩
    rw [hresource]
    exact hpath path hresource
  · rintro ⟨sets, hjoin⟩
    rw [hjoin]
    exact (hsets sets hjoin).1

/-- Whatever directory a request is read on, in whatever state: if it is accepted, it accounts for the
whole query, and its parts are those of one kind of request. -/
theorem read_accounts (h : ((read config path query fragment).runOn d).1 = .ok r) :
    (∃ items, r.Accounts config query items) ∧ r.OneKind d.answersNow :=
  ⟨exists_accounts (Resolution.gives_of_runOn h),
    oneKind_of_givesFirst (Resolution.givesFirst_of_runOn h)⟩

/-- A query with each sort of item, some of them escaped, and with an empty pair. -/
private def mixedQuery : String :=
  "note=a%26b&$top=2&&%40a=%27x%27&%24format=json&note"

/-- What is kept of an accepted request: the entity sets of a cross join, the other options, the texts of
the system query options by their kinds, and the aliases. -/
private structure KeptParts where
  joined : List String
  custom : List (String × String)
  options : List (OptionKind × String)
  aliases : List (String × String)
deriving DecidableEq

private def keptParts? (answer : Except RequestError Request) : Option KeptParts :=
  match answer with
  | .ok r => some ⟨r.address.joined, r.customOptions, r.options.map fun o => (o.kind, o.raw), r.aliases⟩
  | .error _ => none

/-- A cross join with one entity set. -/
theorem read_accounts_albums :
    ∃ r, ((read .standard "$crossjoin(Albums)" (some mixedQuery) none).runOn (.ofSource music)).1 =
        .ok r ∧
      r.address.joined = ["Albums"] ∧ r.customOptions = [("note", "a&b"), ("note", "")] ∧
      r.options.map (fun o => (o.kind, o.raw)) = [(.top, "2"), (.format, "json")] ∧
      r.aliases = [("@a", "'x'")] ∧
      (∃ items, r.Accounts .standard (some mixedQuery) items) ∧
      r.OneKind (Directory.ofSource music).answersNow := by
  have hkept : keptParts? ((read .standard "$crossjoin(Albums)" (some mixedQuery) none).runOn
      (.ofSource music)).1 = some ⟨["Albums"], [("note", "a&b"), ("note", "")],
        [(.top, "2"), (.format, "json")], [("@a", "'x'")]⟩ := by
    decide +kernel
  cases hread : ((read .standard "$crossjoin(Albums)" (some mixedQuery) none).runOn
    (.ofSource music)).1 with
  | error e =>
    rw [hread] at hkept
    cases hkept
  | ok r =>
    rw [hread] at hkept
    obtain ⟨hjoined, hcustom, hoptions, haliases⟩ := by
      simpa only [keptParts?, Option.some.injEq, KeptParts.mk.injEq] using hkept
    obtain ⟨hitems, hkind⟩ := read_accounts hread
    exact ⟨r, rfl, hjoined, hcustom, hoptions, haliases, hitems, hkind⟩

end Request

end ODataRequest
