import Mathlib.Data.List.Perm.Basic
import ODataRequest.Proofs.Directory.Steady
import ODataRequest.Proofs.Link
import ODataRequest.Proofs.Path.KeyReader
import ODataRequest.Proofs.Path.Segments
import ODataRequest.Proofs.Primitive.Literal

/-!
# ODataRequest.Proofs.Path.KeyOrder

Keys are exactly the declared ones, in whatever order their values are named (`key_declared`). Names
stand for key properties by alias or by path, values are told apart by path, and the predicates that
are read are put in the order of the declaration; the theorem says that these three ways to identify
a key property fit together.

Nothing is assumed about the directory but that the types of the key properties are primitive ones
or definitions of such.
-/

namespace ODataRequest

open TokenReader

/-! ### Kinds of key properties -/

/-- The type of the key property is a primitive one, or a definition that the directory resolves
whenever it is asked. -/
inductive KeyProperty.HasKind (d : Directory) (k : KeyProperty) (kind : PrimitiveKind) : Prop
  | primitive (type : PrimitiveKind.ofName? k.property.type.name = some kind)
  | definition (definition : TypeDefinition)
      (notPrimitive : PrimitiveKind.ofName? k.property.type.name = none)
      (type : ∀ calls, ((resolveType k.property.type.name).runOn (DirectoryCall.after calls d)).1 =
        .ok (some (.definition definition)))
      (underlying : definition.underlying = kind)

/-- The answers tell the kinds of the key properties. -/
def TellKinds (answers : Answers) (keys : List KeyProperty) (kind : KeyProperty → PrimitiveKind) :
    Prop :=
  ∀ k ∈ keys, ∀ kind', (keyKind k).Gives answers kind' ↔ kind' = kind k

variable {answers : Answers} {aliases : AliasTable} {keys : List KeyProperty}
variable {kind : KeyProperty → PrimitiveKind} {d : Directory}

theorem gives_keyKind_of_primitive {k : KeyProperty} {kind kind' : PrimitiveKind}
    (h : PrimitiveKind.ofName? k.property.type.name = some kind) :
    (keyKind k).Gives answers kind' ↔ kind' = kind := by
  unfold keyKind
  simp only [h, Resolution.gives_pure]
  exact eq_comm

theorem gives_keyKind_of_definition {k : KeyProperty} {kind' : PrimitiveKind}
    {definition : TypeDefinition} (hnone : PrimitiveKind.ofName? k.property.type.name = none)
    (h : ∀ type, answers (.type k.property.type.name) (some type) ↔
      type = .definition definition) :
    (keyKind k).Gives answers kind' ↔ kind' = definition.underlying := by
  unfold keyKind
  simp only [hnone, Resolution.gives_bind, Resolution.gives_requireType, h, exists_eq_left,
    ModelType.primitive?, Resolution.gives_pure]
  exact eq_comm

/-- Steady answers and answers that are seen tell the kinds of primitive key properties. -/
theorem tellKinds_of_hasKind (h : ∀ k ∈ keys, k.HasKind d (kind k)) :
    TellKinds d.steadyAnswers keys kind ∧ TellKinds d.seenAnswers keys kind := by
  constructor
  · intro k hk kind'
    cases h k hk with
    | primitive htype => exact gives_keyKind_of_primitive htype
    | definition definition hnone htype hunderlying =>
      rw [← hunderlying]
      refine gives_keyKind_of_definition hnone fun type => ⟨fun hsteady => ?_, fun heq calls => ?_⟩
      · have hagain := (hsteady []).symm.trans (htype [])
        cases hagain
        rfl
      · rw [heq]
        exact htype calls
  · intro k hk kind'
    cases h k hk with
    | primitive htype => exact gives_keyKind_of_primitive htype
    | definition definition hnone htype hunderlying =>
      rw [← hunderlying]
      refine gives_keyKind_of_definition hnone fun type => ⟨fun hseen => ?_, fun heq => ?_⟩
      · obtain ⟨calls, hcalls⟩ := hseen
        have hagain := hcalls.symm.trans (htype calls)
        cases hagain
        rfl
      · rw [heq]
        exact ⟨[], htype []⟩

/-! ### Values of a kind -/

theorem GivesValue.kind_literal {kind : PrimitiveKind} {w : Word} {text : String}
    {value : PrimitiveValue} (h : GivesValue aliases kind w (.literal text value)) :
    value.kind? = some kind := by
  cases h with
  | literal _ hvalid hnull => exact kind?_of_validate hvalid hnull

/-! ### Declared keys -/

/-- The named values are a key: every name stands for a key property, and its value is one of this
property; no two names stand for the same path, and every path has a value. -/
structure DeclaredKey (aliases : AliasTable) (kind : KeyProperty → PrimitiveKind)
    (keys : List KeyProperty) (pairs : List (String × Word)) : Prop where
  named : ∀ pair ∈ pairs, ∃ k value, keyNamed? keys pair.1 = some k ∧
    GivesValue aliases (kind k) pair.2 value
  apart : pairs.Pairwise fun pair pair' => ∀ k k', keyNamed? keys pair.1 = some k →
    keyNamed? keys pair'.1 = some k' → k.pathText ≠ k'.pathText
  complete : ∀ k ∈ keys, ∃ pair ∈ pairs, ∃ k', keyNamed? keys pair.1 = some k' ∧
    k'.pathText = k.pathText

theorem mem_of_keyNamed? {name : String} {k : KeyProperty} (h : keyNamed? keys name = some k) :
    k ∈ keys :=
  List.mem_of_find?_eq_some h

/-- Where the kinds of the key properties are known, a named value is a predicate for the key
property that its name stands for. -/
theorem TellKinds.isPredicate_iff (told : TellKinds answers keys kind) {pair : String × Word}
    {p : KeyPredicate} : IsPredicate answers aliases keys pair p ↔ ∃ k value,
      keyNamed? keys pair.1 = some k ∧ GivesValue aliases (kind k) pair.2 value ∧
        p = k.withValue value := by
  constructor
  · rintro ⟨k, kind', value, hname, hkind, hvalue, rfl⟩
    cases (told k (mem_of_keyNamed? hname) kind').mp hkind
    exact ⟨k, value, hname, hvalue, rfl⟩
  · rintro ⟨k, value, hname, hvalue, rfl⟩
    exact ⟨k, kind k, value, hname, (told k (mem_of_keyNamed? hname) _).mpr rfl, hvalue, rfl⟩

/-- Answers that tell the same kinds give the same predicates. -/
theorem ArePredicates.congr {answers' : Answers} (told : TellKinds answers keys kind)
    (told' : TellKinds answers' keys kind) {pairs : List (String × Word)} {ps : List KeyPredicate}
    (h : ArePredicates answers aliases keys pairs ps) :
    ArePredicates answers' aliases keys pairs ps := by
  refine ⟨h.each.imp fun pair p hp => ?_, h.distinct⟩
  rw [told'.isPredicate_iff, ← told.isPredicate_iff]
  exact hp

/-- Predicates for all paths come from a declared key. -/
theorem DeclaredKey.of_predicates (told : TellKinds answers keys kind)
    {pairs : List (String × Word)} {ps : List KeyPredicate}
    (h : ArePredicates answers aliases keys pairs ps) (hcomplete : Complete keys ps) :
    DeclaredKey aliases kind keys pairs where
  named := by
    intro pair hpair
    obtain ⟨p, -, hp⟩ := exists_right_of_forall₂ h.each hpair
    obtain ⟨k, value, hname, hvalue, -⟩ := told.isPredicate_iff.mp hp
    exact ⟨k, value, hname, hvalue⟩
  apart := by
    obtain ⟨heach, hdistinct⟩ := h
    clear hcomplete
    -- by induction on the values; the first one differs from all others by the path
    induction heach with
    | nil => exact .nil
    | @cons pair p pairs ps hp hps ih =>
      obtain ⟨hp', hdistinct⟩ := List.nodup_cons.mp hdistinct
      refine .cons ?_ (ih hdistinct)
      intro pair' hpair' k k' hk hk' heq
      obtain ⟨p'', hmem, hp''⟩ := exists_right_of_forall₂ hps hpair'
      obtain ⟨l, value, hl, -, rfl⟩ := told.isPredicate_iff.mp hp
      obtain ⟨l', value', hl', -, rfl⟩ := told.isPredicate_iff.mp hp''
      rw [hk] at hl
      rw [hk'] at hl'
      cases hl
      cases hl'
      exact hp' (List.mem_map.mpr ⟨_, hmem, heq.symm⟩)
  complete := by
    intro k hk
    obtain ⟨p, hp, hpath⟩ := hcomplete k hk
    obtain ⟨pair, hpair, hp⟩ := exists_left_of_forall₂ h.each hp
    obtain ⟨k', value, hname, -, rfl⟩ := told.isPredicate_iff.mp hp
    exact ⟨pair, hpair, k', hname, hpath⟩

/-- A declared key has predicates for all paths. -/
theorem DeclaredKey.exists_predicates (told : TellKinds answers keys kind)
    {pairs : List (String × Word)} (h : DeclaredKey aliases kind keys pairs) :
    ∃ ps, ArePredicates answers aliases keys pairs ps ∧ Complete keys ps := by
  obtain ⟨hnamed, hapart, hcomplete⟩ := h
  have hps : ∃ ps, ArePredicates answers aliases keys pairs ps := by
    clear hcomplete
    induction pairs with
    | nil => exact ⟨[], .nil, List.nodup_nil⟩
    | cons pair pairs ih =>
      obtain ⟨hfirst, hapart⟩ := List.pairwise_cons.mp hapart
      obtain ⟨ps, heach, hdistinct⟩ :=
        ih (fun pair' hpair' => hnamed pair' (List.mem_cons_of_mem _ hpair')) hapart
      obtain ⟨k, value, hname, hvalue⟩ := hnamed pair List.mem_cons_self
      refine ⟨k.withValue value :: ps,
        .cons (told.isPredicate_iff.mpr ⟨k, value, hname, hvalue, rfl⟩) heach,
        List.nodup_cons.mpr ⟨fun hmem => ?_, hdistinct⟩⟩
      obtain ⟨p, hp, hpath⟩ := List.mem_map.mp hmem
      obtain ⟨pair', hpair', hp⟩ := exists_left_of_forall₂ heach hp
      obtain ⟨k', value', hname', -, rfl⟩ := told.isPredicate_iff.mp hp
      exact hfirst pair' hpair' k k' hname hname' hpath.symm
  obtain ⟨ps, hps⟩ := hps
  refine ⟨ps, hps, fun k hk => ?_⟩
  obtain ⟨pair, hpair, k', hname, hpath⟩ := hcomplete k hk
  obtain ⟨p, hp, hpredicate⟩ := exists_right_of_forall₂ hps.each hpair
  obtain ⟨l, value, hl, -, rfl⟩ := told.isPredicate_iff.mp hpredicate
  rw [hname] at hl
  cases hl
  exact ⟨_, hp, hpath⟩

/-! ### Order -/

/-- Named values in another order have the same predicates in another order. -/
theorem ArePredicates.perm {pairs pairs' : List (String × Word)} {ps : List KeyPredicate}
    (h : ArePredicates answers aliases keys pairs ps) (hperm : pairs'.Perm pairs) :
    ∃ ps', ArePredicates answers aliases keys pairs' ps' ∧ ps'.Perm ps := by
  obtain ⟨ps', heach, hps'⟩ := List.perm_comp_forall₂ hperm h.each
  exact ⟨ps', ⟨heach, (hps'.map _).nodup_iff.mpr h.distinct⟩, hps'⟩

theorem Complete.perm {ps ps' : List KeyPredicate} (h : Complete keys ps) (hperm : ps'.Perm ps) :
    Complete keys ps' := by
  intro k hk
  obtain ⟨p, hp, hpath⟩ := h k hk
  exact ⟨p, hperm.mem_iff.mpr hp, hpath⟩

/-- The order of the declaration does not depend on the order of the predicates. -/
theorem inDeclaredOrder_perm {ps ps' : List KeyPredicate} (hperm : ps'.Perm ps)
    (hdistinct : (ps.map (·.path)).Nodup) : inDeclaredOrder keys ps' = inDeclaredOrder keys ps := by
  unfold inDeclaredOrder
  exact List.filterMap_congr fun path _ => find?_key_perm hperm.symm hdistinct path

/-- Predicates for all paths are put in order without a loss. -/
theorem map_path_inDeclaredOrder {ps : List KeyPredicate} (h : Complete keys ps) :
    (inDeclaredOrder keys ps).map (·.path) = (keys.map KeyProperty.pathText).eraseDups := by
  refine map_path_filterMap fun path hpath => ?_
  rw [List.mem_eraseDups, List.mem_map] at hpath
  obtain ⟨k, hk, rfl⟩ := hpath
  exact h k hk

theorem mem_of_mem_inDeclaredOrder {ps : List KeyPredicate} {p : KeyPredicate}
    (h : p ∈ inDeclaredOrder keys ps) : p ∈ ps := by
  obtain ⟨path, -, hfind⟩ := List.mem_filterMap.mp h
  exact List.mem_of_find?_eq_some hfind

/-! ### Tokens -/

/-- The tokens of named values are known by where they stop. -/
theorem NamedValues.unique {us us' rest rest' : List Token} {pairs pairs' : List (String × Word)}
    {closing closing' : Token} (h : NamedValues us pairs) (h' : NamedValues us' pairs')
    (hclosing : closing.kind = .closeParen) (hclosing' : closing'.kind = .closeParen)
    (heq : us ++ closing :: rest = us' ++ closing' :: rest') :
    us = us' ∧ pairs = pairs' ∧ rest = rest' := by
  induction h generalizing us' pairs' with
  | last =>
    cases h' with
    | last =>
      simp only [List.cons_append, List.nil_append, List.cons.injEq] at heq
      obtain ⟨rfl, rfl, rfl, -, rfl⟩ := heq
      exact ⟨rfl, rfl, rfl⟩
    | more _ _ isComma =>
      simp only [List.cons_append, List.nil_append, List.cons.injEq] at heq
      obtain ⟨-, -, -, rfl, -⟩ := heq
      rw [hclosing] at isComma
      cases isComma
  | more _ _ isComma _ ih =>
    cases h' with
    | last =>
      simp only [List.cons_append, List.nil_append, List.cons.injEq] at heq
      obtain ⟨-, -, -, rfl, -⟩ := heq
      rw [hclosing'] at isComma
      cases isComma
    | more _ _ _ others =>
      simp only [List.cons_append, List.cons.injEq] at heq
      obtain ⟨rfl, rfl, rfl, rfl, heq⟩ := heq
      obtain ⟨rfl, rfl, rfl⟩ := ih others heq
      exact ⟨rfl, rfl, rfl⟩

section Readings

variable {type : EntityType} {source : String} {us rest rest' : List Token}
variable {opening closing : Token} {result : List KeyPredicate}

/-- A key of named values is read as their predicates in the order of the declaration. -/
theorem reads_key_named (hopening : opening.kind = .openParen)
    (hclosing : closing.kind = .closeParen) {pairs : List (String × Word)}
    (hus : NamedValues us pairs) :
    Reads answers (key aliases type) source (opening :: us ++ closing :: rest) result rest' ↔
      rest' = rest ∧ ∃ ps, ArePredicates answers aliases type.keys pairs ps ∧
        Complete type.keys ps ∧ result = inDeclaredOrder type.keys ps := by
  rw [reads_key_iff]
  constructor
  · rintro ⟨opening', us', closing', heq, -, hclosing', h⟩
    simp only [List.cons_append, List.cons.injEq] at heq
    obtain ⟨rfl, heq⟩ := heq
    rcases h with ⟨pairs', ps, hus', hps, hcomplete, rfl⟩ | ⟨value, k, p, rfl, -, hp, -⟩
    · obtain ⟨rfl, rfl, rfl⟩ := hus.unique hus' hclosing hclosing' heq
      exact ⟨rfl, ps, hps, hcomplete, rfl⟩
    · obtain ⟨name, sign, vs, rfl, hname, -⟩ := hus.exists_cons
      obtain ⟨kind, v, -, hvalue, -⟩ := gives_keyPredicate_iff.mp hp
      cases heq
      exact absurd hname hvalue.kind_ne.2.2
  · rintro ⟨rfl, ps, hps, hcomplete, rfl⟩
    exact ⟨opening, us, closing, rfl, hopening, hclosing,
      Or.inl ⟨pairs, ps, hus, hps, hcomplete, rfl⟩⟩

/-- A key without a name is read as the predicate of the only key property. -/
theorem reads_key_unnamed (hopening : opening.kind = .openParen)
    (hclosing : closing.kind = .closeParen) {value : Token} :
    Reads answers (key aliases type) source (opening :: [value] ++ closing :: rest) result rest' ↔
      rest' = rest ∧ ∃ k p, type.keys = [k] ∧ (keyPredicate aliases k value).Gives answers p ∧
        result = [p] := by
  rw [reads_key_iff]
  constructor
  · rintro ⟨opening', us', closing', heq, -, hclosing', h⟩
    rcases h with ⟨pairs', ps, hus', -⟩ | ⟨value', k, p, rfl, hkeys, hp, rfl⟩
    · obtain ⟨name, sign, vs, rfl, -, hsign⟩ := hus'.exists_cons
      cases heq
      rw [hclosing] at hsign
      cases hsign
    · cases heq
      exact ⟨rfl, k, p, hkeys, hp, rfl⟩
  · rintro ⟨rfl, k, p, hkeys, hp, rfl⟩
    exact ⟨opening, [value], closing, rfl, hopening, hclosing,
      Or.inr ⟨value, k, p, rfl, hkeys, hp, rfl⟩⟩

end Readings

/-- The only predicate of an only key property is the one that the value has without its name. -/
theorem ArePredicates.exists_single {k : KeyProperty} {name : String} {value : Token}
    {ps : List KeyPredicate} (h : ArePredicates answers aliases keys [(name, value.word)] ps)
    (hkeys : keys = [k]) : ∃ p, (keyPredicate aliases k value).Gives answers p ∧ ps = [p] := by
  obtain ⟨heach, -⟩ := h
  cases heach with
  | @cons _ p _ _ hp hnone =>
    cases hnone
    obtain ⟨k', kind, v, hname, hkind, hvalue, rfl⟩ := hp
    have hmem := mem_of_keyNamed? hname
    rw [hkeys, List.mem_singleton] at hmem
    subst hmem
    exact ⟨_, gives_keyPredicate_iff.mpr ⟨kind, v, hkind, hvalue, rfl⟩, rfl⟩

theorem inDeclaredOrder_single {k : KeyProperty} {p : KeyPredicate} (h : p.path = k.pathText) :
    inDeclaredOrder [k] [p] = [p] := by
  simp [inDeclaredOrder, h, List.eraseDups_cons]

/-! ### Keys on a directory -/

/-- What a reader gives on a directory: its value, and the tokens that are left. -/
def TokenReader.runOn {α : Type} (x : TokenReader α) (source : String) (tokens : List Token)
    (d : Directory) : Except RequestError (α × List Token) :=
  ((x source tokens).runOn d).1.map fun result => (result.1, result.2.1)

theorem TokenReader.runOn_of_reads {α : Type} {x : TokenReader α} {source : String}
    {tokens rest : List Token} {a : α} (h : Reads d.steadyAnswers x source tokens a rest) :
    x.runOn source tokens d = .ok (a, rest) := by
  obtain ⟨hle, hgives⟩ := h
  have hrun : ((x source tokens).runOn d).1 = _ := Resolution.runOn_of_gives_steady hgives []
  unfold TokenReader.runOn
  rw [hrun]
  rfl

theorem TokenReader.reads_of_runOn {α : Type} {x : TokenReader α} {source : String}
    {tokens rest : List Token} {a : α} (h : x.runOn source tokens d = .ok (a, rest)) :
    Reads d.seenAnswers x source tokens a rest := by
  unfold TokenReader.runOn at h
  cases hrun : ((x source tokens).runOn d).1 with
  | error e =>
    rw [hrun] at h
    cases h
  | ok result =>
    rw [hrun] at h
    obtain ⟨b, rest', hle⟩ := result
    cases h
    have hafter : ((x source tokens).runOn (DirectoryCall.after [] d)).1 = _ := hrun
    exact ⟨hle, Resolution.gives_seen_of_runOn hafter⟩

/-- The predicates are the key that is given by named values: one for each path of a key property, in
the order of the declaration, with the value of a pair that stands for it. A literal carries a value
of the kind of its key property. -/
structure IsKeyOf (aliases : AliasTable) (kind : KeyProperty → PrimitiveKind)
    (keys : List KeyProperty) (pairs : List (String × Word)) (predicates : List KeyPredicate) :
    Prop where
  paths : predicates.map (·.path) = (keys.map KeyProperty.pathText).eraseDups
  values : ∀ p ∈ predicates, ∃ pair ∈ pairs, ∃ k, keyNamed? keys pair.1 = some k ∧
    p = k.withValue p.value ∧ GivesValue aliases (kind k) pair.2 p.value ∧
      ∀ text value, p.value = .literal text value → value.kind? = some (kind k)

theorem IsKeyOf.of_predicates (told : TellKinds answers keys kind) {pairs : List (String × Word)}
    {ps : List KeyPredicate} (h : ArePredicates answers aliases keys pairs ps)
    (hcomplete : Complete keys ps) :
    IsKeyOf aliases kind keys pairs (inDeclaredOrder keys ps) where
  paths := map_path_inDeclaredOrder hcomplete
  values := by
    intro p hp
    obtain ⟨pair, hpair, hp⟩ := exists_left_of_forall₂ h.each (mem_of_mem_inDeclaredOrder hp)
    obtain ⟨k, value, hname, hvalue, rfl⟩ := told.isPredicate_iff.mp hp
    refine ⟨pair, hpair, k, hname, rfl, hvalue, fun text v heq => ?_⟩
    have heq : value = .literal text v := heq
    subst heq
    exact hvalue.kind_literal

/-- Keys are exactly the declared ones, whatever the order of their values. Tokens of named values in
parentheses are read if and only if they are a declared key; what is read is this key in the order of
the declaration, so the values may stand in any order. A value without a name is read only for a type
with one key property, and then as with the name. -/
theorem key_declared {type : EntityType} {d : Directory} {kind : KeyProperty → PrimitiveKind}
    (kinds : ∀ k ∈ type.keys, k.HasKind d (kind k)) {opening closing : Token}
    (hopening : opening.kind = .openParen) (hclosing : closing.kind = .closeParen)
    (aliases : AliasTable) (source : String) (rest : List Token) :
    let answer (us : List Token) :=
      (key aliases type).runOn source (opening :: us ++ closing :: rest) d
    (∀ us pairs, NamedValues us pairs →
      ((∃ result, answer us = .ok result) ↔ DeclaredKey aliases kind type.keys pairs) ∧
      ∀ result, answer us = .ok result →
        IsKeyOf aliases kind type.keys pairs result.1 ∧ result.2 = rest ∧
        ∀ us' pairs', NamedValues us' pairs' → pairs'.Perm pairs → answer us' = .ok result) ∧
    (∀ value result, answer [value] = .ok result → ∃ k, type.keys = [k]) ∧
    ∀ k name sign value result, type.keys = [k] → name.kind = .identifier → sign.kind = .equals →
      answer [name, sign, value] = .ok result → answer [value] = .ok result := by
  obtain ⟨steady, seen⟩ := tellKinds_of_hasKind kinds
  intro answer
  refine ⟨fun us pairs hus => ⟨⟨?_, ?_⟩, ?_⟩, ?_, ?_⟩
  · rintro ⟨⟨predicates, rest'⟩, hresult⟩
    obtain ⟨-, ps, hps, hcomplete, -⟩ :=
      (reads_key_named hopening hclosing hus).mp (reads_of_runOn hresult)
    exact .of_predicates seen hps hcomplete
  · intro h
    obtain ⟨ps, hps, hcomplete⟩ := h.exists_predicates steady
    exact ⟨_, runOn_of_reads ((reads_key_named hopening hclosing hus).mpr
      ⟨rfl, ps, hps, hcomplete, rfl⟩)⟩
  · rintro ⟨predicates, rest'⟩ hresult
    obtain ⟨rfl, ps, hps, hcomplete, rfl⟩ :=
      (reads_key_named hopening hclosing hus).mp (reads_of_runOn hresult)
    refine ⟨.of_predicates seen hps hcomplete, rfl, fun us' pairs' hus' hperm => ?_⟩
    obtain ⟨ps', hps', hpsPerm⟩ := (hps.congr seen steady).perm hperm
    exact runOn_of_reads ((reads_key_named hopening hclosing hus').mpr
      ⟨rfl, ps', hps', hcomplete.perm hpsPerm, (inDeclaredOrder_perm hpsPerm hps.distinct).symm⟩)
  · rintro value ⟨predicates, rest'⟩ hresult
    obtain ⟨-, k, -, hkeys, -⟩ :=
      (reads_key_unnamed hopening hclosing).mp (reads_of_runOn hresult)
    exact ⟨k, hkeys⟩
  · rintro k name sign value ⟨predicates, rest'⟩ hkeys hname hsign hresult
    obtain ⟨rfl, ps, hps, -, rfl⟩ :=
      (reads_key_named hopening hclosing (.last hname hsign)).mp (reads_of_runOn hresult)
    obtain ⟨p, hp, rfl⟩ := (hps.congr seen steady).exists_single hkeys
    refine runOn_of_reads ((reads_key_unnamed hopening hclosing).mpr ⟨rfl, k, p, hkeys, hp, ?_⟩)
    rw [hkeys, inDeclaredOrder_single (path_of_gives_keyPredicate hp).1]

section Shop

private def openSign : Token := ⟨.openParen, "(", 5, false⟩
private def closeSign : Token := ⟨.closeParen, ")", 22, false⟩

/-- The tokens of `At=-7,Order=@o`, which name the key properties of a line by alias and by path, the
second one first. -/
def lineKeyTokens : List Token :=
  [⟨.identifier, "At", 6, false⟩, ⟨.equals, "=", 8, false⟩, ⟨.literal, "-7", 9, false⟩,
    ⟨.comma, ",", 11, false⟩, ⟨.identifier, "Order", 12, false⟩, ⟨.equals, "=", 17, false⟩,
    ⟨.parameterAlias, "@o", 18, false⟩]

/-- The kinds of the key properties of a line. -/
def lineKind (k : KeyProperty) : PrimitiveKind :=
  if k.name = "At" then .integer .int32 else .string

/-- The key of a line is read with its values in the other order. -/
theorem key_declared_shopLine :
    ∃ pairs result, NamedValues lineKeyTokens pairs ∧
      (key [("@o", "'5'")] shopLine).runOn "Lines(At=-7,Order=@o)"
        (openSign :: lineKeyTokens ++ [closeSign]) (.ofSource shop) = .ok result ∧
      DeclaredKey [("@o", "'5'")] lineKind shopLine.keys pairs ∧
      IsKeyOf [("@o", "'5'")] lineKind shopLine.keys pairs result.1 := by
  have kinds : ∀ k ∈ shopLine.keys, k.HasKind (.ofSource shop) (lineKind k) := by
    intro k hk
    simp only [shopLine, List.mem_cons, List.not_mem_nil, or_false] at hk
    rcases hk with rfl | rfl
    · exact .primitive rfl
    · exact .primitive rfl
  have hvalues : NamedValues lineKeyTokens
      [("At", ⟨.literal, "-7"⟩), ("Order", ⟨.parameterAlias, "@o"⟩)] :=
    .more rfl rfl rfl (.last rfl rfl)
  obtain ⟨hnamed, -⟩ := key_declared kinds (rfl : openSign.kind = .openParen)
    (rfl : closeSign.kind = .closeParen) [("@o", "'5'")] "Lines(At=-7,Order=@o)" []
  obtain ⟨haccepted, hresult⟩ := hnamed _ _ hvalues
  have hread : ((key [("@o", "'5'")] shopLine).runOn "Lines(At=-7,Order=@o)"
      (openSign :: lineKeyTokens ++ [closeSign]) (.ofSource shop)).toOption.isSome = true := by
    decide +kernel
  cases hrun : (key [("@o", "'5'")] shopLine).runOn "Lines(At=-7,Order=@o)"
      (openSign :: lineKeyTokens ++ [closeSign]) (.ofSource shop) with
  | error e =>
    rw [hrun] at hread
    cases hread
  | ok result =>
    exact ⟨_, result, hvalues, rfl, haccepted.mp ⟨result, hrun⟩, (hresult result hrun).1⟩

end Shop

end ODataRequest
