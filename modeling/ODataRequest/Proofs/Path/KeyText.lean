import ODataRequest.Proofs.Path.Group
import ODataRequest.Proofs.Path.Key

/-!
# ODataRequest.Proofs.Path.KeyText

Keys are read back from their texts. Whatever names and order a key has been read with, its
predicates are written in the order of the declaration, with the names of the key properties or, if
there is only one, without; reading the text gives the same predicates again (`key_rewritten`).
-/

namespace ODataRequest

open TokenReader

variable {answers : Answers} {aliases : AliasTable} {source : String} {type : EntityType}
variable {keys : List KeyProperty} {ps : List KeyPredicate} {ts rest : List Token}

/-- Key properties that no name confuses. Those that have a name of their own can be named in a
path: the name is an identifier and no literal. -/
structure PlainKeys (keys : List KeyProperty) : Prop where
  apart : keys.Pairwise KeyProperty.Apart
  names : ∀ k ∈ keys, k.name = k.pathText ∨ isSimpleName k.name = true

namespace PlainKeys

variable {k l : KeyProperty}

theorem nodup_pathText (h : PlainKeys keys) : (keys.map KeyProperty.pathText).Nodup :=
  nodup_pathText_of_apart h.apart

theorem eq_of_pathText (h : PlainKeys keys) (hk : k ∈ keys) (hl : l ∈ keys)
    (heq : k.pathText = l.pathText) : k = l :=
  List.inj_on_of_nodup_map h.nodup_pathText hk hl heq

theorem keyNamed?_name (h : PlainKeys keys) (hk : k ∈ keys) : keyNamed? keys k.name = some k :=
  keyNamed?_of_apart h.apart hk

end PlainKeys

/-! ### Values of key properties -/

/-- The word gives the key property its value in a predicate, and may be written again. -/
structure GivenBy (answers : Answers) (aliases : AliasTable) (k : KeyProperty) (w : Word)
    (p : KeyPredicate) : Prop where
  portable : w.Portable
  value : ∃ kind value, (keyKind k).Gives answers kind ∧ GivesValue aliases kind w value ∧
    p = k.withValue value

theorem GivesValue.text {kind : PrimitiveKind} {w : Word} {value : KeyValue}
    (h : GivesValue aliases kind w value) : value.text = w.text := by
  cases h <;> rfl

theorem GivesValue.portable {kind : PrimitiveKind} {t : Token} {value : KeyValue}
    (h : GivesValue aliases kind t.word value) (ht : t ∈ ts) (hts : PortableTokens ts) :
    t.word.Portable := by
  obtain ⟨hend, hclosing, -⟩ := h.kind_ne
  have hword : t.word.kind ≠ .openParen ∧ t.word.kind ≠ .semicolon := by
    cases h with
    | literal hkind => rcases hkind with hkind | hkind <;> simp [hkind]
    | parameterAlias hkind => simp [hkind]
  exact hts t ht hend hword.1 hclosing hword.2

theorem NamedValues.exists_of_mem {us : List Token} {pairs : List (String × Word)}
    (h : NamedValues us pairs) {pair : String × Word} (hpair : pair ∈ pairs) :
    ∃ name ∈ us, ∃ value ∈ us, name.kind = .identifier ∧ pair = (name.text, value.word) := by
  induction h with
  | last isName isSign =>
    rw [List.mem_singleton] at hpair
    exact ⟨_, by simp, _, by simp, isName, hpair⟩
  | @more name sign value comma us pairs isName isSign isComma _ ih =>
    rcases List.mem_cons.mp hpair with rfl | hpair
    · exact ⟨name, by simp, value, by simp, isName, rfl⟩
    · obtain ⟨name', hname', value', hvalue', hkind, rfl⟩ := ih hpair
      exact ⟨name', by simp [hname'], value', by simp [hvalue'], hkind, rfl⟩

theorem NamedValues.portable {us : List Token} {pairs : List (String × Word)}
    (h : NamedValues us pairs) (hus : PortableTokens us) :
    ∀ pair ∈ pairs, (Word.identifier pair.1).Portable := by
  intro pair hpair
  obtain ⟨name, hname, value, -, hkind, rfl⟩ := h.exists_of_mem hpair
  have hword : name.word = Word.identifier name.text := by
    rw [Token.word, hkind]
    rfl
  rw [← hword]
  exact hus name hname (by simp [hkind]) (by simp [hkind]) (by simp [hkind]) (by simp [hkind])

/-- A key that has been read, property by property: each of them is given its value by a word. If
there are several, their names may be written. -/
structure GivenKey (answers : Answers) (aliases : AliasTable) (keys : List KeyProperty)
    (ps : List KeyPredicate) : Prop where
  nonempty : keys ≠ []
  each : List.Forall₂ (fun k p => ∃ w, GivenBy answers aliases k w p) keys ps
  names : 1 < keys.length → ∀ k ∈ keys, (Word.identifier k.name).Portable

/-- Named values that are read as a key give each key property its value. -/
theorem givenKey_of_namedValues (plain : PlainKeys keys) {us : List Token}
    {pairs : List (String × Word)} (hus : NamedValues us pairs) (portable : PortableTokens us)
    (hps : ArePredicates answers aliases keys pairs ps) (hcomplete : Complete keys ps) :
    GivenKey answers aliases keys (inDeclaredOrder keys ps) := by
  have hgiven : ∀ k ∈ keys, ∃ p ∈ ps, p.path = k.pathText ∧ (∃ w, GivenBy answers aliases k w p) ∧
      (Word.identifier k.name).Portable := by
    intro k hk
    obtain ⟨p, hp, hpath⟩ := hcomplete k hk
    obtain ⟨pair, hpair, l, kind, value, hname, hkind, hvalue, rfl⟩ :=
      exists_left_of_forall₂ hps.each hp
    obtain rfl := plain.eq_of_pathText (List.mem_of_find?_eq_some hname) hk hpath
    have hpairName := hus.portable portable pair hpair
    obtain ⟨name, -, token, htoken, -, rfl⟩ := hus.exists_of_mem hpair
    refine ⟨_, hp, rfl, ⟨token.word, hvalue.portable htoken portable, kind, value, hkind, hvalue,
      rfl⟩, ?_⟩
    have hfound : l.name = name.text ∨ l.pathText = name.text := by
      simpa using List.find?_some hname
    rcases plain.names l hk with hpathName | hsimple
    · have heq : l.name = name.text := by
        rcases hfound with heq | heq
        · exact heq
        · exact hpathName.trans heq
      rw [heq]
      exact hpairName
    · exact (isName_of_isSimpleName hsimple).portable
  refine ⟨?_, ?_, fun _ k hk => ?_⟩
  · rintro rfl
    obtain ⟨pair, hpair⟩ := List.exists_mem_of_ne_nil _ hus.ne_nil
    obtain ⟨p, -, k, -, -, hname, -⟩ := exists_right_of_forall₂ hps.each hpair
    cases hname
  · unfold inDeclaredOrder
    rw [eraseDups_of_nodup plain.nodup_pathText, List.filterMap_map]
    refine forall₂_filterMap fun k hk => ?_
    obtain ⟨p, hp, hpath, hvalue, -⟩ := hgiven k hk
    exact ⟨p, (find?_key_eq_some hps.distinct).mpr ⟨hp, hpath⟩, hvalue⟩
  · obtain ⟨-, -, -, -, hname⟩ := hgiven k hk
    exact hname

/-- What is read as a key gives each key property its value. -/
theorem givenKey_of_reads (plain : PlainKeys type.keys) (portable : PortableTokens ts)
    (h : Reads answers (key aliases type) source ts ps rest) :
    GivenKey answers aliases type.keys ps := by
  obtain ⟨opening, us, closing, rfl, -, -, h⟩ := reads_key_iff.mp h
  have hus : PortableTokens us := portable.of_append.1.of_cons
  rcases h with ⟨pairs, ps, hpairs, hps, hcomplete, rfl⟩ | ⟨value, k, p, rfl, hkeys, hp, rfl⟩
  · exact givenKey_of_namedValues plain hpairs hus hps hcomplete
  · obtain ⟨kind, v, hkind, hvalue, rfl⟩ := gives_keyPredicate_iff.mp hp
    have hgiven : GivenBy answers aliases k value.word (k.withValue v) :=
      ⟨hvalue.portable (List.mem_singleton_self _) hus, kind, v, hkind, hvalue, rfl⟩
    rw [hkeys]
    exact ⟨List.cons_ne_nil _ _, .cons ⟨_, hgiven⟩ .nil, by simp⟩

/-! ### Texts of keys -/

theorem map_pathText_of_forall₂
    (h : List.Forall₂ (fun k p => ∃ w, GivenBy answers aliases k w p) keys ps) :
    ps.map (·.path) = keys.map KeyProperty.pathText := by
  induction h with
  | nil => rfl
  | cons hp _ ih =>
    obtain ⟨w, -, kind, value, -, -, rfl⟩ := hp
    rw [List.map_cons, List.map_cons, ih]
    rfl

/-- The name and the word are those that a predicate of a key property is written with. -/
def WrittenAs (answers : Answers) (aliases : AliasTable) (keys : List KeyProperty)
    (pair : String × Word) (p : KeyPredicate) : Prop :=
  ∃ k ∈ keys, pair.1 = k.name ∧ GivenBy answers aliases k pair.2 p

theorem exists_pairs_of_forall₂ {ks : List KeyProperty} (hks : ∀ k ∈ ks, k ∈ keys)
    (h : List.Forall₂ (fun k p => ∃ w, GivenBy answers aliases k w p) ks ps) :
    ∃ pairs, List.Forall₂ (WrittenAs answers aliases keys) pairs ps := by
  induction h with
  | nil => exact ⟨[], .nil⟩
  | @cons k p ks ps hp _ ih =>
    obtain ⟨w, hw⟩ := hp
    obtain ⟨pairs, hpairs⟩ := ih fun l hl => hks l (List.mem_cons_of_mem k hl)
    exact ⟨(k.name, w) :: pairs, .cons ⟨k, hks k List.mem_cons_self, rfl, hw⟩ hpairs⟩

theorem map_pairText_of_forall₂ {pairs : List (String × Word)}
    (h : List.Forall₂ (WrittenAs answers aliases keys) pairs ps) :
    (ps.map fun p => p.name ++ "=" ++ p.value.text) = pairs.map pairText := by
  induction h with
  | nil => rfl
  | @cons pair p pairs ps hp _ ih =>
    obtain ⟨k, -, hname, hgiven⟩ := hp
    obtain ⟨kind, value, -, hvalue, rfl⟩ := hgiven.value
    have htext : (k.withValue value).value.text = pair.2.text := hvalue.text
    rw [List.map_cons, List.map_cons, ih, k.name_withValue, htext, pairText, hname]

theorem arePredicates_of_forall₂ (plain : PlainKeys keys) {pairs : List (String × Word)}
    (h : List.Forall₂ (WrittenAs answers aliases keys) pairs ps)
    (hpaths : ps.map (·.path) = keys.map KeyProperty.pathText) :
    ArePredicates answers aliases keys pairs ps where
  each := by
    refine h.imp fun pair p hp => ?_
    obtain ⟨k, hk, hname, hgiven⟩ := hp
    obtain ⟨kind, value, hkind, hvalue, rfl⟩ := hgiven.value
    refine ⟨k, kind, value, ?_, hkind, hvalue, rfl⟩
    rw [hname]
    exact plain.keyNamed?_name hk
  distinct := by
    rw [hpaths]
    exact plain.nodup_pathText

/-- The text of a key that has been read is one group, and what stands in it is read as this key
again. -/
structure KeyRewritten (answers : Answers) (aliases : AliasTable) (type : EntityType)
    (ps : List KeyPredicate) (content : List Piece) : Prop where
  inner : Inner content
  text : spelled (group content) = (keyText ps).toList
  reads : ∀ {source : String} {opening closing : Token} {us rest : List Token},
    opening.kind = .openParen → closing.kind = .closeParen → us.map Token.piece = content →
      Reads answers (key aliases type) source (opening :: us ++ closing :: rest) ps rest

/-- A key that gives a single value is written without a name. -/
theorem keyRewritten_single {k : KeyProperty} {p : KeyPredicate} {w : Word}
    (hkeys : type.keys = [k]) (h : GivenBy answers aliases k w p) :
    KeyRewritten answers aliases type [p] [⟨w, false⟩] where
  inner := inner_single h.portable
  text := by
    obtain ⟨kind, value, -, hvalue, rfl⟩ := h.value
    have htext : (k.withValue value).value.text = w.text := hvalue.text
    rw [spelled_group]
    simp [keyText, htext, chars_unspaced]
  reads := by
    intro source opening closing us rest hopening hclosing hus
    obtain ⟨t, vs, rfl, hkind, htext, -, hvs⟩ := exists_of_map_piece_cons hus
    rw [List.map_eq_nil_iff] at hvs
    subst hvs
    obtain ⟨kind, value, hgives, hvalue, rfl⟩ := h.value
    have hword : t.word = w := by rw [Token.word, hkind, htext]
    rw [← hword] at hvalue
    exact reads_key_of_value hopening hclosing hkeys
      (gives_keyPredicate_iff.mpr ⟨kind, value, hgives, hvalue, rfl⟩)

/-- A key that gives several values is written with the names of the key properties. -/
theorem keyRewritten_several (plain : PlainKeys type.keys)
    (h : GivenKey answers aliases type.keys ps) (hseveral : 1 < type.keys.length) :
    ∃ content, KeyRewritten answers aliases type ps content := by
  obtain ⟨pairs, hpairs⟩ := exists_pairs_of_forall₂ (fun k hk => hk) h.each
  have hpaths := map_pathText_of_forall₂ h.each
  have hpredicates := arePredicates_of_forall₂ plain hpairs hpaths
  have hlength : ps.length = type.keys.length := h.each.length_eq.symm
  refine ⟨pairPieces pairs, inner_pairPieces fun pair hpair => ?_, ?_, ?_⟩
  · obtain ⟨p, -, k, hk, hname, hgiven⟩ := exists_right_of_forall₂ hpairs hpair
    rw [hname]
    exact ⟨h.names hseveral k hk, hgiven.portable⟩
  · have htext : keyText ps =
        "(" ++ commaJoined (ps.map fun p => p.name ++ "=" ++ p.value.text) ++ ")" := by
      match ps, hlength with
      | [], hlength => simp at hlength; omega
      | [_], hlength => simp at hlength; omega
      | _ :: _ :: _, _ => rfl
    rw [spelled_group, spelled_pairPieces, htext, map_pairText_of_forall₂ hpairs]
    simp
  · intro source opening closing us rest hopening hclosing hus
    have hne : pairs ≠ [] := by
      rintro rfl
      cases hpairs
      simp at hlength
      omega
    have complete : Complete type.keys ps := by
      intro k hk
      obtain ⟨p, hp, -, -, kind, value, -, -, rfl⟩ := exists_right_of_forall₂ h.each hk
      exact ⟨_, hp, rfl⟩
    rw [← inDeclaredOrder_self plain.nodup_pathText hpaths]
    exact reads_key_of_namedValues hopening hclosing (namedValues_of_pairPieces hne hus)
      hpredicates complete

/-- A key that has been read is written in such a way that it is read again. -/
theorem key_rewritten (plain : PlainKeys type.keys) (portable : PortableTokens ts)
    (h : Reads answers (key aliases type) source ts ps rest) :
    ∃ content, KeyRewritten answers aliases type ps content := by
  have hgiven := givenKey_of_reads plain portable h
  match hkeys : type.keys with
  | [] => exact absurd hkeys hgiven.nonempty
  | [k] =>
    have heach := hgiven.each
    rw [hkeys] at heach
    cases heach with
    | cons hp hnone =>
      cases hnone
      obtain ⟨w, hw⟩ := hp
      exact ⟨_, keyRewritten_single hkeys hw⟩
  | k :: l :: ks => exact keyRewritten_several plain hgiven (by simp [hkeys])

end ODataRequest
