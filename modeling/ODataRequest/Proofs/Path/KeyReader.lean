import ODataRequest.Path.Key
import ODataRequest.Proofs.Lookup
import ODataRequest.Proofs.Token.Reader
import ODataRequest.Proofs.Token.Spelling

/-!
# ODataRequest.Proofs.Path.KeyReader

What is read as a key. A key is read from tokens if and only if these are the values of key
properties in parentheses, with their names or, where there is only one key property, without
(`reads_key_iff`); what is read are their predicates in the order of the declaration.

The answers to questions about the model are any answers here.
-/

namespace ODataRequest

open TokenReader

variable {answers : Answers} {aliases : AliasTable} {source : String} {keys : List KeyProperty}
variable {ts rest : List Token}

/-! ### Values -/

/-- The key property that a name stands for: the first one that has this name or this path. -/
def keyNamed? (keys : List KeyProperty) (name : String) : Option KeyProperty :=
  keys.find? fun k => k.name == name || k.pathText == name

/-- The word gives a key property of a primitive kind its value: it is a literal of this kind, or an
alias whose text is one. `null` is no value. -/
inductive GivesValue (aliases : AliasTable) (kind : PrimitiveKind) : Word → KeyValue → Prop
  | literal {w : Word} {value : PrimitiveValue}
      (literal : w.kind = .literal ∨ w.kind = .enumLiteral)
      (valid : kind.validate w.text = .ok value) (notNull : value ≠ .null) :
      GivesValue aliases kind w (.literal w.text value)
  | parameterAlias {w : Word} {text : String} {value : PrimitiveValue}
      (parameterAlias : w.kind = .parameterAlias) (declared : aliases.lookup w.text = some text)
      (valid : kind.validate text = .ok value) (notNull : value ≠ .null) :
      GivesValue aliases kind w (.parameterAlias w.text)

/-- The predicate that gives a key property a value. -/
def KeyProperty.withValue (k : KeyProperty) (value : KeyValue) : KeyPredicate where
  path := k.pathText
  aliasName := if k.name = k.pathText then none else some k.name
  value

theorem KeyProperty.name_withValue (k : KeyProperty) (value : KeyValue) :
    (k.withValue value).name = k.name := by
  unfold KeyPredicate.name withValue
  by_cases h : k.name = k.pathText <;> simp [h]

theorem gives_checkedKey {k : KeyProperty} {kind : PrimitiveKind} {text : String}
    {value : PrimitiveValue} : (checkedKey k kind text).Gives answers value ↔
      kind.validate text = .ok value ∧ value ≠ .null := by
  unfold checkedKey
  cases hvalid : kind.validate text with
  | error e => simp
  | ok v =>
    rw [Except.ok.injEq]
    cases v with
    | null =>
      simp only [Resolution.not_gives_reject, false_iff, not_and]
      exact fun heq hne => hne heq.symm
    | _ =>
      simp only [Resolution.gives_pure]
      constructor
      · rintro rfl
        exact ⟨rfl, by simp⟩
      · exact fun h => h.1

/-- The predicate of a key property that a token gives its value. -/
theorem gives_keyPredicate_iff {k : KeyProperty} {t : Token} {p : KeyPredicate} :
    (keyPredicate aliases k t).Gives answers p ↔ ∃ kind value,
      (keyKind k).Gives answers kind ∧ GivesValue aliases kind t.word value ∧
        p = k.withValue value := by
  unfold keyPredicate
  simp only [Resolution.gives_bind]
  constructor
  · rintro ⟨kind, hkind, h⟩
    split at h
    · rename_i halias
      simp only [Resolution.gives_bind, Resolution.gives_require, Resolution.gives_pure,
        gives_checkedKey] at h
      obtain ⟨text, htext, v, ⟨hvalid, hnull⟩, _, rfl, rfl⟩ := h
      exact ⟨kind, _, hkind, .parameterAlias halias htext hvalid hnull, rfl⟩
    · rename_i hliteral
      simp only [Resolution.gives_bind, Resolution.gives_pure, gives_checkedKey] at h
      obtain ⟨v, ⟨hvalid, hnull⟩, _, rfl, rfl⟩ := h
      exact ⟨kind, _, hkind, .literal (Or.inl hliteral) hvalid hnull, rfl⟩
    · rename_i hliteral
      simp only [Resolution.gives_bind, Resolution.gives_pure, gives_checkedKey] at h
      obtain ⟨v, ⟨hvalid, hnull⟩, _, rfl, rfl⟩ := h
      exact ⟨kind, _, hkind, .literal (Or.inr hliteral) hvalid hnull, rfl⟩
    · simp only [Resolution.gives_bind, Resolution.not_gives_refuse, false_and, exists_false] at h
  · rintro ⟨kind, _, hkind, hvalue, rfl⟩
    refine ⟨kind, hkind, ?_⟩
    cases hvalue with
    | @literal value hliteral hvalid hnull =>
      have hchecked : (checkedKey k kind t.text).Gives answers value :=
        gives_checkedKey.mpr ⟨hvalid, hnull⟩
      rcases hliteral with hliteral | hliteral
      · rw [show t.kind = .literal from hliteral]
        simp only [Resolution.gives_bind, Resolution.gives_pure]
        exact ⟨value, hchecked, _, rfl, rfl⟩
      · rw [show t.kind = .enumLiteral from hliteral]
        simp only [Resolution.gives_bind, Resolution.gives_pure]
        exact ⟨value, hchecked, _, rfl, rfl⟩
    | @parameterAlias text value halias hdeclared hvalid hnull =>
      have hchecked : (checkedKey k kind text).Gives answers value :=
        gives_checkedKey.mpr ⟨hvalid, hnull⟩
      rw [show t.kind = .parameterAlias from halias]
      simp only [Resolution.gives_bind, Resolution.gives_require, Resolution.gives_pure]
      exact ⟨text, hdeclared, value, hchecked, _, rfl, rfl⟩

/-- Neither a sign nor a name gives a value. -/
theorem GivesValue.kind_ne {kind : PrimitiveKind} {w : Word} {value : KeyValue}
    (h : GivesValue aliases kind w value) :
    w.kind ≠ .endOfText ∧ w.kind ≠ .closeParen ∧ w.kind ≠ .identifier := by
  cases h with
  | literal hliteral => rcases hliteral with hkind | hkind <;> simp [hkind]
  | parameterAlias hkind => simp [hkind]

/-! ### Named values -/

/-- The tokens of `name=value,...`, with the names and the words of the values. -/
inductive NamedValues : List Token → List (String × Word) → Prop
  | last {name sign value : Token} (isName : name.kind = .identifier)
      (isSign : sign.kind = .equals) :
      NamedValues [name, sign, value] [(name.text, value.word)]
  | more {name sign value comma : Token} {ts : List Token} {pairs : List (String × Word)}
      (isName : name.kind = .identifier) (isSign : sign.kind = .equals)
      (isComma : comma.kind = .comma) (others : NamedValues ts pairs) :
      NamedValues (name :: sign :: value :: comma :: ts) ((name.text, value.word) :: pairs)

/-- The predicate that a named value is. -/
def IsPredicate (answers : Answers) (aliases : AliasTable) (keys : List KeyProperty)
    (pair : String × Word) (p : KeyPredicate) : Prop :=
  ∃ k kind value, keyNamed? keys pair.1 = some k ∧ (keyKind k).Gives answers kind ∧
    GivesValue aliases kind pair.2 value ∧ p = k.withValue value

/-- One more named value is read: its name stands for a key property that has no value yet. -/
theorem reads_namedKey_iff {read read' : List KeyPredicate} :
    Reads answers (namedKey aliases keys read) source ts read' rest ↔
      ∃ name sign value p, ts = name :: sign :: value :: rest ∧ name.kind = .identifier ∧
        sign.kind = .equals ∧ IsPredicate answers aliases keys (name.text, value.word) p ∧
        (∀ q ∈ read, q.path ≠ p.path) ∧ read' = read ++ [p] := by
  unfold namedKey
  simp only [reads_bind, reads_expect (by decide : TokenKind.identifier ≠ .endOfText),
    reads_expect (by decide : TokenKind.equals ≠ .endOfText)]
  constructor
  · rintro ⟨name, _, ⟨rfl, hname⟩, sign, between, ⟨rfl, hsign⟩, h⟩
    cases hfind : keys.find? fun k => k.name == name.text || k.pathText == name.text with
    | none =>
      rw [hfind] at h
      exact absurd (reads_lift.mp h).1 Resolution.not_gives_reject
    | some k =>
      rw [hfind] at h
      rcases reads_ite.mp h with ⟨-, h⟩ | ⟨hnew, h⟩
      · exact absurd (reads_lift.mp h).1 Resolution.not_gives_reject
      · simp only [reads_bind, reads_lift, reads_pure, gives_keyPredicate_iff] at h
        obtain ⟨value, _, hnext, _, _, ⟨⟨kind, v, hkind, hvalue, rfl⟩, rfl⟩, rfl, rfl⟩ := h
        obtain rfl := (reads_next hvalue.kind_ne.1).mp hnext
        refine ⟨name, sign, value, _, rfl, hname, hsign,
          ⟨k, kind, v, hfind, hkind, hvalue, rfl⟩, ?_, rfl⟩
        show ∀ q ∈ read, q.path ≠ k.pathText
        simpa using hnew
  · rintro ⟨name, sign, value, _, rfl, hname, hsign,
      ⟨k, kind, v, hfind, hkind, hvalue, rfl⟩, hnew, rfl⟩
    refine ⟨name, _, ⟨rfl, hname⟩, sign, _, ⟨rfl, hsign⟩, ?_⟩
    have hfind : keys.find? (fun k => k.name == name.text || k.pathText == name.text) = some k :=
      hfind
    have hnew : read.any (·.path == k.pathText) = false := by
      rw [List.any_eq_false]
      intro q hq
      have hne : q.path ≠ k.pathText := hnew q hq
      simpa using hne
    simp only [hfind, hnew, Bool.false_eq_true, if_false, reads_bind, reads_lift, reads_pure,
      gives_keyPredicate_iff]
    exact ⟨value, rest, (reads_next hvalue.kind_ne.1).mpr rfl, _, rest,
      ⟨⟨kind, v, hkind, hvalue, rfl⟩, rfl⟩, rfl, rfl⟩

/-- The predicates that named values are, one for each of them and none for the same path as
another. -/
structure ArePredicates (answers : Answers) (aliases : AliasTable) (keys : List KeyProperty)
    (pairs : List (String × Word)) (ps : List KeyPredicate) : Prop where
  each : List.Forall₂ (IsPredicate answers aliases keys) pairs ps
  distinct : (ps.map (·.path)).Nodup

theorem NamedValues.ne_nil {us : List Token} {pairs : List (String × Word)}
    (h : NamedValues us pairs) : pairs ≠ [] := by
  cases h <;> exact List.cons_ne_nil _ _

theorem NamedValues.exists_cons {us : List Token} {pairs : List (String × Word)}
    (h : NamedValues us pairs) : ∃ name sign vs, us = name :: sign :: vs ∧
      name.kind = .identifier ∧ sign.kind = .equals := by
  cases h with
  | last isName isSign => exact ⟨_, _, _, rfl, isName, isSign⟩
  | more isName isSign => exact ⟨_, _, _, rfl, isName, isSign⟩

/-- Named values are read one by one, behind those that are read already. -/
theorem reads_namedValues_of {us : List Token} {pairs : List (String × Word)}
    {read ps : List KeyPredicate} (h : NamedValues us pairs)
    (hps : ArePredicates answers aliases keys pairs ps)
    (hnew : ∀ p ∈ ps, ∀ q ∈ read, q.path ≠ p.path) (stop : (firstToken rest).kind ≠ .comma) :
    Reads answers (foldSeparated .comma (namedKey aliases keys) read) source (us ++ rest)
      (read ++ ps) rest := by
  obtain ⟨heach, hdistinct⟩ := hps
  induction h generalizing read ps with
  | @last name sign value isName isSign =>
    cases heach with
    | @cons _ p _ _ hp hnone =>
      cases hnone
      refine (reads_foldSeparated (by decide)).mpr ⟨_, rest, reads_namedKey_iff.mpr
        ⟨name, sign, value, p, rfl, isName, isSign, hp, hnew p (by simp), rfl⟩, ?_⟩
      exact Or.inl ⟨stop, rfl, rfl⟩
  | @more name sign value comma ts pairs isName isSign isComma others ih =>
    cases heach with
    | @cons _ p _ ps hp heach =>
      obtain ⟨hp', hdistinct⟩ := List.nodup_cons.mp hdistinct
      have hnew' : ∀ p' ∈ ps, ∀ q ∈ read ++ [p], q.path ≠ p'.path := by
        intro p' hp'mem q hq
        rcases List.mem_append.mp hq with hq | hq
        · exact hnew p' (List.mem_cons_of_mem p hp'mem) q hq
        · rw [List.mem_singleton] at hq
          subst hq
          intro heq
          exact hp' (List.mem_map.mpr ⟨p', hp'mem, heq.symm⟩)
      refine (reads_foldSeparated (by decide)).mpr ⟨_, comma :: (ts ++ rest),
        reads_namedKey_iff.mpr
          ⟨name, sign, value, p, rfl, isName, isSign, hp, hnew p List.mem_cons_self, rfl⟩, ?_⟩
      refine Or.inr ⟨comma, ts ++ rest, rfl, isComma, ?_⟩
      have hread := ih hnew' heach hdistinct
      rwa [List.append_assoc] at hread

/-- Whatever is read as named values consists of them. -/
theorem namedValues_of_reads {read read' : List KeyPredicate}
    (h : Reads answers (foldSeparated .comma (namedKey aliases keys) read) source ts read' rest) :
    ∃ us pairs ps, ts = us ++ rest ∧ NamedValues us pairs ∧
      ArePredicates answers aliases keys pairs ps ∧ (∀ p ∈ ps, ∀ q ∈ read, q.path ≠ p.path) ∧
      (firstToken rest).kind ≠ .comma ∧ read' = read ++ ps := by
  -- by induction on the number of tokens, since each value takes three of them
  induction hn : ts.length using Nat.strongRecOn generalizing ts read with
  | ind n ih =>
    obtain ⟨state, between, hstep, hend⟩ := (reads_foldSeparated (by decide)).mp h
    obtain ⟨name, sign, value, p, rfl, hname, hsign, hp, hnew, rfl⟩ := reads_namedKey_iff.mp hstep
    rcases hend with ⟨hstop, rfl, rfl⟩ | ⟨comma, ts, rfl, hcomma, hrest⟩
    · refine ⟨[name, sign, value], _, [p], rfl, .last hname hsign,
        ⟨.cons hp .nil, by simp⟩, ?_, hstop, rfl⟩
      simpa using hnew
    · obtain ⟨us, pairs, ps, rfl, hus, ⟨heach, hdistinct⟩, hothers, hstop, rfl⟩ :=
        ih ts.length (by simp at hn; omega) hrest rfl
      have hp' : p.path ∉ ps.map (·.path) := by
        intro hmem
        obtain ⟨p', hp', heq⟩ := List.mem_map.mp hmem
        exact hothers p' hp' p (by simp) heq.symm
      refine ⟨name :: sign :: value :: comma :: us, _, p :: ps, rfl,
        .more hname hsign hcomma hus, ⟨.cons hp heach, List.nodup_cons.mpr ⟨hp', hdistinct⟩⟩, ?_,
        hstop, by rw [List.append_assoc]; rfl⟩
      intro p' hp' q hq
      rcases List.mem_cons.mp hp' with rfl | hp'
      · exact hnew q hq
      · exact hothers p' hp' q (List.mem_append_left _ hq)

/-- The predicates are one for each path of a key property. -/
def Complete (keys : List KeyProperty) (ps : List KeyPredicate) : Prop :=
  ∀ k ∈ keys, ∃ p ∈ ps, p.path = k.pathText

/-- Named values are read as a key if they are predicates for all paths. -/
theorem reads_namedKeys_iff {result : List KeyPredicate} :
    Reads answers (namedKeys aliases keys) source ts result rest ↔
      ∃ us pairs ps, ts = us ++ rest ∧ NamedValues us pairs ∧
        ArePredicates answers aliases keys pairs ps ∧ Complete keys ps ∧
        (firstToken rest).kind ≠ .comma ∧ result = inDeclaredOrder keys ps := by
  have hmissing (ps : List KeyPredicate) :
      (keys.find? fun k => !ps.any (·.path == k.pathText)) = none ↔ Complete keys ps := by
    simp [Complete]
  unfold namedKeys
  simp only [reads_bind]
  constructor
  · rintro ⟨read, between, hread, h⟩
    obtain ⟨us, pairs, ps, rfl, hus, hps, -, hstop, hread'⟩ := namedValues_of_reads hread
    rw [List.nil_append] at hread'
    subst hread'
    cases hfind : keys.find? fun k => !read.any (·.path == k.pathText) with
    | some k =>
      rw [hfind] at h
      exact absurd (reads_lift.mp h).1 Resolution.not_gives_reject
    | none =>
      rw [hfind] at h
      obtain ⟨rfl, rfl⟩ := reads_pure.mp h
      exact ⟨us, pairs, read, rfl, hus, hps, (hmissing read).mp hfind, hstop, rfl⟩
  · rintro ⟨us, pairs, ps, rfl, hus, hps, hcomplete, hstop, rfl⟩
    refine ⟨ps, rest, reads_namedValues_of hus hps (by simp) hstop, ?_⟩
    rw [(hmissing ps).mpr hcomplete]
    exact reads_pure.mpr ⟨rfl, rfl⟩

/-! ### Keys -/

section Keys

variable {type : EntityType} {opening closing : Token} {ps result : List KeyPredicate}

/-- Named values for all paths are read as a key: there is a name, and `=` behind it. -/
theorem reads_key_of_namedValues {us : List Token} {pairs : List (String × Word)}
    (hopening : opening.kind = .openParen) (hclosing : closing.kind = .closeParen)
    (hus : NamedValues us pairs) (hps : ArePredicates answers aliases type.keys pairs ps)
    (complete : Complete type.keys ps) :
    Reads answers (key aliases type) source (opening :: us ++ closing :: rest)
      (inDeclaredOrder type.keys ps) rest := by
  obtain ⟨name, sign, vs, rfl, hname, hsign⟩ := hus.exists_cons
  unfold key
  simp only [reads_bind, reads_expect (by decide : TokenKind.openParen ≠ .endOfText)]
  refine ⟨opening, name :: sign :: vs ++ closing :: rest, ⟨rfl, hopening⟩, _, _,
    reads_sees.mpr ⟨rfl, rfl⟩, ?_⟩
  rw [if_neg (by simp [hname])]
  simp only [reads_bind]
  refine ⟨_, _, reads_sees.mpr ⟨rfl, rfl⟩, _, _, reads_peekAt.mpr ⟨rfl, rfl⟩, ?_⟩
  rw [if_pos (by simp [hname, hsign])]
  simp only [reads_bind, reads_namedKeys_iff,
    reads_expect (by decide : TokenKind.closeParen ≠ .endOfText)]
  exact ⟨_, closing :: rest, ⟨name :: sign :: vs, pairs, ps, rfl, hus, hps, complete,
    by simp [hclosing], rfl⟩, closing, rest, ⟨rfl, hclosing⟩, reads_pure.mpr ⟨rfl, rfl⟩⟩

/-- The value of the only key property is read as a key, since what gives a value is no name. -/
theorem reads_key_of_value {value : Token} {k : KeyProperty} {p : KeyPredicate}
    (hopening : opening.kind = .openParen) (hclosing : closing.kind = .closeParen)
    (hkeys : type.keys = [k]) (hp : (keyPredicate aliases k value).Gives answers p) :
    Reads answers (key aliases type) source (opening :: value :: closing :: rest) [p] rest := by
  obtain ⟨kind, v, -, hvalue, -⟩ := gives_keyPredicate_iff.mp hp
  obtain ⟨hend, hclose, hname⟩ : value.kind ≠ .endOfText ∧ value.kind ≠ .closeParen ∧
      value.kind ≠ .identifier := hvalue.kind_ne
  unfold key
  simp only [reads_bind, reads_expect (by decide : TokenKind.openParen ≠ .endOfText)]
  refine ⟨opening, _, ⟨rfl, hopening⟩, _, _, reads_sees.mpr ⟨rfl, rfl⟩, ?_⟩
  rw [if_neg (by simpa using hclose)]
  simp only [reads_bind]
  refine ⟨_, _, reads_sees.mpr ⟨rfl, rfl⟩, _, _, reads_peekAt.mpr ⟨rfl, rfl⟩, ?_⟩
  rw [if_neg (by simpa using fun h => absurd h hname), hkeys]
  simp only [reads_bind, reads_lift, reads_pure,
    reads_expect (by decide : TokenKind.closeParen ≠ .endOfText)]
  exact ⟨value, closing :: rest, (reads_next hend).mpr rfl, p, closing :: rest, ⟨hp, rfl⟩, _, _,
    ⟨rfl, rfl⟩, closing, rest, ⟨rfl, hclosing⟩, rfl, rfl⟩

/-- Whatever is read as a key is one of the two. -/
theorem exists_of_reads_key (h : Reads answers (key aliases type) source ts result rest) :
    ∃ opening us closing, ts = opening :: us ++ closing :: rest ∧ opening.kind = .openParen ∧
      closing.kind = .closeParen ∧
      ((∃ pairs ps, NamedValues us pairs ∧ ArePredicates answers aliases type.keys pairs ps ∧
          Complete type.keys ps ∧ result = inDeclaredOrder type.keys ps) ∨
        ∃ value k p, us = [value] ∧ type.keys = [k] ∧
          (keyPredicate aliases k value).Gives answers p ∧ result = [p]) := by
  have hcloseParen : TokenKind.closeParen ≠ .endOfText := by decide
  unfold key at h
  simp only [reads_bind, reads_expect (by decide : TokenKind.openParen ≠ .endOfText)] at h
  obtain ⟨opening, us, ⟨rfl, hopening⟩, _, _, hsees, h⟩ := h
  obtain ⟨rfl, rfl⟩ := reads_sees.mp hsees
  rcases reads_ite.mp h with ⟨-, h⟩ | ⟨-, h⟩
  · simp only [reads_bind, reads_lift, Resolution.not_gives_reject, false_and, exists_false] at h
  simp only [reads_bind] at h
  obtain ⟨_, _, hsees, t, _, hpeek, h⟩ := h
  obtain ⟨rfl, rfl⟩ := reads_sees.mp hsees
  obtain ⟨-, rfl⟩ := reads_peekAt.mp hpeek
  rcases reads_ite.mp h with ⟨-, h⟩ | ⟨-, h⟩
  · simp only [reads_bind, reads_namedKeys_iff, reads_expect hcloseParen] at h
    obtain ⟨_, _, ⟨us, pairs, ps, rfl, hus, hps, complete, -, rfl⟩, closing, _, ⟨rfl, hclosing⟩,
      hresult⟩ := h
    obtain ⟨rfl, rfl⟩ := reads_pure.mp hresult
    exact ⟨opening, us, closing, rfl, hopening, hclosing,
      Or.inl ⟨pairs, ps, hus, hps, complete, rfl⟩⟩
  · split at h
    · next k hkeys =>
      simp only [reads_bind, reads_lift, reads_pure, reads_expect hcloseParen] at h
      obtain ⟨value, _, hnext, p, _, ⟨hp, rfl⟩, _, _, ⟨rfl, rfl⟩, closing, _, ⟨rfl, hclosing⟩,
        rfl, rfl⟩ := h
      obtain ⟨kind, v, -, hvalue, -⟩ := gives_keyPredicate_iff.mp hp
      obtain rfl := (reads_next hvalue.kind_ne.1).mp hnext
      exact ⟨opening, [value], closing, rfl, hopening, hclosing,
        Or.inr ⟨value, k, p, rfl, hkeys, hp, rfl⟩⟩
    · simp only [reads_bind, reads_lift, Resolution.not_gives_reject, false_and,
        exists_false] at h

/-- The tokens of a key are named values for all paths, or the value of the only key property. -/
theorem reads_key_iff :
    Reads answers (key aliases type) source ts result rest ↔
      ∃ opening us closing, ts = opening :: us ++ closing :: rest ∧ opening.kind = .openParen ∧
        closing.kind = .closeParen ∧
        ((∃ pairs ps, NamedValues us pairs ∧ ArePredicates answers aliases type.keys pairs ps ∧
            Complete type.keys ps ∧ result = inDeclaredOrder type.keys ps) ∨
          ∃ value k p, us = [value] ∧ type.keys = [k] ∧
            (keyPredicate aliases k value).Gives answers p ∧ result = [p]) := by
  refine ⟨exists_of_reads_key, ?_⟩
  rintro ⟨opening, us, closing, rfl, hopening, hclosing, h⟩
  obtain ⟨pairs, ps, hus, hps, complete, rfl⟩ | ⟨value, k, p, rfl, hkeys, hp, rfl⟩ := h
  · exact reads_key_of_namedValues hopening hclosing hus hps complete
  · exact reads_key_of_value hopening hclosing hkeys hp

end Keys

end ODataRequest
