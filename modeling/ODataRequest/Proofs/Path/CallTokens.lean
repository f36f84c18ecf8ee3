import ODataRequest.Proofs.Path.KeyOrder
import ODataRequest.Proofs.Path.SegmentText

/-!
# ODataRequest.Proofs.Path.CallTokens

The tokens of a call. What stands behind the name of a function is known by its words: the pairs of a
name and a value in parentheses (`ArgumentTokens`), and perhaps a key. Where the pairs are known, a
reading of the call is an equivalence that mentions neither the tokens of the arguments nor their places
(`reads_calledFunction_of_argumentTokens`), and what is read behind them depends on words alone
(`Keyed.of_words`).
-/

namespace ODataRequest

open TokenReader

variable {answers : Answers} {aliases : AliasTable} {source source' : String}
variable {ts ts' us us' rest rest' : List Token} {pairs pairs' : List (String × Word)}

/-! ### Words -/

/-- Tokens with the same words start alike. -/
theorem exists_of_map_word_cons {t : Token} (h : ts'.map Token.word = (t :: ts).map Token.word) :
    ∃ t' us, ts' = t' :: us ∧ t'.kind = t.kind ∧ t'.text = t.text ∧
      us.map Token.word = ts.map Token.word := by
  cases ts' with
  | nil => cases h
  | cons t' us =>
    rw [List.map_cons, List.map_cons, List.cons.injEq] at h
    exact ⟨t', us, rfl, congrArg Word.kind h.1, congrArg Word.text h.1, h.2⟩

theorem firstToken_kind_of_words (h : ts'.map Token.word = ts.map Token.word) :
    (firstToken ts').kind = (firstToken ts).kind := by
  cases ts with
  | nil =>
    rw [List.map_nil, List.map_eq_nil_iff] at h
    rw [h]
  | cons t ts =>
    obtain ⟨t', us, rfl, hkind, -⟩ := exists_of_map_word_cons h
    exact hkind

theorem tokenize_eq_ok {text : String} :
    tokenize text = .ok ts ↔ Lexeme.tokensFrom 0 false text.toList = some ts := by
  unfold tokenize
  cases Lexeme.tokensFrom 0 false text.toList <;> simp

/-- Where the tokens of a text stand does not matter. -/
theorem tokensFrom_offset {cs : List Char} {offset : Nat} {spaced : Bool}
    (h : Lexeme.tokensFrom offset spaced cs = some ts) (offset' : Nat) :
    ∃ ts', Lexeme.tokensFrom offset' spaced cs = some ts' ∧
      ts'.map Token.word = ts.map Token.word := by
  fun_induction Lexeme.tokensFrom offset spaced cs generalizing ts offset' with
  | case1 offset spaced =>
    cases h
    exact ⟨[⟨.endOfText, "", offset', spaced⟩], by rw [Lexeme.tokensFrom], rfl⟩
  | case2 offset spaced c cs hspace ih =>
    obtain ⟨ts', hts', hwords⟩ := ih h (offset' + 1)
    exact ⟨ts', by rw [Lexeme.tokensFrom, if_pos hspace, hts'], hwords⟩
  | case3 => cases h
  | case4 offset spaced c cs hspace kind n hlexeme text =>
    rename_i ih
    obtain ⟨us, hus, rfl⟩ := Option.map_eq_some_iff.mp h
    obtain ⟨us', hus', hwords⟩ := ih hus (offset' + Lexeme.byteLength (c :: cs.take n))
    refine ⟨⟨kind, String.ofList text, offset', spaced⟩ :: us', ?_, ?_⟩
    · rw [Lexeme.tokensFrom, if_neg hspace, hlexeme]
      exact Option.map_eq_some_iff.mpr ⟨us', hus', rfl⟩
    · simp [hwords, Token.word]

/-- Named values are known by their words. -/
theorem NamedValues.of_words (h : NamedValues us pairs)
    (hwords : us'.map Token.word = us.map Token.word) : NamedValues us' pairs := by
  induction h generalizing us' with
  | @last name sign value isName isSign =>
    obtain ⟨name', vs, rfl, hname, htext, hvs⟩ := exists_of_map_word_cons hwords
    obtain ⟨sign', ws, rfl, hsign, -, hws⟩ := exists_of_map_word_cons hvs
    obtain ⟨value', xs, rfl, hkind, hvalue, hxs⟩ := exists_of_map_word_cons hws
    obtain rfl : xs = [] := List.map_eq_nil_iff.mp hxs
    have hpair : (name.text, value.word) = (name'.text, value'.word) := by
      rw [htext, Token.word, Token.word, hkind, hvalue]
    rw [hpair]
    exact .last (hname.trans isName) (hsign.trans isSign)
  | @more name sign value comma ts pairs isName isSign isComma others ih =>
    obtain ⟨name', vs, rfl, hname, htext, hvs⟩ := exists_of_map_word_cons hwords
    obtain ⟨sign', ws, rfl, hsign, -, hws⟩ := exists_of_map_word_cons hvs
    obtain ⟨value', xs, rfl, hkind, hvalue, hxs⟩ := exists_of_map_word_cons hws
    obtain ⟨comma', ys, rfl, hcomma, -, hys⟩ := exists_of_map_word_cons hxs
    have hpair : (name.text, value.word) = (name'.text, value'.word) := by
      rw [htext, Token.word, Token.word, hkind, hvalue]
    rw [hpair]
    exact .more (hname.trans isName) (hsign.trans isSign) (hcomma.trans isComma) (ih hys)

/-- A key is known by its words. -/
theorem reads_key_of_words {type : EntityType} {keys : List KeyPredicate}
    (h : Reads answers (key aliases type) source ts keys rest)
    (hwords : ts'.map Token.word = ts.map Token.word) :
    ∃ rest', Reads answers (key aliases type) source' ts' keys rest' ∧
      rest'.map Token.word = rest.map Token.word := by
  obtain ⟨opening, us, closing, rfl, hopening, hclosing, h⟩ := reads_key_iff.mp h
  rw [List.cons_append] at hwords
  obtain ⟨opening', vs, rfl, hopening', -, hvs⟩ := exists_of_map_word_cons hwords
  rw [List.map_append] at hvs
  obtain ⟨us', ws, rfl, hus, hws⟩ := List.map_eq_append_iff.mp hvs
  obtain ⟨closing', rest', rfl, hclosing', -, hrest⟩ := exists_of_map_word_cons hws
  refine ⟨rest', reads_key_iff.mpr ⟨opening', us', closing', rfl, hopening'.trans hopening,
    hclosing'.trans hclosing, ?_⟩, hrest⟩
  rcases h with ⟨pairs, ps, hnamed, hps, hcomplete, rfl⟩ | ⟨value, k, p, rfl, hkeys, hp, rfl⟩
  · exact Or.inl ⟨pairs, ps, hnamed.of_words hus, hps, hcomplete, rfl⟩
  · obtain ⟨value', xs, rfl, hkind, htext, hxs⟩ := exists_of_map_word_cons hus
    obtain rfl : xs = [] := List.map_eq_nil_iff.mp hxs
    obtain ⟨kind, v, hkeyKind, hvalue, rfl⟩ := gives_keyPredicate_iff.mp hp
    have hword : value'.word = value.word := by rw [Token.word, Token.word, hkind, htext]
    exact Or.inr ⟨value', k, _, rfl, hkeys,
      gives_keyPredicate_iff.mpr ⟨kind, v, hkeyKind, by rwa [hword], rfl⟩, rfl⟩

/-- Whether a key follows, and which one, is known by the words. -/
theorem Keyed.of_words {Allowed : EntityType → Prop} {plain r : Resource}
    (h : Keyed answers aliases Allowed plain source ts r rest)
    (hwords : ts'.map Token.word = ts.map Token.word) :
    ∃ rest', Keyed answers aliases Allowed plain source' ts' r rest' ∧
      rest'.map Token.word = rest.map Token.word := by
  cases h with
  | without noKey =>
    exact ⟨ts', .without (by rwa [firstToken_kind_of_words hwords]), hwords⟩
  | withKey allowed reads =>
    obtain ⟨rest', hreads, hrest⟩ := reads_key_of_words reads hwords
    exact ⟨rest', .withKey allowed hreads, hrest⟩

/-! ### Arguments -/

/-- The tokens start with the pairs of a name and a value in parentheses, or with empty parentheses. -/
inductive ArgumentTokens : (ts : List Token) → List (String × Word) → (rest : List Token) → Prop
  | empty {opening closing : Token} {rest : List Token} (opens : opening.kind = .openParen)
      (closes : closing.kind = .closeParen) : ArgumentTokens (opening :: closing :: rest) [] rest
  | named {opening closing : Token} {us rest : List Token} {pairs : List (String × Word)}
      (opens : opening.kind = .openParen) (closes : closing.kind = .closeParen)
      (values : NamedValues us pairs) : ArgumentTokens (opening :: us ++ closing :: rest) pairs rest

namespace ArgumentTokens

theorem firstToken_kind (h : ArgumentTokens ts pairs rest) : (firstToken ts).kind = .openParen := by
  cases h with
  | empty opens => exact opens
  | named opens => exact opens

theorem of_reads {raw : List (String × Token)} (h : Reads answers rawArguments source ts raw rest) :
    ArgumentTokens ts (worded raw) rest ∧ (raw.map (·.1)).Nodup := by
  obtain ⟨opening, us, closing, rfl, hopening, hclosing, ⟨rfl, rfl⟩ | hus, hdistinct⟩ :=
    namedValues_of_rawArguments h
  · exact ⟨.empty hopening hclosing, hdistinct⟩
  · exact ⟨.named hopening hclosing hus, hdistinct⟩

/-- The pairs and the tokens behind them are known by the tokens. -/
theorem unique (h : ArgumentTokens ts pairs rest) (h' : ArgumentTokens ts pairs' rest') :
    pairs = pairs' ∧ rest = rest' := by
  cases h with
  | empty _ closes =>
    generalize hts : _ :: _ :: rest = ts at h'
    cases h' with
    | empty =>
      cases hts
      exact ⟨rfl, rfl⟩
    | named _ _ values =>
      obtain ⟨name, sign, vs, rfl, hname, -⟩ := values.exists_cons
      cases hts
      rw [closes] at hname
      cases hname
  | named _ closes values =>
    generalize hts : _ :: _ ++ _ :: rest = ts at h'
    cases h' with
    | empty _ closes' =>
      obtain ⟨name, sign, vs, rfl, hname, -⟩ := values.exists_cons
      cases hts
      rw [closes'] at hname
      cases hname
    | named _ closes' values' =>
      rw [List.cons_append, List.cons_append, List.cons.injEq] at hts
      obtain ⟨-, rfl, rfl⟩ := values.unique values' closes closes' hts.2
      exact ⟨rfl, rfl⟩

theorem of_words (h : ArgumentTokens ts pairs rest)
    (hwords : ts'.map Token.word = ts.map Token.word) :
    ∃ rest', ArgumentTokens ts' pairs rest' ∧ rest'.map Token.word = rest.map Token.word := by
  cases h with
  | empty opens closes =>
    obtain ⟨opening, vs, rfl, hopening, -, hvs⟩ := exists_of_map_word_cons hwords
    obtain ⟨closing, rest', rfl, hclosing, -, hrest⟩ := exists_of_map_word_cons hvs
    exact ⟨rest', .empty (hopening.trans opens) (hclosing.trans closes), hrest⟩
  | named opens closes values =>
    rw [List.cons_append] at hwords
    obtain ⟨opening, vs, rfl, hopening, -, hvs⟩ := exists_of_map_word_cons hwords
    rw [List.map_append] at hvs
    obtain ⟨us, ws, rfl, hus, hws⟩ := List.map_eq_append_iff.mp hvs
    obtain ⟨closing, rest', rfl, hclosing, -, hrest⟩ := exists_of_map_word_cons hws
    exact ⟨rest', .named (hopening.trans opens) (hclosing.trans closes) (values.of_words hus), hrest⟩

/-- Pairs with different names are read as arguments. -/
theorem reads (h : ArgumentTokens ts pairs rest) (hdistinct : (pairs.map (·.1)).Nodup)
    (hvalues : ∀ pair ∈ pairs, pair.2.kind ≠ .endOfText) :
    ∃ raw, worded raw = pairs ∧ Reads answers rawArguments source ts raw rest := by
  cases h with
  | empty opens closes =>
    exact reads_rawArguments_of_values opens closes (Or.inl ⟨rfl, rfl⟩) hvalues hdistinct
  | named opens closes values =>
    exact reads_rawArguments_of_values opens closes (Or.inr values) hvalues hdistinct

end ArgumentTokens

/-- A pair of a name and a value as an argument of a function. -/
def argumentOf (f : Function) (pair : String × Word) : Resolution Argument :=
  argument f (pair.1, ⟨pair.2.kind, pair.2.text, 0, false⟩)

theorem gives_argumentsOf {f : Function} {raw : List (String × Token)} {arguments : List Argument} :
    (argumentsOf f raw).Gives answers arguments ↔
      List.Forall₂ (fun pair a => (argumentOf f pair).Gives answers a) (worded raw) arguments := by
  rw [argumentsOf_eq]
  exact Resolution.gives_mapM

theorem kind_ne_of_gives_argumentOf {f : Function} {pair : String × Word} {a : Argument}
    (h : (argumentOf f pair).Gives answers a) : pair.2.kind ≠ .endOfText := by
  rcases (gives_argument h).2.2 with hkind | hkind | hkind <;>
    · have hkind : pair.2.kind = _ := hkind
      simp [hkind]

/-! ### Calls -/

/-- A call is read if its pairs have different names, a function is found for these names, each pair is
an argument of it, and a key follows only where one may. -/
theorem reads_calledFunction_of_argumentTokens {byImport : Option Csdl.FunctionImport}
    {missing : SemanticError} {find : List String → Resolution (Option Function)} {r : Resource}
    (h : ArgumentTokens ts pairs us) :
    Reads answers (calledFunction aliases byImport missing find) source ts r rest ↔
      (pairs.map (·.1)).Nodup ∧ ∃ f arguments returnType,
        (find (pairs.map (·.1))).Gives answers (some f) ∧
        List.Forall₂ (fun pair a => (argumentOf f pair).Gives answers a) pairs arguments ∧
        answers (.type f.returnType.type.name) (some returnType) ∧
        Keyed answers aliases (ReturnsEntities f returnType)
          (plainCall f byImport arguments returnType) source us r rest := by
  rw [reads_calledFunction_iff]
  constructor
  · rintro ⟨raw, between, f, hraw, hfind, hfunction⟩
    obtain ⟨htokens, hdistinct⟩ := ArgumentTokens.of_reads hraw
    obtain ⟨rfl, rfl⟩ := h.unique htokens
    obtain ⟨arguments, returnType, harguments, htype, hkeyed⟩ :=
      reads_functionResource_iff.mp hfunction
    rw [map_fst_worded]
    exact ⟨hdistinct, f, arguments, returnType, hfind, gives_argumentsOf.mp harguments, htype, hkeyed⟩
  · rintro ⟨hdistinct, f, arguments, returnType, hfind, harguments, htype, hkeyed⟩
    have hvalues : ∀ pair ∈ pairs, pair.2.kind ≠ .endOfText := by
      intro pair hpair
      obtain ⟨a, -, ha⟩ := exists_right_of_forall₂ harguments hpair
      exact kind_ne_of_gives_argumentOf ha
    obtain ⟨raw, rfl, hraw⟩ : ∃ raw, worded raw = pairs ∧
        Reads answers rawArguments source ts raw us := h.reads hdistinct hvalues
    rw [map_fst_worded] at hfind
    exact ⟨raw, us, f, hraw, hfind, reads_functionResource_iff.mpr
      ⟨arguments, returnType, gives_argumentsOf.mpr harguments, htype, hkeyed⟩⟩

end ODataRequest
