import ODataRequest.Proofs.Path.KeyText

/-!
# ODataRequest.Proofs.Path.ArgumentText

Arguments are read back from their texts. The arguments of a call keep their order, their names and
the texts of their values, so the same function is looked for and gets the same arguments again
(`arguments_rewritten`).
-/

namespace ODataRequest

open TokenReader

variable {answers : Answers} {source : String} {ts rest : List Token}
variable {raw read read' : List (String × Token)}

/-- The names of arguments with the words of their values. -/
def worded (raw : List (String × Token)) : List (String × Word) :=
  raw.map fun argument => (argument.1, argument.2.word)

theorem map_fst_worded (raw : List (String × Token)) :
    (worded raw).map (·.1) = raw.map (·.1) := by
  simp [worded]

/-! ### Reading -/

/-- One more argument is read, if its value is a token that can be passed over. -/
theorem reads_rawArgument_iff (hrest : (firstToken rest).kind ≠ .endOfText) :
    Reads answers (rawArgument read) source ts read' rest ↔
      ∃ name sign value, ts = name :: sign :: value :: rest ∧ name.kind = .identifier ∧
        sign.kind = .equals ∧ value.kind ≠ .endOfText ∧ name.text ∉ read.map (·.1) ∧
        read' = read ++ [(name.text, value)] := by
  have hnew (name : Token) : (read.any (·.1 == name.text)) = false ↔
      name.text ∉ read.map (·.1) := by
    rw [List.any_eq_false, List.mem_map]
    constructor
    · rintro h ⟨argument, hargument, heq⟩
      exact h argument hargument (by simp [heq])
    · intro h argument hargument heq
      exact h ⟨argument, hargument, eq_of_beq heq⟩
  unfold rawArgument
  simp only [reads_bind, reads_expect (by decide : TokenKind.identifier ≠ .endOfText),
    reads_expect (by decide : TokenKind.equals ≠ .endOfText), reads_ite, not_reads_malformed,
    and_false, false_or, reads_pure, Bool.not_eq_true, hnew]
  constructor
  · rintro ⟨name, _, ⟨rfl, hname⟩, sign, us, ⟨rfl, hsign⟩, value, _, hnext, hfresh, rfl, rfl⟩
    have hvalue : value.kind ≠ .endOfText := by
      intro hend
      cases us with
      | nil =>
        obtain ⟨rfl, rfl⟩ := reads_next_nil.mp hnext
        exact hrest rfl
      | cons t us =>
        obtain ⟨rfl, rfl⟩ := reads_next_cons.mp hnext
        rw [if_pos hend] at hrest
        exact hrest hend
    obtain rfl := (reads_next hvalue).mp hnext
    exact ⟨name, sign, value, rfl, hname, hsign, hvalue, hfresh, rfl⟩
  · rintro ⟨name, sign, value, rfl, hname, hsign, hvalue, hfresh, rfl⟩
    exact ⟨name, _, ⟨rfl, hname⟩, sign, _, ⟨rfl, hsign⟩, value, _, (reads_next hvalue).mpr rfl,
      hfresh, rfl, rfl⟩

/-- Whatever is read as arguments in front of a closing parenthesis consists of named values. -/
theorem namedValues_of_reads_rawArguments (hrest : (firstToken rest).kind = .closeParen)
    (hread : (read.map (·.1)).Nodup)
    (h : Reads answers (foldSeparated .comma rawArgument read) source ts read' rest) :
    ∃ us raw, ts = us ++ rest ∧ NamedValues us (worded raw) ∧ read' = read ++ raw ∧
      (read'.map (·.1)).Nodup := by
  -- by induction on the number of tokens, since each argument takes three of them
  induction hn : ts.length using Nat.strongRecOn generalizing ts read with
  | ind n ih =>
    obtain ⟨state, between, hstep, hend⟩ := (reads_foldSeparated (by decide)).mp h
    have hbetween : (firstToken between).kind ≠ .endOfText := by
      rcases hend with ⟨-, rfl, rfl⟩ | ⟨comma, us, rfl, hcomma, -⟩
      · simp [hrest]
      · simp [hcomma]
    obtain ⟨name, sign, value, rfl, hname, hsign, -, hfresh, rfl⟩ :=
      (reads_rawArgument_iff hbetween).mp hstep
    have hnodup : ((read ++ [(name.text, value)]).map (·.1)).Nodup := by
      rw [List.map_append, List.nodup_append]
      refine ⟨hread, by simp, fun x hx y hy => ?_⟩
      rw [List.map_singleton, List.mem_singleton] at hy
      rintro rfl
      rw [hy] at hx
      exact hfresh hx
    rcases hend with ⟨-, rfl, rfl⟩ | ⟨comma, us, rfl, hcomma, hothers⟩
    · exact ⟨[name, sign, value], [(name.text, value)], rfl, .last hname hsign, rfl, hnodup⟩
    · obtain ⟨vs, raw, rfl, hvs, rfl, hdistinct⟩ :=
        ih us.length (by simp at hn; omega) hnodup hothers rfl
      exact ⟨name :: sign :: value :: comma :: vs, (name.text, value) :: raw, rfl,
        .more hname hsign hcomma hvs, by rw [List.append_assoc]; rfl, hdistinct⟩

/-- Named values are read as arguments, behind those that are read already. -/
theorem reads_rawArguments_of_namedValues {us : List Token} {pairs : List (String × Word)}
    (h : NamedValues us pairs) (hvalues : ∀ pair ∈ pairs, pair.2.kind ≠ .endOfText)
    (hdistinct : (read.map (·.1) ++ pairs.map (·.1)).Nodup)
    (hrest : (firstToken rest).kind = .closeParen) :
    ∃ raw, worded raw = pairs ∧
      Reads answers (foldSeparated .comma rawArgument read) source (us ++ rest) (read ++ raw)
        rest := by
  induction h generalizing read with
  | @last name sign value isName isSign =>
    have hvalue : value.kind ≠ .endOfText := hvalues _ (List.mem_singleton_self _)
    have hfresh : name.text ∉ read.map (·.1) := fun hmem =>
      (List.nodup_append.mp hdistinct).2.2 _ hmem _ (by simp) rfl
    refine ⟨[(name.text, value)], rfl, (reads_foldSeparated (by decide)).mpr ⟨_, rest,
      (reads_rawArgument_iff (by simp [hrest])).mpr ⟨name, sign, value, rfl, isName, isSign,
        hvalue, hfresh, rfl⟩, Or.inl ⟨by simp [hrest], rfl, rfl⟩⟩⟩
  | @more name sign value comma us pairs isName isSign isComma others ih =>
    have hvalue : value.kind ≠ .endOfText := hvalues _ List.mem_cons_self
    have hfresh : name.text ∉ read.map (·.1) := fun hmem =>
      (List.nodup_append.mp hdistinct).2.2 _ hmem _ (by simp) rfl
    have hdistinct' : ((read ++ [(name.text, value)]).map (·.1) ++ pairs.map (·.1)).Nodup := by
      simpa using hdistinct
    obtain ⟨raw, rfl, hraw⟩ :=
      ih (fun pair hpair => hvalues pair (List.mem_cons_of_mem _ hpair)) hdistinct'
    refine ⟨(name.text, value) :: raw, rfl, (reads_foldSeparated (by decide)).mpr ⟨_, _,
      (reads_rawArgument_iff (by simp [isComma])).mpr ⟨name, sign, value, rfl, isName, isSign,
        hvalue, hfresh, rfl⟩, Or.inr ⟨comma, us ++ rest, rfl, isComma, ?_⟩⟩⟩
    rwa [List.append_assoc] at hraw

/-- The tokens of arguments are named values in parentheses, with different names, or none. -/
theorem namedValues_of_rawArguments (h : Reads answers rawArguments source ts raw rest) :
    ∃ opening us closing, ts = opening :: us ++ closing :: rest ∧ opening.kind = .openParen ∧
      closing.kind = .closeParen ∧ (us = [] ∧ raw = [] ∨ NamedValues us (worded raw)) ∧
      (raw.map (·.1)).Nodup := by
  unfold rawArguments at h
  simp only [reads_bind, reads_expect (by decide : TokenKind.openParen ≠ .endOfText),
    reads_skips (by decide : TokenKind.closeParen ≠ .endOfText)] at h
  obtain ⟨opening, _, ⟨rfl, hopening⟩, _, _, ⟨rfl, closing, rfl, hclosing⟩ | ⟨rfl, -, rfl⟩, h⟩ := h
  · rw [if_pos rfl] at h
    obtain ⟨rfl, rfl⟩ := reads_pure.mp h
    exact ⟨opening, [], closing, rfl, hopening, hclosing, Or.inl ⟨rfl, rfl⟩, List.nodup_nil⟩
  · rw [if_neg (by decide)] at h
    simp only [reads_bind, reads_expect (by decide : TokenKind.closeParen ≠ .endOfText)] at h
    obtain ⟨read, _, hread, closing, _, ⟨rfl, hclosing⟩, h⟩ := h
    obtain ⟨rfl, rfl⟩ := reads_pure.mp h
    have hstop : (firstToken (closing :: rest)).kind = .closeParen := hclosing
    obtain ⟨us, raw, rfl, hus, rfl, hdistinct⟩ :=
      namedValues_of_reads_rawArguments hstop (by simp) hread
    exact ⟨opening, us, closing, rfl, hopening, hclosing, Or.inr hus, hdistinct⟩

/-- Named values in parentheses, or nothing in them, are read as arguments. -/
theorem reads_rawArguments_of_values {pairs : List (String × Word)} {opening closing : Token}
    {us : List Token} (hopening : opening.kind = .openParen) (hclosing : closing.kind = .closeParen)
    (hus : us = [] ∧ pairs = [] ∨ NamedValues us pairs)
    (hvalues : ∀ pair ∈ pairs, pair.2.kind ≠ .endOfText) (hdistinct : (pairs.map (·.1)).Nodup) :
    ∃ raw, worded raw = pairs ∧
      Reads answers rawArguments source (opening :: us ++ closing :: rest) raw rest := by
  have hskips : TokenKind.closeParen ≠ .endOfText := by decide
  unfold rawArguments
  simp only [reads_bind, reads_expect (by decide : TokenKind.openParen ≠ .endOfText),
    reads_skips hskips]
  rcases hus with ⟨rfl, rfl⟩ | hnamed
  · refine ⟨[], rfl, opening, _, ⟨rfl, hopening⟩, true, rest, Or.inl ⟨rfl, closing, rfl, hclosing⟩,
      ?_⟩
    rw [if_pos rfl]
    exact reads_pure.mpr ⟨rfl, rfl⟩
  · have hstop : (firstToken (closing :: rest)).kind = .closeParen := hclosing
    obtain ⟨raw, hraw, hread⟩ :
        ∃ raw, worded raw = pairs ∧
          Reads answers (foldSeparated .comma rawArgument []) source (us ++ closing :: rest) raw
            (closing :: rest) :=
      reads_rawArguments_of_namedValues hnamed hvalues hdistinct hstop
    refine ⟨raw, hraw, opening, _, ⟨rfl, hopening⟩, false, _, Or.inr ⟨rfl, ?_, rfl⟩, ?_⟩
    · obtain ⟨name, sign, vs, rfl, hname, -⟩ := hnamed.exists_cons
      simp [hname]
    · rw [if_neg (by decide)]
      simp only [reads_bind, reads_expect hskips]
      exact ⟨raw, _, hread, closing, rest, ⟨rfl, hclosing⟩, reads_pure.mpr ⟨rfl, rfl⟩⟩

/-! ### Values -/

variable {f : Function} {arguments : List Argument}

/-- An argument that is a literal, with a value if the kind of its parameter is known. -/
def literalArgument (name text : String) (kind? : Option PrimitiveKind) : Resolution Argument :=
  match kind? with
  | none => pure ⟨name, .literal text none⟩
  | some kind =>
    match kind.validate text with
    | .ok value => pure ⟨name, .literal text (some value)⟩
    | .error _ => Resolution.reject (.typeMismatch name [text])

/-- It has the name and the text that it is read from, whether or not the kind is known. -/
theorem gives_literalArgument {kind? : Option PrimitiveKind} {name text : String} {a : Argument}
    (h : (literalArgument name text kind?).Gives answers a) : a.name = name ∧ a.value.text = text := by
  unfold literalArgument at h
  split at h
  · cases Resolution.gives_pure.mp h
    exact ⟨rfl, rfl⟩
  split at h
  · cases Resolution.gives_pure.mp h
    exact ⟨rfl, rfl⟩
  · exact absurd h Resolution.not_gives_reject

/-- An argument has the name and the text of what it has been read from. -/
theorem gives_argument {pair : String × Token} {a : Argument}
    (h : (argument f pair).Gives answers a) :
    a.name = pair.1 ∧ a.value.text = pair.2.text ∧
      (pair.2.kind = .parameterAlias ∨ pair.2.kind = .literal ∨ pair.2.kind = .enumLiteral) := by
  obtain ⟨name, t⟩ := pair
  unfold argument at h
  obtain ⟨parameter, -, h⟩ := Resolution.gives_bind.mp h
  split at h
  · rename_i hkind
    cases Resolution.gives_pure.mp h
    exact ⟨rfl, rfl, Or.inl hkind⟩
  · rename_i hkind
    obtain ⟨kind?, -, h⟩ := Resolution.gives_bind.mp h
    obtain ⟨hname, htext⟩ := gives_literalArgument h
    exact ⟨hname, htext, Or.inr (Or.inl hkind)⟩
  · rename_i hkind
    obtain ⟨kind?, -, h⟩ := Resolution.gives_bind.mp h
    obtain ⟨hname, htext⟩ := gives_literalArgument h
    exact ⟨hname, htext, Or.inr (Or.inr hkind)⟩
  · exact absurd h Resolution.not_gives_refuse

/-- Arguments depend on the words of their values only. -/
theorem argumentsOf_eq (f : Function) (raw : List (String × Token)) :
    argumentsOf f raw = (worded raw).mapM fun pair =>
      argument f (pair.1, ⟨pair.2.kind, pair.2.text, 0, false⟩) := by
  rw [worded, List.mapM_map]
  rfl

/-- The text of arguments that have been read is one group, and what stands in it is read as
arguments of these names and values again. -/
structure ArgumentsRewritten (answers : Answers) (f : Function) (names : List String)
    (arguments : List Argument) (content : List Piece) : Prop where
  inner : Inner content
  text : spelled (group content) = (argumentText arguments).toList
  reads : ∀ {source : String} {opening closing : Token} {us rest : List Token},
    opening.kind = .openParen → closing.kind = .closeParen → us.map Token.piece = content →
      ∃ raw, Reads answers rawArguments source (opening :: us ++ closing :: rest) raw rest ∧
        raw.map (·.1) = names ∧ (argumentsOf f raw).Gives answers arguments

theorem map_pairText_worded {raw : List (String × Token)} {arguments : List Argument}
    (h : List.Forall₂ (fun pair a => (argument f pair).Gives answers a) raw arguments) :
    (arguments.map fun a => a.name ++ "=" ++ a.value.text) = (worded raw).map pairText := by
  induction h with
  | nil => rfl
  | @cons pair a raw arguments ha _ ih =>
    obtain ⟨hname, htext, -⟩ := gives_argument ha
    rw [List.map_cons, ih, hname, htext]
    rfl

/-- Arguments that have been read are written in such a way that they are read again. -/
theorem arguments_rewritten (portable : PortableTokens ts)
    (h : Reads answers rawArguments source ts raw rest)
    (harguments : (argumentsOf f raw).Gives answers arguments) :
    ∃ content, ArgumentsRewritten answers f (raw.map (·.1)) arguments content := by
  obtain ⟨opening, us, closing, rfl, -, -, hus, hdistinct⟩ := namedValues_of_rawArguments h
  have heach := Resolution.gives_mapM.mp harguments
  have hkinds : ∀ pair ∈ worded raw,
      pair.2.kind = .parameterAlias ∨ pair.2.kind = .literal ∨ pair.2.kind = .enumLiteral := by
    intro pair hpair
    obtain ⟨given, hgiven, rfl⟩ := List.mem_map.mp hpair
    obtain ⟨a, -, ha⟩ := exists_right_of_forall₂ heach hgiven
    exact (gives_argument ha).2.2
  have hportable : PortableTokens us := portable.of_cons.of_append.1
  refine ⟨pairPieces (worded raw), inner_pairPieces fun pair hpair => ?_, ?_, ?_⟩
  · rcases hus with ⟨-, rfl⟩ | hus
    · cases hpair
    · refine ⟨hus.portable hportable pair hpair, ?_⟩
      obtain ⟨name, -, value, hvalue, -, rfl⟩ := hus.exists_of_mem hpair
      have hkind : value.kind = .parameterAlias ∨ value.kind = .literal ∨
          value.kind = .enumLiteral := hkinds _ hpair
      refine hportable value hvalue ?_ ?_ ?_ ?_ <;>
        rcases hkind with hkind | hkind | hkind <;> simp [hkind]
  · rw [spelled_group, spelled_pairPieces, argumentText, map_pairText_worded heach]
    simp
  · intro source opening closing us rest hopening hclosing hus
    have hvalues : ∀ pair ∈ worded raw, pair.2.kind ≠ .endOfText := by
      intro pair hpair
      rcases hkinds pair hpair with hkind | hkind | hkind <;> simp [hkind]
    have hnamed : us = [] ∧ worded raw = [] ∨ NamedValues us (worded raw) := by
      by_cases hnone : worded raw = []
      · rw [hnone, pairPieces, List.map_eq_nil_iff] at hus
        exact Or.inl ⟨hus, hnone⟩
      · exact Or.inr (namedValues_of_pairPieces hnone hus)
    obtain ⟨raw', hraw', hread⟩ := reads_rawArguments_of_values hopening hclosing hnamed hvalues
      (by rwa [map_fst_worded])
    refine ⟨raw', hread, ?_, ?_⟩
    · rw [← map_fst_worded, hraw', map_fst_worded]
    · rwa [argumentsOf_eq, hraw', ← argumentsOf_eq]

end ODataRequest
