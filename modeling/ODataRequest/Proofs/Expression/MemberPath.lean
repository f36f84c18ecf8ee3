import ODataRequest.Proofs.Expression.Rules
import ODataRequest.Proofs.Path.Segments

/-!
# ODataRequest.Proofs.Expression.MemberPath

Everything that a step of a path in an expression can do (`MemberEffect`, `memberEffect`). Most
steps are a single token, which leads to a resource or narrows the last one. An entity set may have
a key, a function has arguments, and a quantifier applies a condition; only these go on reading.
-/

namespace ODataRequest

open TokenReader

variable {answers : Answers} {scope : Scope} {nested : OperandReader} {source : String}

/-- What a step of a path does behind its first token: it turns the position `p` and the tokens that
are left into other ones. -/
inductive MemberEffect (answers : Answers) (scope : Scope) (nested : OperandReader)
    (source : String) (p : MemberPosition) : List Token → MemberPosition → List Token → Prop
  | it {ts : List Token} {type : ModelType} (start : p.atStart = true)
      (isIt : scope.it = some type) :
      MemberEffect answers scope nested source p ts (p.push (.it type)) ts
  | count {ts : List Token} (collection : p.isCollection = true) :
      MemberEffect answers scope nested source p ts (p.push .count) ts
  | lambdaVariable {ts : List Token} {name : String} {type : ModelType} (start : p.atStart = true)
      (bound : scope.boundType? name = some type) :
      MemberEffect answers scope nested source p ts (p.push (.lambdaVariable name type)) ts
  | property {ts : List Token} {name : String} {r : Resource}
      (h : (propertyMember scope p name).Gives answers r) :
      MemberEffect answers scope nested source p ts (p.push r) ts
  | narrow {ts : List Token} {p' : MemberPosition} {text : String} {name : QualifiedName}
      {type : ModelType} (cast : (castMember scope p text type).Gives answers p')
      (known : answers (.type name) (some type)) :
      MemberEffect answers scope nested source p ts p' ts
  | root {ts rest : List Token} {r : Resource} (start : p.atStart = true)
      (h : Reads answers (rootResource scope.aliases) source ts r rest) :
      MemberEffect answers scope nested source p ts (p.push r) rest
  | joined {ts rest : List Token} {name : String} {r : Resource} (start : p.atStart = true)
      (h : Reads answers (joinedResource scope.aliases name) source ts r rest)
      (isJoined : name ∈ scope.joined) :
      MemberEffect answers scope nested source p ts ({ p with fromJoin := true }.push r) rest
  | function {ts rest : List Token} {text : String} {name : QualifiedName} {r : Resource}
      (h : Reads answers (memberFunction scope p text name) source ts r rest) :
      MemberEffect answers scope nested source p ts (p.push r) rest
  | quantify {ts rest : List Token} {quantifier : Quantifier} {r : Resource}
      (collection : p.isCollection = true)
      (h : Reads answers (quantified scope nested quantifier (p.type? scope)) source ts r rest) :
      MemberEffect answers scope nested source p ts (p.push r) rest

variable {p p' : MemberPosition} {ts rest : List Token}

/-! ### Steps by their first tokens -/

/-- Behind `$root` more is read; `$it` and `$count` stand alone. -/
theorem reads_dollarMember_iff {text : String} :
    Reads answers (dollarMember scope p text) source ts p' rest ↔
      (text = "$it" ∧ p.atStart = true ∧
        ∃ type, scope.it = some type ∧ p' = p.push (.it type) ∧ rest = ts) ∨
      (text = "$root" ∧ p.atStart = true ∧
        ∃ r, Reads answers (rootResource scope.aliases) source ts r rest ∧ p' = p.push r) ∨
      (text = "$count" ∧ p.steps.isEmpty = false ∧ p.isCollection = true ∧ p' = p.push .count ∧
        rest = ts) := by
  unfold dollarMember
  constructor
  · intro h
    split at h
    · next hit =>
      obtain ⟨type, htype, h⟩ := reads_lift_bind.mp h
      obtain ⟨rfl, rfl⟩ := reads_pure.mp h
      exact Or.inl ⟨hit.1, hit.2, type, Resolution.gives_require.mp htype, rfl, rfl⟩
    split at h
    · next hroot =>
      obtain ⟨r, hr, rfl⟩ := reads_bind_pure.mp h
      exact Or.inr (Or.inl ⟨hroot.1, hroot.2, r, hr, rfl⟩)
    split at h
    · next hcount =>
      split at h
      · next hcollection =>
        obtain ⟨rfl, rfl⟩ := reads_pure.mp h
        exact Or.inr (Or.inr ⟨hcount.1, by simpa using hcount.2, hcollection, rfl, rfl⟩)
      · exact absurd (reads_lift.mp h).1 Resolution.not_gives_reject
    · exact absurd h not_reads_malformed
  · rintro (⟨rfl, hstart, type, htype, rfl, rfl⟩ | ⟨rfl, hstart, r, hr, rfl⟩ |
      ⟨rfl, hsteps, hcollection, rfl, rfl⟩)
    · rw [if_pos ⟨rfl, hstart⟩]
      exact reads_lift_bind.mpr ⟨type, Resolution.gives_require.mpr htype, reads_pure.mpr ⟨rfl, rfl⟩⟩
    · rw [if_neg (by simp), if_pos ⟨rfl, hstart⟩]
      exact reads_bind_pure.mpr ⟨r, hr, rfl⟩
    · rw [if_neg (by simp), if_neg (by simp), if_pos ⟨rfl, by simp [hsteps]⟩, if_pos hcollection]
      exact reads_pure.mpr ⟨rfl, rfl⟩

/-- A qualified name is the name of a type, which casts, or of a function. -/
theorem reads_qualifiedMember_iff {text : String} :
    Reads answers (qualifiedMember scope p text) source ts p' rest ↔
      ∃ name, QualifiedName.ofString? text = some name ∧
        ((∃ type, answers (.type name) (some type) ∧
            (castMember scope p text type).Gives answers p' ∧ rest = ts) ∨
          (answers (.type name) none ∧
            ∃ r, Reads answers (memberFunction scope p text name) source ts r rest ∧
              p' = p.push r)) := by
  unfold qualifiedMember
  simp only [reads_lift_bind, Resolution.gives_requireName]
  refine exists_congr fun name => and_congr_right fun _ => ?_
  constructor
  · rintro ⟨found, hanswer, h⟩
    have hfound := Resolution.gives_answerTo.mp hanswer
    cases found with
    | some type =>
      obtain ⟨hcast, rfl⟩ := reads_lift.mp h
      exact Or.inl ⟨type, hfound, hcast, rfl⟩
    | none => exact Or.inr ⟨hfound, reads_bind_pure.mp h⟩
  · rintro (⟨type, hfound, hcast, rfl⟩ | ⟨hfound, hfunction⟩)
    · exact ⟨some type, Resolution.gives_answerTo.mpr hfound, reads_lift.mpr ⟨hcast, rfl⟩⟩
    · exact ⟨none, Resolution.gives_answerTo.mpr hfound, reads_bind_pure.mpr hfunction⟩

/-- At the start of a path a name may be a variable or an entity set of a cross join; otherwise it
is qualified or the name of a property. -/
theorem reads_namedMember_iff {name : String} :
    Reads answers (namedMember scope p name) source ts p' rest ↔
      (p.atStart = true ∧ ∃ type, scope.boundType? name = some type ∧
        p' = p.push (.lambdaVariable name type) ∧ rest = ts) ∨
      (p.atStart = true ∧ scope.boundType? name = none ∧ name ∈ scope.joined ∧
        ∃ r, Reads answers (joinedResource scope.aliases name) source ts r rest ∧
          p' = { p with fromJoin := true }.push r) ∨
      ((p.atStart = true → scope.boundType? name = none ∧ name ∉ scope.joined) ∧
        (isQualified name = true ∧
            Reads answers (qualifiedMember scope p name) source ts p' rest ∨
          isQualified name = false ∧ ∃ r, (propertyMember scope p name).Gives answers r ∧
            p' = p.push r ∧ rest = ts)) := by
  -- whatever stands at the start of a path, the step may be a cast, a function or a property
  have further : Reads answers (if isQualified name then qualifiedMember scope p name
      else return p.push (← propertyMember scope p name)) source ts p' rest ↔
        isQualified name = true ∧ Reads answers (qualifiedMember scope p name) source ts p' rest ∨
          isQualified name = false ∧ ∃ r, (propertyMember scope p name).Gives answers r ∧
            p' = p.push r ∧ rest = ts := by
    rw [reads_ite, Bool.not_eq_true]
    simp only [reads_lift_bind, reads_pure, @eq_comm _ _ p']
  unfold namedMember
  by_cases hstart : p.atStart = true
  · rw [if_pos hstart]
    cases hbound : scope.boundType? name with
    | some type => simp [hstart, @eq_comm _ _ p']
    | none =>
      by_cases hjoined : name ∈ scope.joined
      · simp [hstart, hjoined, @eq_comm _ _ p']
      · simp [hstart, hjoined, ← further]
  · rw [if_neg hstart]
    simp [hstart, ← further]

/-- A step is a keyword with a dollar sign, a quantifier with its condition, or a name. -/
theorem reads_memberStep_iff {t : Token} :
    Reads answers (memberStep scope nested p t) source ts p' rest ↔
      (t.kind = .dollar ∧ Reads answers (dollarMember scope p t.text) source ts p' rest) ∨
      (t.kind = .identifier ∧
        ((∃ quantifier, quantifier? t.text = some quantifier ∧ (firstToken ts).kind = .openParen ∧
            p.steps.isEmpty = false ∧ p.isCollection = true ∧
            ∃ r, Reads answers (quantified scope nested quantifier (p.type? scope)) source ts r
              rest ∧ p' = p.push r) ∨
          (((quantifier? t.text).isSome = true → (firstToken ts).kind = .openParen →
              p.steps.isEmpty = true) ∧
            Reads answers (namedMember scope p t.text) source ts p' rest))) := by
  unfold memberStep
  split
  · next hkind => simp [hkind]
  · next hkind =>
    simp only [hkind, reduceCtorEq, false_and, true_and, false_or]
    split
    · next quantifier hquantifier =>
      simp only [reads_bind, reads_sees, hquantifier, Option.some.injEq, Option.isSome_some]
      by_cases hopens : (firstToken ts).kind = .openParen ∧ p.steps.isEmpty = false
      · by_cases hcollection : p.isCollection = true
        · simp [hopens, hcollection, @eq_comm _ _ p']
        · simp [hopens, hcollection]
      · have hopens' : ((firstToken ts).kind == .openParen && !p.steps.isEmpty) = false := by
          simpa using hopens
        simp [hopens']
        grind
    · next hquantifier => simp [hquantifier]
  · next hdollar hidentifier =>
    refine iff_of_false not_reads_malformed ?_
    rintro (⟨hkind, -⟩ | ⟨hkind, -⟩)
    · exact hdollar hkind
    · exact hidentifier hkind

theorem memberEffect_qualified {text : String}
    (h : Reads answers (qualifiedMember scope p text) source ts p' rest) :
    MemberEffect answers scope nested source p ts p' rest := by
  obtain ⟨name, -, ⟨type, hfound, hcast, rfl⟩ | ⟨-, r, hr, rfl⟩⟩ := reads_qualifiedMember_iff.mp h
  · exact .narrow hcast hfound
  · exact .function hr

/-! ### What is read behind the first token -/

/-- Behind `$root/` stands the name of an entity set or of a singleton. -/
theorem reads_rootResource_iff {aliases : AliasTable} {r : Resource} :
    Reads answers (rootResource aliases) source ts r rest ↔
      ∃ slash name us container, ts = slash :: name :: us ∧ slash.kind = .slash ∧
        name.kind = .identifier ∧ answers .container (some container) ∧
        ((∃ set, container.entitySet? name.text = some set ∧
            Reads answers (entitySetResource aliases set) source us r rest) ∨
          (container.entitySet? name.text = none ∧
            ∃ single, container.singleton? name.text = some single ∧
              (singletonResource single).Gives answers r ∧ rest = us)) := by
  unfold rootResource
  simp only [reads_bind, reads_lift, Resolution.gives_requireContainer,
    reads_expect (by decide : TokenKind.slash ≠ .endOfText),
    reads_expect (by decide : TokenKind.identifier ≠ .endOfText)]
  constructor
  · rintro ⟨slash, _, ⟨rfl, hslash⟩, name, us, ⟨rfl, hname⟩, container, _, ⟨hcontainer, rfl⟩, h⟩
    refine ⟨slash, name, _, container, rfl, hslash, hname, hcontainer, ?_⟩
    split at h
    · next set hset => exact Or.inl ⟨set, hset, h⟩
    · next hset =>
      rw [reads_lift_bind] at h
      obtain ⟨single, hsingle, h⟩ := h
      exact Or.inr ⟨Option.eq_none_iff_forall_ne_some.mpr hset, single,
        Resolution.gives_require.mp hsingle, reads_lift.mp h⟩
  · rintro ⟨slash, name, us, container, rfl, hslash, hname, hcontainer, h⟩
    refine ⟨slash, _, ⟨rfl, hslash⟩, name, us, ⟨rfl, hname⟩, container, us, ⟨hcontainer, rfl⟩, ?_⟩
    obtain ⟨set, hset, h⟩ | ⟨hnone, single, hsingle, h⟩ := h
    · simpa only [hset] using h
    · simp only [hnone]
      exact reads_lift_bind.mpr ⟨single, Resolution.gives_require.mpr hsingle, reads_lift.mpr h⟩

theorem reads_joinedResource_iff {aliases : AliasTable} {name : String} {r : Resource} :
    Reads answers (joinedResource aliases name) source ts r rest ↔
      ∃ container set, answers .container (some container) ∧
        container.entitySet? name = some set ∧
        Reads answers (entitySetResource aliases set) source ts r rest := by
  unfold joinedResource
  simp only [reads_lift_bind, Resolution.gives_requireContainer, Resolution.gives_require,
    exists_and_left]

/-- A function is called with arguments and has no key. -/
theorem reads_memberFunction_iff {text : String} {name : QualifiedName} {r : Resource} :
    Reads answers (memberFunction scope p text name) source ts r rest ↔
      (firstToken ts).kind = .openParen ∧ ∃ owner raw f arguments returnType,
        p.type? scope = some owner ∧ Reads answers rawArguments source ts raw rest ∧
        answers (.boundFunction name ⟨owner.name, p.isCollection⟩ (raw.map (·.1))) (some f) ∧
        (argumentsOf f raw).Gives answers arguments ∧
        answers (.type f.returnType.type.name) (some returnType) ∧
        r = .function f none arguments returnType [] Casts.none := by
  unfold memberFunction
  rw [reads_bind]
  constructor
  · rintro ⟨_, _, hsees, h⟩
    obtain ⟨rfl, rfl⟩ := reads_sees.mp hsees
    dsimp only at h
    split at h
    · simp at h
    · next hopens =>
      obtain ⟨owner, howner, h⟩ := reads_lift_bind.mp h
      obtain ⟨raw, between, hraw, h⟩ := reads_bind.mp h
      obtain ⟨f, hf, h⟩ := reads_require_bind.mp h
      obtain ⟨arguments, harguments, h⟩ := reads_lift_bind.mp h
      obtain ⟨returnType, htype, h⟩ := reads_lift_bind.mp h
      obtain ⟨rfl, rfl⟩ := reads_pure.mp h
      exact ⟨by simpa using hopens, owner, raw, f, arguments, returnType,
        Resolution.gives_require.mp howner, hraw, Resolution.gives_answerTo.mp hf, harguments,
        Resolution.gives_requireType.mp htype, rfl⟩
  · rintro ⟨hopens, owner, raw, f, arguments, returnType, howner, hraw, hf, harguments, htype, rfl⟩
    refine ⟨_, _, reads_sees.mpr ⟨rfl, rfl⟩, ?_⟩
    dsimp only
    rw [if_neg (by simp [hopens])]
    refine reads_lift_bind.mpr ⟨owner, Resolution.gives_require.mpr howner, ?_⟩
    refine reads_bind.mpr ⟨raw, rest, hraw, ?_⟩
    refine reads_require_bind.mpr ⟨f, Resolution.gives_answerTo.mpr hf, ?_⟩
    refine reads_lift_bind.mpr ⟨arguments, harguments, ?_⟩
    refine reads_lift_bind.mpr ⟨returnType, Resolution.gives_requireType.mpr htype, ?_⟩
    exact reads_pure.mpr ⟨rfl, rfl⟩

theorem memberFunction_cases {text : String} {name : QualifiedName} {r : Resource}
    (h : Reads answers (memberFunction scope p text name) source ts r rest) :
    ∃ f raw arguments returnType, Reads answers rawArguments source ts raw rest ∧
      (argumentsOf f raw).Gives answers arguments ∧
      r = .function f none arguments returnType [] Casts.none := by
  obtain ⟨-, owner, raw, f, arguments, returnType, -, hraw, -, harguments, -, hr⟩ :=
    reads_memberFunction_iff.mp h
  exact ⟨f, raw, arguments, returnType, hraw, harguments, hr⟩

/-- What a quantifier reads behind its opening parenthesis, unless it stands alone. -/
def quantifiedBody (scope : Scope) (nested : OperandReader) (quantifier : Quantifier)
    (owner : Option ModelType) : TokenReader Resource := do
  let name := (← TokenReader.expect .identifier).text
  if isQualified name then Resolution.refuse (.malformed name)
  let _ ← TokenReader.expect .colon
  let type ← Resolution.require (.onlyForTypedParts quantifier.name) owner
  let body ← nested (scope.bind name type) 0
  requireCondition quantifier.name body
  let _ ← TokenReader.expect .closeParen
  return .lambda quantifier name body

theorem quantifiedBody_cases {quantifier : Quantifier} {owner : Option ModelType} {r : Resource}
    (h : Reads answers (quantifiedBody scope nested quantifier owner) source ts r rest) :
    ∃ name colon type body us closing, ts = name :: colon :: us ∧ name.kind = .identifier ∧
      colon.kind = .colon ∧ owner = some type ∧
      Reads answers (nested (scope.bind name.text type) 0) source us body (closing :: rest) ∧
      (requireCondition quantifier.name body).Gives answers () ∧ closing.kind = .closeParen ∧
      r = .lambda quantifier name.text body := by
  have hne : TokenKind.identifier ≠ .endOfText ∧ TokenKind.colon ≠ .endOfText ∧
      TokenKind.closeParen ≠ .endOfText := by decide
  simp only [quantifiedBody, reads_bind, reads_ite, reads_lift, reads_pure, reads_expect hne.1,
    reads_expect hne.2.1, reads_expect hne.2.2, Resolution.not_gives_refuse, false_and, and_false,
    exists_false, false_or] at h
  obtain ⟨name, _, ⟨rfl, hname⟩, -, colon, us, ⟨rfl, hcolon⟩, type, _, ⟨howner, rfl⟩, body, _,
    hbody, _, _, ⟨hcondition, rfl⟩, closing, _, ⟨rfl, hclosing⟩, rfl, rfl⟩ := h
  exact ⟨name, colon, type, body, _, closing, rfl, hname, hcolon,
    Resolution.gives_require.mp howner, hbody, hcondition, hclosing, rfl⟩

/-- `any` may stand alone and asks whether there are members; otherwise a quantifier names them and
says what has to hold of them, one level deeper. -/
theorem reads_quantified_iff {quantifier : Quantifier} {owner : Option ModelType} {r : Resource} :
    Reads answers (quantified scope nested quantifier owner) source ts r rest ↔
      ∃ opening us, ts = opening :: us ∧ opening.kind = .openParen ∧
        ((quantifier = .any ∧ r = .notEmpty ∧
            ∃ closing, us = closing :: rest ∧ closing.kind = .closeParen) ∨
          ((quantifier = .any → (firstToken us).kind ≠ .closeParen) ∧
            Reads answers (quantifiedBody scope nested quantifier owner) source us r rest)) := by
  unfold quantified
  simp only [reads_bind, reads_expect (by decide : TokenKind.openParen ≠ .endOfText)]
  constructor
  · rintro ⟨opening, us, ⟨rfl, hopening⟩, h⟩
    refine ⟨opening, us, rfl, hopening, ?_⟩
    by_cases hany : quantifier = .any
    · rw [if_pos hany, reads_bind] at h
      obtain ⟨skipped, vs, hskips, h⟩ := h
      rw [reads_skips (by decide)] at hskips
      obtain ⟨rfl, closing, rfl, hclosing⟩ | ⟨rfl, hopen, rfl⟩ := hskips
      · rw [if_pos rfl, reads_pure] at h
        obtain ⟨rfl, rfl⟩ := h
        exact Or.inl ⟨hany, rfl, closing, rfl, hclosing⟩
      · exact Or.inr ⟨fun _ => hopen, h⟩
    · rw [if_neg hany] at h
      exact Or.inr ⟨fun h => absurd h hany, h⟩
  · rintro ⟨opening, us, rfl, hopening, ⟨rfl, rfl, closing, rfl, hclosing⟩ | ⟨hopen, h⟩⟩
    · refine ⟨opening, _, ⟨rfl, hopening⟩, ?_⟩
      rw [if_pos rfl, reads_bind]
      refine ⟨true, rest, (reads_skips (by decide)).mpr (Or.inl ⟨rfl, closing, rfl, hclosing⟩), ?_⟩
      exact reads_pure.mpr ⟨rfl, rfl⟩
    · refine ⟨opening, us, ⟨rfl, hopening⟩, ?_⟩
      by_cases hany : quantifier = .any
      · rw [if_pos hany, reads_bind]
        exact ⟨false, us, (reads_skips (by decide)).mpr (Or.inr ⟨rfl, hopen hany, rfl⟩), h⟩
      · rw [if_neg hany]
        exact h

/-- What a step of a path can do. -/
theorem memberEffect {t : Token}
    (h : Reads answers (memberStep scope nested p t) source ts p' rest) :
    MemberEffect answers scope nested source p ts p' rest := by
  obtain ⟨-, hdollar⟩ | ⟨-, hword⟩ := reads_memberStep_iff.mp h
  · obtain ⟨-, hstart, type, htype, rfl, rfl⟩ | ⟨-, hstart, r, hr, rfl⟩ |
      ⟨-, -, hcollection, rfl, rfl⟩ := reads_dollarMember_iff.mp hdollar
    · exact .it hstart htype
    · exact .root hstart hr
    · exact .count hcollection
  obtain ⟨quantifier, -, -, -, hcollection, r, hr, rfl⟩ | ⟨-, hnamed⟩ := hword
  · exact .quantify hcollection hr
  obtain ⟨hstart, type, hbound, rfl, rfl⟩ | ⟨hstart, -, hjoined, r, hr, rfl⟩ |
    ⟨-, ⟨-, hqualified⟩ | ⟨-, r, hr, rfl, rfl⟩⟩ := reads_namedMember_iff.mp hnamed
  · exact .lambdaVariable hstart hbound
  · exact .joined hstart hr hjoined
  · exact memberEffect_qualified hqualified
  · exact .property hr

/-- The step of the loop over the slashes of a path. -/
def memberPathStep (scope : Scope) (nested : OperandReader) (p : MemberPosition) (t : Token) :
    Option (TokenReader MemberPosition) :=
  if t.kind = .slash then some (do memberStep scope nested p (← TokenReader.next)) else none

/-- Behind a slash stands a token that leads further. -/
theorem memberPathStep_cases {t : Token} {reader : TokenReader MemberPosition}
    (hselect : memberPathStep scope nested p t = some reader)
    (h : Reads answers reader source ts p' rest) :
    ∃ u us, t.kind = .slash ∧ ts = u :: us ∧
      Reads answers (memberStep scope nested p u) source us p' rest := by
  unfold memberPathStep at hselect
  split at hselect
  · next hslash =>
    cases hselect
    obtain ⟨u, us, hnext, hstep⟩ := reads_bind.mp h
    have hend : u.kind ≠ .endOfText := by
      intro hend
      simp [memberStep, hend] at hstep
    exact ⟨u, us, hslash, (reads_next hend).mp hnext, hstep⟩
  · cases hselect

/-- A variable alone stands for itself; any other path is a step and further ones behind slashes. -/
theorem memberPath_cases {first : Token} {e : Expression}
    (h : Reads answers (memberPath scope nested first) source ts e rest) :
    (∃ name type, e = .boundVariable name type ∧ scope.boundType? name = some type ∧ rest = ts) ∨
      ∃ start between final,
        Reads answers (memberStep scope nested MemberPosition.origin first) source ts start between ∧
        Reads answers (foldWhile (memberPathStep scope nested) start) source between final rest ∧
        e = .member final.start final.path := by
  unfold memberPath at h
  obtain ⟨sees, _, hsees, h⟩ := reads_bind.mp h
  obtain ⟨rfl, rfl⟩ := reads_sees.mp hsees
  dsimp only at h
  split at h
  · next hbound _ =>
    obtain ⟨rfl, rfl⟩ := reads_pure.mp h
    exact Or.inl ⟨_, _, rfl, hbound, rfl⟩
  · obtain ⟨start, between, hstart, h⟩ := reads_bind.mp h
    obtain ⟨final, hloop, rfl⟩ := reads_bind_pure.mp h
    exact Or.inr ⟨start, between, final, hstart, hloop, rfl⟩

end ODataRequest
