import ODataRequest.Proofs.Expression.Balanced
import ODataRequest.Proofs.Path.DeclaredKeys
import ODataRequest.Proofs.Query.Expansion

/-!
# ODataRequest.Proofs.Query.OptionText

The texts of options that may stand inside an expanded item. Whatever the readers of conditions,
orders, selections, numbers, truth values and levels accept is enclosed: every quote and every
parenthesis in it is closed, and no semicolon stands outside of quotes
(`enclosed_of_optionValueWith`). These options are simple (`OptionKind.isSimple`), which others are
not: a search phrase or a media type may hold a semicolon or a quote that is not closed.
-/

namespace ODataRequest

open Text Lexeme

/-- The kinds of options whose texts are enclosed. Their values are the same at every depth. -/
def OptionKind.isSimple : OptionKind → Bool
  | .filter | .orderBy | .select | .top | .skip | .count | .levels => true
  | .expand | .search | .format | .id | .skipToken => false

variable {answers : Answers} {config : Config} {scope : Scope} {text : String}

/-! ### Blank space and separators -/

theorem calm_blanks {cs : List Char} (h : ∀ c ∈ cs, isBlank c = true) : Calm cs := by
  have hquiet : IsQuiet isBlank := by
    unfold IsQuiet
    decide
  exact hquiet.calm h

/-- There is no blank space in a name. -/
theorem isBlank_of_isWordPart {c : Char} (h : isWordPart c = true) : isBlank c = false := by
  have hpart : ∀ code ∈ blankCodes, isWordPart (Char.ofNat code) = false := by
    decide +kernel
  cases hblank : isBlank c with
  | false => rfl
  | true =>
    have hfalse := hpart _ (mem_blankCodes hblank)
    rw [Char.ofNat_toNat, h] at hfalse
    cases hfalse

/-- A text is enclosed if it is without the blank space at its ends. -/
theorem enclosed_of_trim {cs : List Char} (h : Enclosed (trim cs)) : Enclosed cs := by
  obtain ⟨front, back, hcs, hfront, hback⟩ := exists_trim cs
  rw [hcs]
  exact .calm (calm_blanks hfront) (h.append (calm_blanks hback).enclosed)

theorem calm_comma : Calm [','] :=
  .of_all (by decide)

theorem calm_slash : Calm ['/'] :=
  .of_all (by decide)

/-- A list is enclosed if its parts are. -/
theorem enclosed_of_topLevelParts (h : ∀ part ∈ topLevelParts ',' text, Enclosed part.toList) :
    Enclosed text.toList := by
  rw [← joined_splitFrom ',' .outermost text.toList]
  refine .joined calm_comma fun part hpart => ?_
  have hmem : String.ofList part ∈ topLevelParts ',' text := List.mem_map_of_mem hpart
  simpa using h _ hmem

/-! ### Conditions and orders -/

theorem enclosed_of_filterCondition {e : Expression}
    (h : (filterCondition config scope text).Gives answers e) : Enclosed text.toList := by
  obtain ⟨e', he', -⟩ := Resolution.gives_bind.mp h
  obtain ⟨tokens, rest, htokens, hread, hend⟩ := TokenReader.gives_readAll.mp he'
  exact (balanced_expression hread).enclosed_of_tokenize htokens hend

/-- A direction is a word behind the expression. -/
theorem balanced_orderItem {source : String} {ts rest : List Token} {i : OrderItem}
    (h : TokenReader.Reads answers (orderItem config scope) source ts i rest) :
    Balanced ts rest := by
  unfold orderItem at h
  rw [TokenReader.reads_bind] at h
  obtain ⟨e, between, hread, h⟩ := h
  refine (balanced_expression hread).trans ?_
  simp only [TokenReader.reads_bind, TokenReader.reads_peek, TokenReader.reads_ite,
    TokenReader.reads_pure] at h
  obtain ⟨_, us, ⟨rfl, rfl⟩, ⟨hword, t, _, hnext, rfl, rfl⟩ | ⟨-, rfl, rfl⟩⟩ := h
  · have hkind : (firstToken us).kind = .identifier := by
      simp only [Token.isWord, Bool.or_eq_true, Bool.and_eq_true, beq_iff_eq] at hword
      rcases hword with ⟨hkind, -⟩ | ⟨hkind, -⟩ <;> exact hkind
    obtain ⟨u, behind, rfl, hu⟩ := TokenReader.firstToken_kind_eq (by decide) hkind
    rw [TokenReader.reads_next_cons, if_neg (by rw [hu]; decide)] at hnext
    obtain ⟨rfl, rfl⟩ := hnext
    exact .single hu (by decide)
  · exact .refl _

theorem enclosed_of_orderItems {items : List OrderItem}
    (h : (orderItems config scope text).Gives answers items) : Enclosed text.toList := by
  refine enclosed_of_topLevelParts fun part hpart => ?_
  obtain ⟨i, -, hi⟩ := exists_right_of_forall₂ (Resolution.gives_mapM.mp h) hpart
  obtain ⟨tokens, rest, htokens, hread, hend⟩ := TokenReader.gives_readAll.mp hi
  exact (balanced_orderItem hread).enclosed_of_tokenize htokens hend

/-! ### Selections -/

theorem enclosed_of_propertyStep {target : ModelType} {p p' : Position}
    (h : (propertyStep target p text).Gives answers p') : Enclosed text.toList := by
  obtain ⟨name, hname, -⟩ := Resolution.gives_bind.mp h
  obtain ⟨tokens, rest, htokens, hread, hend⟩ := TokenReader.gives_readAll.mp hname
  obtain ⟨t, hread, -⟩ := TokenReader.reads_bind_pure.mp hread
  obtain ⟨rfl, hkind⟩ := (TokenReader.reads_expect (by decide)).mp hread
  exact (Balanced.single hkind (by decide)).enclosed_of_tokenize htokens hend

/-- Every segment of a path is followed. -/
theorem gives_step_of_propertyPath {target : ModelType} {segments : List String} {start p : Position}
    (h : (segments.foldlM (propertyStep target) start).Gives answers p) :
    ∀ segment ∈ segments, ∃ q q', (propertyStep target q segment).Gives answers q' := by
  induction segments generalizing start with
  | nil => simp
  | cons segment segments ih =>
    rw [List.foldlM_cons, Resolution.gives_bind] at h
    obtain ⟨q, hstep, hrest⟩ := h
    exact List.forall_mem_cons.mpr ⟨⟨start, q, hstep⟩, ih hrest⟩

theorem enclosed_of_propertyPath {target : ModelType} {p : Position}
    (h : (propertyPath target (parts '/' text)).Gives answers p) : Enclosed text.toList := by
  rw [← joined_pieces '/' text.toList]
  refine .joined calm_slash fun piece hpiece => ?_
  have hmem : String.ofList piece ∈ parts '/' text := List.mem_map_of_mem hpiece
  obtain ⟨q, q', hstep⟩ := gives_step_of_propertyPath h _ hmem
  simpa using enclosed_of_propertyStep hstep

theorem isDotted_of_parse {space : Namespace} (h : Namespace.parse text = .ok space) :
    IsDotted text.toList := by
  unfold Namespace.parse at h
  obtain ⟨ids, hids, h⟩ := except_bind_eq_ok.mp h
  rw [← joined_pieces '.' text.toList, ← map_text_of_mapM_parse hids]
  refine .joined ?_
  rintro rfl
  cases h

theorem enclosed_of_selectItem {target : Option ModelType} {i : SelectItem}
    (h : (selectItem target text).Gives answers i) : Enclosed text.toList := by
  rcases selectItem_cases h with
    ⟨rfl, -⟩ | ⟨front, space, htext, hspace, -⟩ | ⟨owner, p, -, hpath, -⟩
  · exact (Calm.of_all (by decide)).enclosed
  · have hdotted := isDotted_of_parse hspace
    rw [String.toList_ofList] at hdotted
    have hending : Calm ".*".toList := .of_all (by decide)
    rw [htext]
    exact ((isQuiet_isWordPart.calm hdotted.isWordPart).append hending).enclosed
  · exact enclosed_of_propertyPath hpath

theorem enclosed_of_selectItems {target : Option ModelType} {items : List SelectItem}
    (h : (selectItems target text).Gives answers items) : Enclosed text.toList := by
  refine enclosed_of_topLevelParts fun part hpart => ?_
  obtain ⟨i, -, hi⟩ := exists_right_of_forall₂ (Resolution.gives_mapM.mp h) hpart
  have htrimmed := enclosed_of_selectItem hi
  rw [trimmed, String.toList_ofList] at htrimmed
  exact enclosed_of_trim htrimmed

/-! ### Numbers, truth values and levels -/

theorem enclosed_of_boundedNumber? {greatest n : Nat} (h : boundedNumber? greatest text = some n) :
    Enclosed text.toList := by
  obtain ⟨hdigits, -⟩ := Option.filter_eq_some_iff.mp h
  have hquiet : IsQuiet Char.isDigit := by
    unfold IsQuiet
    decide
  unfold digits? at hdigits
  split at hdigits
  · next hform =>
    simp only [isDigits, Bool.and_eq_true, List.all_eq_true] at hform
    exact (hquiet.calm hform.2).enclosed
  · cases hdigits

theorem enclosed_of_parseNumber {kind : OptionKind} {n : Nat} (h : parseNumber kind text = .ok n) :
    Enclosed text.toList := by
  unfold parseNumber at h
  split at h
  · next hnumber => exact enclosed_of_boundedNumber? hnumber
  · cases h

theorem enclosed_of_parseCount {wanted : Bool} (h : parseCount text = .ok wanted) :
    Enclosed text.toList := by
  unfold parseCount at h
  split at h
  · next htrue =>
    subst htrue
    exact (Calm.of_all (by decide)).enclosed
  split at h
  · next hfalse =>
    subst hfalse
    exact (Calm.of_all (by decide)).enclosed
  · cases h

theorem enclosed_of_parseLevels {limit : Nat} {levels : Levels}
    (h : Levels.parse limit text = .ok levels) : Enclosed text.toList := by
  unfold Levels.parse at h
  split at h
  · next hmax =>
    subst hmax
    exact (Calm.of_all (by decide)).enclosed
  split at h
  · next hnumber => exact enclosed_of_boundedNumber? hnumber
  · cases h

/-! ### Options -/

variable {readItems : Scope → String → Resolution (List ExpandItem)} {kind : OptionKind}
variable {value : OptionValue}

/-- The accepted text of a simple option is enclosed. -/
theorem enclosed_of_optionValueWith (hkind : kind.isSimple = true)
    (h : (optionValueWith config readItems scope kind text).Gives answers value) :
    Enclosed text.toList := by
  unfold optionValueWith at h
  cases kind <;> simp only [Resolution.gives_bind, Resolution.gives_ofGrammar] at h
  case filter =>
    obtain ⟨e, he, -⟩ := h
    exact enclosed_of_filterCondition he
  case orderBy =>
    obtain ⟨items, hitems, -⟩ := h
    exact enclosed_of_orderItems hitems
  case select =>
    obtain ⟨items, hitems, -⟩ := h
    exact enclosed_of_selectItems hitems
  case top =>
    obtain ⟨n, hn, -⟩ := h
    exact enclosed_of_parseNumber hn
  case skip =>
    obtain ⟨n, hn, -⟩ := h
    exact enclosed_of_parseNumber hn
  case count =>
    obtain ⟨wanted, hwanted, -⟩ := h
    exact enclosed_of_parseCount hwanted
  case levels =>
    obtain ⟨levels, hlevels, -⟩ := h
    exact enclosed_of_parseLevels hlevels
  all_goals cases hkind

/-- How the items of an expansion are read makes no difference to a simple option. -/
theorem optionValueWith_eq (hkind : kind.isSimple = true)
    (readItems' : Scope → String → Resolution (List ExpandItem)) :
    optionValueWith config readItems scope kind text =
      optionValueWith config readItems' scope kind text := by
  cases kind <;> first | rfl | cases hkind

/-- A simple option has the same value at every depth. -/
theorem optionValue_eq (hkind : kind.isSimple = true) (room room' : Nat) :
    optionValue config room scope kind text = optionValue config room' scope kind text := by
  cases room <;> cases room' <;> exact optionValueWith_eq hkind _

theorem enclosed_of_optionValue (hkind : kind.isSimple = true) {room : Nat}
    (h : (optionValue config room scope kind text).Gives answers value) : Enclosed text.toList := by
  cases room <;> exact enclosed_of_optionValueWith hkind h

end ODataRequest
