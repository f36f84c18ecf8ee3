import Mathlib.Data.List.Forall2
import ODataRequest.Proofs.Query.Parts
import ODataRequest.Proofs.Text.Cut
import ODataRequest.Proofs.Text.Percent
import ODataRequest.Proofs.Token.Extends

/-!
# ODataRequest.Proofs.Query.OptionNames

The spellings of the names of options. Depending on the configuration a name may be written in any
case, and its dollar sign may be left out.

* A pair of a query is the same item if the name that it stands for is written in the usual way
  (`ofPair_canonicalPair`), and so is the whole query (`ofQuery_canonicalQuery`).
* Whoever takes names in any case takes those in the usual case too, inside of expansions as well
  (`optionValue_refines`). In a query this makes a difference for the options of some other kind,
  whose names may have become those of system query options (`ofQuery_anyCase`).
-/

namespace ODataRequest

open Text

variable {config : Config}

/-! ### Names -/

namespace OptionKind

/-- The name of a kind stands for this kind in either way to read names. -/
theorem ofName?_name (ignoringCase : Bool) (kind : OptionKind) :
    ofName? ignoringCase kind.name = some kind := by
  cases ignoringCase <;> cases kind <;> decide

theorem ofName?_true_of_false {name : String} {kind : OptionKind}
    (h : ofName? false name = some kind) : ofName? true name = some kind := by
  have hname : kind.name = name := by simpa using List.find?_some h
  rw [← hname, ofName?_name]

/-- A name is that of its kind, apart from the case of letters. -/
theorem equalIgnoringCase_of_ofName? {ignoringCase : Bool} {name : String} {kind : OptionKind}
    (h : ofName? ignoringCase name = some kind) :
    equalIgnoringCase kind.name.toList name.toList = true := by
  have hfound := List.find?_some h
  cases ignoringCase with
  | true => exact hfound
  | false =>
    rw [← beq_iff_eq.mp (show (kind.name == name) = true from hfound)]
    exact beq_self_eq_true _

end OptionKind

/-- The name of a kind stands for this kind, whatever names are allowed. -/
theorem optionKind?_name (config : Config) (kind : OptionKind) :
    optionKind? config kind.name = .ok (some kind) := by
  have hdollar : kind.name.toList.head? = some '$' := by
    cases kind <;> rfl
  rw [optionKind?, if_pos hdollar, OptionKind.ofName?_name]

/-- A name that stands for a kind is found as it is, or with a dollar sign in front of it. -/
theorem exists_of_optionKind? {name : String} {kind : OptionKind}
    (h : optionKind? config name = .ok (some kind)) :
    (name.toList.head? = some '$' ∧ OptionKind.ofName? config.ignoringCase name = some kind) ∨
      (name.toList.head? ≠ some '$' ∧ config.dollarOptional = true ∧
        OptionKind.ofName? config.ignoringCase ("$" ++ name) = some kind) := by
  unfold optionKind? at h
  split at h
  · rename_i hdollar
    split at h
    · rename_i kind' hkind
      cases h
      exact .inl ⟨hdollar, hkind⟩
    · cases h
  · rename_i hdollar
    split at h
    · rename_i hoptional
      exact .inr ⟨hdollar, hoptional, Except.ok.inj h⟩
    · cases h

theorem optionKind?_eq_ok_none {name : String} :
    optionKind? config name = .ok none ↔ name.toList.head? ≠ some '$' ∧
      (config.dollarOptional = true → OptionKind.ofName? config.ignoringCase ("$" ++ name) = none) := by
  unfold optionKind?
  split
  · split <;> simp_all
  · cases config.dollarOptional <;> simp_all

/-- No name of a parameter alias stands for a system query option. -/
theorem not_alias_of_optionKind? {name : String} {kind : OptionKind}
    (h : optionKind? config name = .ok (some kind)) : name.toList.head? ≠ some '@' := by
  intro halias
  rcases exists_of_optionKind? h with ⟨hdollar, -⟩ | ⟨-, -, hkind⟩
  · rw [halias] at hdollar
    cases hdollar
  · obtain ⟨cs, hcs⟩ := List.head?_eq_some_iff.mp halias
    have hequal := OptionKind.equalIgnoringCase_of_ofName? hkind
    rw [String.toList_append, hcs, equalIgnoringCase, beq_iff_eq] at hequal
    -- the second letter of no kind is `@`
    have hletter : (kind.name.toList.map Char.toLower)[1]? = some '@' := by
      rw [hequal]
      rfl
    cases kind <;> cases hletter

/-! ### Pairs in the usual form -/

/-- The name of a pair as it stands in the query. -/
def keyOf (pair : List Char) : List Char :=
  ((cutAt? '=' pair).getD (pair, [])).1

/-- The system query option that a pair of a query is recognized as. -/
def recognized? (config : Config) (pair : List Char) : Option OptionKind :=
  (decoded (String.ofList (keyOf pair))).toOption.bind fun name =>
    (optionKind? config name).toOption.join

/-- A pair with the usual name of its system query option; any other pair as it is. -/
def canonicalPair (config : Config) (pair : List Char) : List Char :=
  match recognized? config pair with
  | some kind => kind.name.toList ++ pair.drop (keyOf pair).length
  | none => pair

/-- A query with the usual names of all its system query options. -/
def canonicalQuery (config : Config) (query : String) : String :=
  String.ofList (joined '&' ((pieces '&' query.toList).map (canonicalPair config)))

theorem recognized?_eq_some {pair : List Char} {kind : OptionKind} :
    recognized? config pair = some kind ↔ ∃ name,
      decoded (String.ofList (keyOf pair)) = .ok name ∧ optionKind? config name = .ok (some kind) := by
  simp only [recognized?, Option.bind_eq_some_iff, Option.join_eq_some_iff, except_toOption_eq_some]

theorem canonicalPair_of_recognized? {pair : List Char} {kind : OptionKind}
    (h : recognized? config pair = some kind) :
    canonicalPair config pair = kind.name.toList ++ pair.drop (keyOf pair).length := by
  rw [canonicalPair, h]

theorem equals_not_mem_name (kind : OptionKind) : '=' ∉ kind.name.toList := by
  cases kind <;> decide

theorem decoded_of_not_mem {cs : List Char} (h : '%' ∉ cs) :
    decoded (String.ofList cs) = .ok (String.ofList cs) := by
  rw [decoded, percentDecode?_of_not_mem h]

theorem decoded_name (kind : OptionKind) :
    decoded (String.ofList kind.name.toList) = .ok kind.name := by
  have hpercent : '%' ∉ kind.name.toList := by
    cases kind <;> decide
  rw [decoded_of_not_mem hpercent, String.ofList_toList]

theorem ofName_of_optionKind? {name : String} {kind : OptionKind} {item : QueryItem}
    (h : optionKind? config name = .ok (some kind)) (text : String) :
    QueryItem.ofName config name text = .ok item ↔
      kind ≠ .levels ∧ item = .system kind text := by
  unfold QueryItem.ofName
  rw [if_neg (not_alias_of_optionKind? h), h]
  cases kind <;> simp [eq_comm]

/-- The usual name of an option, an equals sign and a text are the option with this text, if nothing in
the text is encoded. -/
theorem ofPair_name {kind : OptionKind} (hkind : kind ≠ .levels) {text : List Char}
    (hpercent : '%' ∉ text) :
    QueryItem.ofPair config (kind.name.toList ++ '=' :: text) =
      .ok (.system kind (String.ofList text)) := by
  unfold QueryItem.ofPair
  rw [cutAt?_append (equals_not_mem_name kind), Option.getD_some]
  simp only [decoded_name, decoded_of_not_mem hpercent, except_ok_bind]
  exact (ofName_of_optionKind? (optionKind?_name config kind) _).mpr ⟨hkind, rfl⟩

/-- A pair is its name and what stands behind it: nothing, or a text behind an equals sign. -/
theorem pair_eq (pair : List Char) :
    (pair.drop (keyOf pair).length = [] ∧ cutAt? '=' pair = none ∧ keyOf pair = pair) ∨
      ∃ text, pair.drop (keyOf pair).length = '=' :: text ∧
        cutAt? '=' pair = some (keyOf pair, text) := by
  cases hcut : cutAt? '=' pair with
  | none =>
    have hkey : keyOf pair = pair := by rw [keyOf, hcut]; rfl
    exact .inl ⟨by rw [hkey, List.drop_length], rfl, hkey⟩
  | some parts =>
    obtain ⟨key, text⟩ := parts
    have hkey : keyOf pair = key := by rw [keyOf, hcut]; rfl
    refine .inr ⟨text, ?_, by rw [hkey]⟩
    rw [hkey, eq_append_of_cutAt? hcut, List.drop_left]

/-- A pair in the usual form is the same item. -/
theorem ofPair_canonicalPair {pair : List Char} {item : QueryItem} :
    QueryItem.ofPair config (canonicalPair config pair) = .ok item ↔
      QueryItem.ofPair config pair = .ok item := by
  cases hkind : recognized? config pair with
  | none => rw [canonicalPair, hkind]
  | some kind =>
    obtain ⟨name, hname, hrecognized⟩ := recognized?_eq_some.mp hkind
    have hequals := equals_not_mem_name kind
    have hsame (text : String) : QueryItem.ofName config kind.name text = .ok item ↔
        QueryItem.ofName config name text = .ok item := by
      rw [ofName_of_optionKind? (optionKind?_name config kind), ofName_of_optionKind? hrecognized]
    rw [canonicalPair_of_recognized? hkind]
    unfold QueryItem.ofPair
    rcases pair_eq pair with ⟨hnothing, hcut, hkey⟩ | ⟨text, htext, hcut⟩
    · rw [hkey] at hname
      rw [hnothing, List.append_nil, hcut, cutAt?_eq_none hequals]
      simp only [Option.getD_none, decoded_name, hname, except_ok_bind, except_bind_eq_ok, hsame]
    · rw [htext, hcut, cutAt?_append hequals]
      simp only [Option.getD_some, decoded_name, hname, except_ok_bind, except_bind_eq_ok, hsame]

/-! ### Queries in the usual form -/

theorem canonicalPair_eq_nil {pair : List Char} : canonicalPair config pair = [] ↔ pair = [] := by
  constructor
  · intro h
    cases hkind : recognized? config pair with
    | none => rwa [canonicalPair, hkind] at h
    | some kind =>
      rw [canonicalPair_of_recognized? hkind] at h
      have hname := (List.append_eq_nil_iff.mp h).1
      cases kind <;> cases hname
  · rintro rfl
    have hnone : recognized? config [] = none := by
      have hdecoded : decoded (String.ofList []) = .ok "" := by decide +kernel
      have hkind : optionKind? config "" = .ok none := by
        refine optionKind?_eq_ok_none.mpr ⟨by decide, fun _ => ?_⟩
        cases config.ignoringCase <;> decide
      rw [recognized?, show keyOf [] = [] from rfl, hdecoded]
      simp [Except.toOption, hkind]
    rw [canonicalPair, hnone]

theorem not_mem_canonicalPair {pair : List Char} (h : '&' ∉ pair) :
    '&' ∉ canonicalPair config pair := by
  unfold canonicalPair
  split
  · rename_i kind _
    rw [List.mem_append, not_or]
    refine ⟨by cases kind <;> decide, fun hmem => h (List.mem_of_mem_drop hmem)⟩
  · exact h

theorem pairsOf_canonicalQuery (query : String) :
    QueryParts.pairsOf (canonicalQuery config query) =
      (QueryParts.pairsOf query).map (canonicalPair config) := by
  have hpieces : pieces '&' (joined '&' ((pieces '&' query.toList).map (canonicalPair config))) =
      (pieces '&' query.toList).map (canonicalPair config) := by
    refine pieces_joined ?_ (by simpa using pieces_ne_nil '&' query.toList)
    intro part hpart
    obtain ⟨pair, hpair, rfl⟩ := List.mem_map.mp hpart
    exact not_mem_canonicalPair (not_mem_of_mem_pieces hpair)
  unfold QueryParts.pairsOf canonicalQuery
  rw [String.toList_ofList, hpieces, List.filter_map]
  congr 1
  refine List.filter_congr fun pair _ => ?_
  simp [canonicalPair_eq_nil]

/-- A query in the usual form has the same parts. -/
theorem ofQuery_canonicalQuery {query : String} {parts : QueryParts} :
    QueryParts.ofQuery config (canonicalQuery config query) = .ok parts ↔
      QueryParts.ofQuery config query = .ok parts := by
  simp only [QueryParts.ofQuery_eq_ok, pairsOf_canonicalQuery, List.forall₂_map_left_iff,
    ofPair_canonicalPair]

/-! ### Names in any case -/

/-- A name that stands for a kind in its usual case does so in any case. -/
theorem optionKind?_anyCase {name : String} {kind : OptionKind}
    (h : optionKind? { config with ignoringCase := false } name = .ok (some kind)) :
    optionKind? { config with ignoringCase := true } name = .ok (some kind) := by
  unfold optionKind?
  rcases exists_of_optionKind? h with ⟨hdollar, hkind⟩ | ⟨hdollar, hoptional, hkind⟩
  · rw [if_pos hdollar, OptionKind.ofName?_true_of_false hkind]
  · rw [if_neg hdollar, if_pos hoptional, OptionKind.ofName?_true_of_false hkind]

/-- An option of some other kind stays one if its name is not that of a system query option in
another case and without its dollar sign. -/
theorem ofPair_anyCase {pair : List Char} {item : QueryItem}
    (h : QueryItem.ofPair { config with ignoringCase := false } pair = .ok item)
    (hcustom : ∀ option, item.custom? = some option → config.dollarOptional = true →
      OptionKind.ofName? true ("$" ++ option.1) = none) :
    QueryItem.ofPair { config with ignoringCase := true } pair = .ok item := by
  unfold QueryItem.ofPair at h ⊢
  obtain ⟨name, hname, h⟩ := except_bind_eq_ok.mp h
  obtain ⟨text, htext, h⟩ := except_bind_eq_ok.mp h
  refine except_bind_eq_ok.mpr ⟨name, hname, except_bind_eq_ok.mpr ⟨text, htext, ?_⟩⟩
  unfold QueryItem.ofName at h ⊢
  split at h
  · rename_i halias
    rwa [if_pos halias]
  · rename_i halias
    rw [if_neg halias]
    obtain ⟨kind?, hkind, h⟩ := except_bind_eq_ok.mp h
    cases kind? with
    | some kind =>
      rw [optionKind?_anyCase hkind]
      exact h
    | none =>
      cases h
      obtain ⟨hdollar, -⟩ := optionKind?_eq_ok_none.mp hkind
      rw [optionKind?_eq_ok_none.mpr ⟨hdollar, hcustom _ rfl⟩]
      rfl

/-- A query has the same parts if names are taken in any case, unless an option of some other kind has
the name of a system query option in another case and without its dollar sign. -/
theorem ofQuery_anyCase {query : String} {parts : QueryParts}
    (h : QueryParts.ofQuery { config with ignoringCase := false } query = .ok parts)
    (hcustom : config.dollarOptional = true →
      ∀ option ∈ parts.custom, OptionKind.ofName? true ("$" ++ option.1) = none) :
    QueryParts.ofQuery { config with ignoringCase := true } query = .ok parts := by
  obtain ⟨items, hitems, hdistinct, rfl⟩ := QueryParts.ofQuery_eq_ok.mp h
  refine QueryParts.ofQuery_eq_ok.mpr ⟨items, ?_, hdistinct, rfl⟩
  have hnames : ∀ item ∈ items, ∀ option, item.custom? = some option →
      config.dollarOptional = true → OptionKind.ofName? true ("$" ++ option.1) = none :=
    fun item hitem option hoption hoptional =>
      hcustom hoptional option (List.mem_filterMap.mpr ⟨item, hitem, hoption⟩)
  have hboth := (List.forall₂_and_left items _).mpr ⟨hnames, hitems.flip⟩
  exact (hboth.imp fun item pair hpair => ofPair_anyCase hpair.2 hpair.1).flip

/-! ### Names inside of expansions -/

open Resolution

section Expansions

variable {tolerated : RequestError → Prop} (any : ∀ e, tolerated e)
include any

/-- What is read for an expanded item is read for it if names are taken in any case. -/
theorem expandItems_refines {nested nested' : OptionReader}
    (h : ∀ scope kind text, Refines tolerated (nested scope kind text) (nested' scope kind text))
    (scope : Scope) (text : String) :
    Refines tolerated (expandItems { config with ignoringCase := false } nested scope text)
      (expandItems { config with ignoringCase := true } nested' scope text) := by
  refine .mapM (fun item => .after _ fun ⟨head, options⟩ => .after _ fun ⟨target, type⟩ => ?_) _
  refine Refines.andThen (.foldlM (fun earlier given => ?_) _ _) _
  unfold itemOption
  split
  · exact .refl _
  · rename_i name raw _
    dsimp only
    -- here a name has to be that of a system query option
    cases hkind : optionKind? { config with ignoringCase := false } (String.ofList name) with
    | error e => exact .further (any _) _
    | ok kind? =>
      cases kind? with
      | none => exact .further (any _) _
      | some kind =>
        rw [optionKind?_anyCase hkind]
        show Refines tolerated (if _ then _ else _) (if _ then _ else _)
        split
        · exact .refl _
        · split
          · exact .refl _
          · exact (h _ _ _).andThen _

omit any in
theorem optionValueWith_refines {items items' : Scope → String → Resolution (List ExpandItem)}
    (h : ∀ scope text, Refines tolerated (items scope text) (items' scope text)) (scope : Scope)
    (kind : OptionKind) (text : String) :
    Refines tolerated (optionValueWith { config with ignoringCase := false } items scope kind text)
      (optionValueWith { config with ignoringCase := true } items' scope kind text) := by
  cases kind with
  | expand => exact (h scope text).andThen _
  | filter | orderBy | select | top | skip | count | search | format | id | skipToken | levels =>
    exact .refl _

/-- What an option is read as it is read as if names are taken in any case. -/
theorem optionValue_refines (room : Nat) (scope : Scope) (kind : OptionKind) (text : String) :
    Refines tolerated (optionValue { config with ignoringCase := false } room scope kind text)
      (optionValue { config with ignoringCase := true } room scope kind text) := by
  induction room generalizing scope kind text with
  | zero => exact optionValueWith_refines (fun _ _ => .refl _) scope kind text
  | succ room ih => exact optionValueWith_refines (expandItems_refines any ih) scope kind text

end Expansions

end ODataRequest
