import Mathlib.Data.List.Perm.Basic
import ODataRequest.Proofs.CallHistory
import ODataRequest.Proofs.Directory.Answers
import ODataRequest.Proofs.Path.Resolved
import ODataRequest.Proofs.Request.Reader

/-!
# ODataRequest.Proofs.Request.OptionOrder

The order of the options in a query does not matter (`Request.read_reordered`). What each pair of
the query is depends on this pair alone, aliases are put in order before anything is read with them,
and each system query option is read by itself; so the pairs in another order are accepted too and
give the same request, up to the order of the options.
-/

namespace ODataRequest

variable {answers : Answers} {config : Config}

/-! ### Aliases -/

theorem ascendingByName_pairwise (aliases : List (String × String)) :
    (ascendingByName aliases).Pairwise fun a b => a.1 ≤ b.1 := by
  have htrans (a b c : String × String) (hab : decide (a.1 ≤ b.1) = true)
      (hbc : decide (b.1 ≤ c.1) = true) : decide (a.1 ≤ c.1) = true :=
    decide_eq_true (String.le_trans (of_decide_eq_true hab) (of_decide_eq_true hbc))
  have htotal (a b : String × String) : (decide (a.1 ≤ b.1) || decide (b.1 ≤ a.1)) = true := by
    simpa using String.le_total a.1 b.1
  exact (List.pairwise_mergeSort htrans htotal aliases).imp of_decide_eq_true

/-- Aliases of distinct names are put in the same order. -/
theorem ascendingByName_perm {aliases aliases' : List (String × String)}
    (hperm : aliases.Perm aliases') (hdistinct : (aliases.map (·.1)).Nodup) :
    ascendingByName aliases' = ascendingByName aliases := by
  have hsame : (ascendingByName aliases').Perm (ascendingByName aliases) :=
    (List.mergeSort_perm _ _).trans (hperm.symm.trans (List.mergeSort_perm _ _).symm)
  refine List.Perm.eq_of_pairwise ?_ (ascendingByName_pairwise _) (ascendingByName_pairwise _) hsame
  intro a b ha hb hab hba
  -- neither name is the smaller one, and no other alias has the name
  have ha : a ∈ aliases := hperm.mem_iff.mpr (List.mem_mergeSort.mp ha)
  have hb : b ∈ aliases := List.mem_mergeSort.mp hb
  exact List.inj_on_of_nodup_map hdistinct ha hb (String.le_antisymm hab hba)

/-! ### Pairs -/

/-- The option of some other kind that a pair is. -/
def customOption? (config : Config) (pair : List Char) : Option (String × String) :=
  (QueryItem.ofPair config pair).toOption.bind QueryItem.custom?

/-- The options of some other kind are those of the pairs, in their order. -/
theorem custom_of_forall₂ {pairs : List (List Char)} {items : List QueryItem}
    (h : List.Forall₂ (fun pair item => QueryItem.ofPair config pair = .ok item) pairs items) :
    (QueryParts.ofItems items).custom = pairs.filterMap (customOption? config) := by
  induction h with
  | nil => rfl
  | @cons pair item pairs items hpair _ ih =>
    have hitem : customOption? config pair = item.custom? := by
      simp [customOption?, hpair, Except.toOption]
    have ih : items.filterMap QueryItem.custom? = pairs.filterMap (customOption? config) := ih
    show (item :: items).filterMap QueryItem.custom? = _
    rw [List.filterMap_cons, List.filterMap_cons, hitem, ih]

/-- Items in another order are distinct too. -/
theorem QueryParts.Distinct.perm {items items' : List QueryItem}
    (h : (QueryParts.ofItems items).Distinct) (hperm : items.Perm items') :
    (QueryParts.ofItems items').Distinct := by
  have haliases := (hperm.filterMap QueryItem.alias?).map (·.1)
  have hsystem := (hperm.filterMap QueryItem.system?).map (·.1)
  exact ⟨haliases.nodup_iff.mp h.aliases, hsystem.nodup_iff.mp h.system⟩

/-! ### Requests -/

theorem requireId_congr {address : Address} {options options' : List SystemOption}
    (h : SystemOption.find? options' .id = SystemOption.find? options .id) :
    requireId address options' = requireId address options := by
  unfold requireId
  cases address <;> simp only [h]

namespace Request

/-- The requests are the same, up to the order in which their options are given. -/
structure Reordered (config : Config) (pairs pairs' : List (List Char)) (r r' : Request) : Prop where
  address : r'.address = r.address
  fragment : r'.fragment = r.fragment
  aliases : r'.aliases = r.aliases
  option : ∀ kind, SystemOption.find? r'.options kind = SystemOption.find? r.options kind
  custom : r.customOptions = pairs.filterMap (customOption? config)
  custom' : r'.customOptions = pairs'.filterMap (customOption? config)

variable {path : String} {query query' fragment : Option String} {r : Request}

/-- With the same answers about the model, the pairs of a query are accepted in any order. -/
theorem gives_read_of_perm
    (hperm : (QueryParts.pairsOf (query'.getD "")).Perm (QueryParts.pairsOf (query.getD "")))
    (h : (read config path query fragment).Gives answers r) :
    ∃ r', (read config path query' fragment).Gives answers r' ∧
      r.Reordered config (QueryParts.pairsOf (query.getD "")) (QueryParts.pairsOf (query'.getD ""))
        r' := by
  obtain ⟨items, segments, hitems, hdistinct, hsegments, haddress, hoptions, hid, hfragment,
    hcustom, haliases⟩ := gives_read.mp h
  obtain ⟨items', hitems', hitemsPerm⟩ := List.perm_comp_forall₂ hperm hitems
  obtain ⟨options', hoptions', hoptionsPerm⟩ :=
    List.perm_comp_forall₂ (hitemsPerm.filterMap QueryItem.system?) hoptions
  have hfind (kind : OptionKind) :
      SystemOption.find? options' kind = SystemOption.find? r.options kind :=
    find?_key_perm hoptionsPerm.symm (kinds_of_gives_read h).1 kind
  refine ⟨⟨r.address, fragment, options', (QueryParts.ofItems items').custom, r.aliases⟩,
    gives_read.mpr ⟨items', segments, hitems', hdistinct.perm hitemsPerm.symm, hsegments, haddress,
      hoptions', ?_, rfl, rfl, ?_⟩, ?_⟩
  · rw [requireId_congr (hfind .id), hid]
  · rw [haliases]
    exact (ascendingByName_perm (hitemsPerm.filterMap QueryItem.alias?).symm hdistinct.aliases).symm
  · exact ⟨rfl, hfragment.symm, rfl, hfind, hcustom.trans (custom_of_forall₂ hitems),
      custom_of_forall₂ hitems'⟩

/-- The order of the options does not matter: a query whose pairs are the same in another order is
accepted if and only if this one is, and the requests are the same up to the order of the options.
This holds whatever calls the directories have had before. -/
theorem read_reordered {s : Source} (names : s.WellNamed) (config : Config) (path : String)
    (query query' : Option String)
    (hperm : (QueryParts.pairsOf (query.getD "")).Perm (QueryParts.pairsOf (query'.getD "")))
    (fragment : Option String) (calls calls' : List DirectoryCall) :
    let answer := ((read config path query fragment).runOn
      (DirectoryCall.after calls (.ofSource s))).1
    let answer' := ((read config path query' fragment).runOn
      (DirectoryCall.after calls' (.ofSource s))).1
    ((∃ r, answer = .ok r) ↔ ∃ r', answer' = .ok r') ∧
      ∀ r r', answer = .ok r → answer' = .ok r' →
        r.Reordered config (QueryParts.pairsOf (query.getD ""))
          (QueryParts.pairsOf (query'.getD "")) r' := by
  have hd := DirectoryCall.after_consistent names calls (.ofSource s)
  have hd' := DirectoryCall.after_consistent names calls' (.ofSource s)
  intro answer answer'
  refine ⟨⟨?_, ?_⟩, ?_⟩
  · rintro ⟨r, hr⟩
    obtain ⟨r', hr', -⟩ :=
      gives_read_of_perm hperm.symm (Resolution.gives_answers_of_runOn names hd hr)
    exact ⟨r', Resolution.runOn_of_gives_answers names hr' hd'⟩
  · rintro ⟨r', hr'⟩
    obtain ⟨r, hr, -⟩ := gives_read_of_perm hperm (Resolution.gives_answers_of_runOn names hd' hr')
    exact ⟨r, Resolution.runOn_of_gives_answers names hr hd⟩
  · intro r r' hr hr'
    obtain ⟨r'', hr'', hreordered⟩ :=
      gives_read_of_perm hperm.symm (Resolution.gives_answers_of_runOn names hd hr)
    have heq := Resolution.runOn_of_gives_answers names hr'' hd'
    rw [show answer' = .ok r'' from heq] at hr'
    cases hr'
    exact hreordered

/-- A query that declares its alias behind the condition with it. -/
def aliasLast : String :=
  "$filter=Title eq @t&$top=2&note=x&@t='A'&note=y"

/-- The same pairs in another order. -/
def aliasFirst : String :=
  "note=y&@t='A'&$top=2&&note=x&$filter=Title eq @t"

/-- The albums of a title are asked for in both orders. -/
theorem read_reordered_albums :
    music.WellNamed ∧ (QueryParts.pairsOf aliasLast).Perm (QueryParts.pairsOf aliasFirst) ∧
      ∃ r r', ((read .standard "Albums" (some aliasLast) none).runOn (.ofSource music)).1 = .ok r ∧
        ((read .standard "Albums" (some aliasFirst) none).runOn (.ofSource music)).1 = .ok r' ∧
        r.Reordered .standard (QueryParts.pairsOf aliasLast) (QueryParts.pairsOf aliasFirst) r' := by
  have names : music.WellNamed := ⟨by decide, by decide⟩
  have hperm : (QueryParts.pairsOf aliasLast).Perm (QueryParts.pairsOf aliasFirst) := by
    decide +kernel
  have haccepted : acceptedSegments ((read .standard "Albums" (some aliasLast) none).runOn
      (.ofSource music)).1 = ["Albums"] := by
    decide +kernel
  obtain ⟨hiff, hreordered⟩ := read_reordered names .standard "Albums" (some aliasLast)
    (some aliasFirst) hperm none [] []
  cases hread : ((read .standard "Albums" (some aliasLast) none).runOn (.ofSource music)).1 with
  | error e =>
    rw [hread] at haccepted
    cases haccepted
  | ok r =>
    obtain ⟨r', hread'⟩ := hiff.mp ⟨r, hread⟩
    exact ⟨names, hperm, r, r', rfl, hread', hreordered r r' hread hread'⟩

end Request

end ODataRequest
