import ODataRequest.Proofs.Query.Parts
import ODataRequest.Proofs.Resolution

/-!
# ODataRequest.Proofs.Request.Reader

What an accepted request is made of: the items of its query, the address that its path leads to, and
a system query option for each of its system items (`Request.gives_read`).
-/

namespace ODataRequest

variable {answers : Answers} {config : Config}

/-! ### Options -/

/-- The value of an option has the kind of the option. -/
theorem kind_of_gives_optionValue {room : Nat} {scope : Scope} {kind : OptionKind} {text : String}
    {value : OptionValue} (h : (optionValue config room scope kind text).Gives answers value) :
    value.kind = kind := by
  cases room <;> cases kind <;>
    simp only [optionValue, optionValueWith, Resolution.gives_bind, Resolution.gives_pure] at h <;>
    obtain ⟨-, -, rfl⟩ := h <;> rfl

/-- An option that is read has the kind and the text that it is given with. -/
theorem gives_systemOption {scope : Scope} {option : OptionKind × String} {o : SystemOption} :
    (systemOption config scope option).Gives answers o ↔ o.kind = option.1 ∧ o.raw = option.2 ∧
      (optionValue config config.maxNesting scope option.1 option.2).Gives answers o.value := by
  unfold systemOption
  simp only [Resolution.gives_bind, Resolution.gives_pure]
  constructor
  · rintro ⟨value, hvalue, rfl⟩
    exact ⟨kind_of_gives_optionValue hvalue, rfl, hvalue⟩
  · rintro ⟨-, hraw, hvalue⟩
    cases o with
    | mk raw value => exact ⟨value, hvalue, by rw [← hraw]; rfl⟩

/-- The options that are read have the kinds of the options that are given. -/
theorem map_kind_of_forall₂ {scope : Scope} {given : List (OptionKind × String)}
    {options : List SystemOption}
    (h : List.Forall₂ (fun option o => (systemOption config scope option).Gives answers o)
      given options) : options.map SystemOption.kind = given.map (·.1) := by
  induction h with
  | nil => rfl
  | cons ho _ ih => rw [List.map_cons, List.map_cons, ih, (gives_systemOption.mp ho).1]

/-! ### Requests -/

/-- What options are read with: the aliases of the request, and the type that its path leads to. -/
def Address.scope (address : Address) (aliases : AliasTable) : Scope :=
  { aliases, joined := address.joined, it := address.target?, bound := [] }

namespace Request

variable {path : String} {query fragment : Option String} {r : Request}

/-- A request is accepted if and only if its query is cut into items, its path leads to an address,
and all its system query options are read. -/
theorem gives_read :
    (read config path query fragment).Gives answers r ↔
      ∃ items segments,
        List.Forall₂ (fun pair item => QueryItem.ofPair config pair = .ok item)
          (QueryParts.pairsOf (query.getD "")) items ∧
        (QueryParts.ofItems items).Distinct ∧
        pathSegments path = .ok segments ∧
        (addressOf r.aliases segments).Gives answers r.address ∧
        List.Forall₂ (fun option o =>
          (systemOption config (r.address.scope r.aliases) option).Gives answers o)
          (QueryParts.ofItems items).system r.options ∧
        requireId r.address r.options = .ok () ∧
        r.fragment = fragment ∧
        r.customOptions = (QueryParts.ofItems items).custom ∧
        r.aliases = ascendingByName (QueryParts.ofItems items).aliases := by
  unfold read
  simp only [Resolution.gives_bind, Resolution.gives_ofGrammar, Resolution.gives_pure,
    Resolution.gives_mapM, QueryParts.ofQuery_eq_ok]
  constructor
  · rintro ⟨_, ⟨items, hitems, hdistinct, rfl⟩, segments, hsegments, address, haddress, options,
      hoptions, _, hid, rfl⟩
    exact ⟨items, segments, hitems, hdistinct, hsegments, haddress, hoptions, hid, rfl, rfl, rfl⟩
  · cases r with
    | mk address fragment' options custom aliases =>
      rintro ⟨items, segments, hitems, hdistinct, hsegments, haddress, hoptions, hid, rfl, rfl, rfl⟩
      exact ⟨_, ⟨items, hitems, hdistinct, rfl⟩, segments, hsegments, address, haddress, options,
        hoptions, (), hid, rfl⟩

/-- No option is given twice, and no levels are given. -/
theorem kinds_of_gives_read (h : (read config path query fragment).Gives answers r) :
    (r.options.map SystemOption.kind).Nodup ∧ .levels ∉ r.options.map SystemOption.kind := by
  obtain ⟨items, _, hitems, hdistinct, -, -, hoptions, -⟩ := gives_read.mp h
  rw [map_kind_of_forall₂ hoptions]
  refine ⟨hdistinct.system, fun hmem => ?_⟩
  obtain ⟨option, hoption, hlevels⟩ := List.mem_map.mp hmem
  obtain ⟨item, hitem, hsystem⟩ := List.mem_filterMap.mp hoption
  obtain ⟨pair, -, hpair⟩ := exists_left_of_forall₂ hitems hitem
  exact QueryItem.kind_ne_levels hpair hsystem hlevels

end Request

end ODataRequest
