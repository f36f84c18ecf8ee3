import ODataRequest.Proofs.Except
import ODataRequest.Proofs.Lookup
import ODataRequest.Request.Reader

/-!
# ODataRequest.Proofs.Query.Parts

What a query is cut into. Each of its pairs is one item by itself (`QueryItem.ofPair`): a parameter
alias, a system query option, or an option of some other kind. A query is accepted if and only if
all its pairs are items, and no alias and no system query option is given twice
(`QueryParts.ofQuery_eq_ok`); nothing else depends on the other pairs.
-/

namespace ODataRequest

/-! ### Items -/

/-- What a pair of a query is. The text of a system query option is not read yet. -/
inductive QueryItem where
  | parameterAlias (name text : String)
  | system (kind : OptionKind) (text : String)
  | custom (name text : String)

namespace QueryItem

/-- The item of a name with its text. -/
def ofName (config : Config) (name text : String) : Except GrammarError QueryItem := do
  if name.toList.head? = some '@' then return .parameterAlias name text
  match ← optionKind? config name with
  | none => return .custom name text
  | some .levels => throw (.levelsNotAllowed name)
  | some kind => return .system kind text

/-- The item of a pair in the form in which it stands in the query. -/
def ofPair (config : Config) (pair : List Char) : Except GrammarError QueryItem := do
  let (name, text) := (Text.cutAt? '=' pair).getD (pair, [])
  let name ← decoded (String.ofList name)
  let text ← decoded (String.ofList text)
  ofName config name text

/-- The alias that an item is. -/
def alias? : QueryItem → Option (String × String)
  | .parameterAlias name text => some (name, text)
  | _ => none

/-- The system query option that an item is. -/
def system? : QueryItem → Option (OptionKind × String)
  | .system kind text => some (kind, text)
  | _ => none

/-- The option of some other kind that an item is. -/
def custom? : QueryItem → Option (String × String)
  | .custom name text => some (name, text)
  | _ => none

/-- Levels are asked for inside an expansion only. -/
theorem kind_ne_levels {config : Config} {pair : List Char} {item : QueryItem}
    {option : OptionKind × String} (h : ofPair config pair = .ok item)
    (hoption : item.system? = some option) : option.1 ≠ .levels := by
  unfold ofPair at h
  obtain ⟨name, -, h⟩ := except_bind_eq_ok.mp h
  obtain ⟨text, -, h⟩ := except_bind_eq_ok.mp h
  unfold ofName at h
  split at h
  · cases h
    cases hoption
  · obtain ⟨kind?, -, h⟩ := except_bind_eq_ok.mp h
    split at h
    · cases h
      cases hoption
    · cases h
    · rename_i kind hlevels
      cases h
      cases hoption
      intro hkind
      exact hlevels (by rw [← hkind])

end QueryItem

/-! ### Parts -/

namespace QueryParts

/-- The parts that some items make, in their order. -/
def ofItems (items : List QueryItem) : QueryParts :=
  { system := items.filterMap QueryItem.system?
    aliases := items.filterMap QueryItem.alias?
    custom := items.filterMap QueryItem.custom? }

/-- One more item at the end of the query. -/
def push (q : QueryParts) : QueryItem → QueryParts
  | .parameterAlias name text => { q with aliases := q.aliases ++ [(name, text)] }
  | .system kind text => { q with system := q.system ++ [(kind, text)] }
  | .custom name text => { q with custom := q.custom ++ [(name, text)] }

/-- The item is no alias and no system query option that is given already. -/
def Fresh (q : QueryParts) : QueryItem → Prop
  | .parameterAlias name _ => name ∉ q.aliases.map (·.1)
  | .system kind _ => kind ∉ q.system.map (·.1)
  | .custom _ _ => True

/-- No alias and no system query option is given twice. -/
structure Distinct (q : QueryParts) : Prop where
  aliases : (q.aliases.map (·.1)).Nodup
  system : (q.system.map (·.1)).Nodup

variable {config : Config} {items items' : List QueryItem} {item : QueryItem} {q : QueryParts}

theorem ofItems_concat : ofItems (items ++ [item]) = (ofItems items).push item := by
  cases item <;>
    simp [ofItems, push, List.filterMap_cons, QueryItem.system?, QueryItem.alias?,
      QueryItem.custom?]

theorem nodup_map_concat {κ β : Type} {pairs : List (κ × β)} {pair : κ × β} :
    ((pairs ++ [pair]).map (·.1)).Nodup ↔
      (pairs.map (·.1)).Nodup ∧ pair.1 ∉ pairs.map (·.1) := by
  rw [List.map_append, List.map_singleton, (List.perm_append_singleton _ _).nodup_iff,
    List.nodup_cons]
  exact and_comm

theorem Distinct.of_append (h : (ofItems (items ++ items')).Distinct) :
    (ofItems items).Distinct := by
  obtain ⟨haliases, hsystem⟩ := h
  simp only [ofItems, List.filterMap_append, List.map_append, List.nodup_append] at haliases hsystem
  exact ⟨haliases.1, hsystem.1⟩

/-- One more item keeps aliases and options apart if and only if it is fresh. -/
theorem distinct_push : (q.push item).Distinct ↔ q.Distinct ∧ q.Fresh item := by
  cases item with
  | parameterAlias name text =>
    constructor
    · intro h
      obtain ⟨haliases, hfresh⟩ := nodup_map_concat.mp h.aliases
      exact ⟨⟨haliases, h.system⟩, hfresh⟩
    · intro h
      exact ⟨nodup_map_concat.mpr ⟨h.1.aliases, h.2⟩, h.1.system⟩
  | system kind text =>
    constructor
    · intro h
      obtain ⟨hsystem, hfresh⟩ := nodup_map_concat.mp h.system
      exact ⟨⟨h.aliases, hsystem⟩, hfresh⟩
    · intro h
      exact ⟨h.1.aliases, nodup_map_concat.mpr ⟨h.1.system, h.2⟩⟩
  | custom name text =>
    constructor
    · intro h
      exact ⟨⟨h.aliases, h.system⟩, trivial⟩
    · intro h
      exact ⟨h.1.aliases, h.1.system⟩

/-! ### Reading a query -/

/-- The error for an item that is given twice. -/
def repeated : QueryItem → GrammarError
  | .parameterAlias name _ | .custom name _ => .repeatedAlias name
  | .system kind _ => .repeatedOption kind.name

/-- Is the item given already? -/
def holds (q : QueryParts) : QueryItem → Bool
  | .parameterAlias name _ => (q.aliases.lookup name).isSome
  | .system kind _ => (q.system.lookup kind).isSome
  | .custom _ _ => false

/-- Take one more item, unless it is given already. -/
def take (q : QueryParts) (item : QueryItem) : Except GrammarError QueryParts :=
  if q.holds item then .error (repeated item) else .ok (q.push item)

theorem holds_eq_false : q.holds item = false ↔ q.Fresh item := by
  rw [← Bool.not_eq_true]
  cases item with
  | parameterAlias name text => exact not_congr isSome_lookup
  | system kind text => exact not_congr isSome_lookup
  | custom name text => simp [holds, Fresh]

theorem take_eq_ok {q' : QueryParts} : q.take item = .ok q' ↔ q.Fresh item ∧ q' = q.push item := by
  rw [← holds_eq_false]
  unfold take
  cases q.holds item <;> simp [eq_comm]

/-- What a pair is does not depend on what the query has in front of it. -/
theorem addPair_eq (pair : List Char) :
    q.addPair config pair = QueryItem.ofPair config pair >>= q.take := by
  unfold addPair QueryItem.ofPair
  simp only [bind_assoc]
  congr 1
  funext name
  congr 1
  funext text
  unfold add QueryItem.ofName
  split
  · rfl
  · simp only [bind_assoc]
    congr 1
    funext kind?
    -- every kind but the levels is taken in the same way
    have hsystem (kind : OptionKind) :
        (if (q.system.lookup kind).isSome then .error (.repeatedOption kind.name)
          else .ok { q with system := q.system ++ [(kind, text)] }) =
            q.take (.system kind text) := rfl
    cases kind? with
    | none => rfl
    | some kind =>
      cases kind with
      | levels => rfl
      | _ => exact hsystem _

/-- Further pairs are taken if and only if each of them is an item and all items are distinct. -/
theorem foldlM_addPair_eq_ok {pairs : List (List Char)} (hd : (ofItems items).Distinct) :
    pairs.foldlM (addPair config) (ofItems items) = .ok q ↔
      ∃ more, List.Forall₂ (fun pair item => QueryItem.ofPair config pair = .ok item) pairs more ∧
        (ofItems (items ++ more)).Distinct ∧ q = ofItems (items ++ more) := by
  -- by induction on the pairs; the items that are taken already grow by one each time
  induction pairs generalizing items with
  | nil =>
    constructor
    · intro h
      cases h
      exact ⟨[], .nil, by rwa [List.append_nil], by rw [List.append_nil]⟩
    · rintro ⟨more, hmore, -, rfl⟩
      cases hmore
      rw [List.append_nil]
      rfl
  | cons pair pairs ih =>
    rw [List.foldlM_cons, except_bind_eq_ok, addPair_eq]
    simp only [except_bind_eq_ok, take_eq_ok]
    constructor
    · rintro ⟨_, ⟨item, hitem, hfresh, rfl⟩, h⟩
      rw [← ofItems_concat] at h
      have hd' : (ofItems (items ++ [item])).Distinct := by
        rw [ofItems_concat, distinct_push]
        exact ⟨hd, hfresh⟩
      obtain ⟨more, hmore, hmoreDistinct, hq⟩ := (ih hd').mp h
      rw [← List.append_cons] at hmoreDistinct hq
      exact ⟨item :: more, .cons hitem hmore, hmoreDistinct, hq⟩
    · rintro ⟨_, hmore, hdistinct, hq⟩
      cases hmore with
      | @cons _ item _ more hitem hmore =>
        rw [List.append_cons] at hdistinct hq
        have hd' := hdistinct.of_append
        refine ⟨_, ⟨item, hitem, ?_, rfl⟩, ?_⟩
        · rw [ofItems_concat, distinct_push] at hd'
          exact hd'.2
        · rw [← ofItems_concat]
          exact (ih hd').mpr ⟨more, hmore, hdistinct, hq⟩

/-- The pairs of a query; empty ones are passed over. -/
def pairsOf (query : String) : List (List Char) :=
  (Text.pieces '&' query.toList).filter (· ≠ [])

/-- A query is accepted if and only if each of its pairs is an item and all items are distinct. -/
theorem ofQuery_eq_ok {query : String} :
    ofQuery config query = .ok q ↔
      ∃ items, List.Forall₂ (fun pair item => QueryItem.ofPair config pair = .ok item)
        (pairsOf query) items ∧ (ofItems items).Distinct ∧ q = ofItems items := by
  have hempty : (ofItems []).Distinct := ⟨List.nodup_nil, List.nodup_nil⟩
  exact foldlM_addPair_eq_ok hempty

end QueryParts

end ODataRequest
