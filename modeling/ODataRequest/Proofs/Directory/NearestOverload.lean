import ODataRequest.Proofs.CallHistory
import ODataRequest.Proofs.Directory.Lineage

/-!
# ODataRequest.Proofs.Directory.NearestOverload

Which overload of a bound operation is found. The search goes up the base types of a binding in a
loop that knows no bound (`SearchEnds`); it ends, since each round goes one step up the lineage of
the binding type (`nearestOverload_searchEnds`). What it finds is the overload of the nearest type of
the lineage that has one of the wanted key (`Nearest`), whatever has been asked before
(`boundOperations_nearest`).
-/

namespace ODataRequest

open InDirectory

variable {s : Source} {α : Type}

/-! ### The search -/

/-- The loop that looks a key up and, as long as nothing is found, goes on with the base type of the
type that the key is bound to, ends: with a result, and with the directory that all look-ups leave. -/
inductive SearchEnds (find : OverloadKey → InDirectory (Option α)) :
    OverloadKey → Directory → Except DirectoryError (Option α) → Directory → Prop
  | found {key : OverloadKey} {d d' : Directory} {o : α}
      (here : (find key).runOn d = (.ok (some o), d')) : SearchEnds find key d (.ok (some o)) d'
  | failed {key : OverloadKey} {d d' : Directory} {e : DirectoryError}
      (here : (find key).runOn d = (.error e, d')) : SearchEnds find key d (.error e) d'
  | unbound {key : OverloadKey} {d d' : Directory}
      (absent : (find key).runOn d = (.ok none, d')) (noBinding : key.binding = none) :
      SearchEnds find key d (.ok none) d'
  | baseFailed {key : OverloadKey} {d d' d'' : Directory} {b : Binding} {e : DirectoryError}
      (absent : (find key).runOn d = (.ok none, d')) (binding : key.binding = some b)
      (base : (baseTypeName b.type).runOn d' = (.error e, d'')) :
      SearchEnds find key d (.error e) d''
  | root {key : OverloadKey} {d d' d'' : Directory} {b : Binding}
      (absent : (find key).runOn d = (.ok none, d')) (binding : key.binding = some b)
      (noBase : (baseTypeName b.type).runOn d' = (.ok none, d'')) :
      SearchEnds find key d (.ok none) d''
  | up {key : OverloadKey} {d d' d'' last : Directory} {b : Binding} {base : QualifiedName}
      {answer : Except DirectoryError (Option α)}
      (absent : (find key).runOn d = (.ok none, d')) (binding : key.binding = some b)
      (hasBase : (baseTypeName b.type).runOn d' = (.ok (some base), d''))
      (above : SearchEnds find (key.rebind base) d'' answer last) :
      SearchEnds find key d answer last

/-- There is room for the types that a key can be bound to: all those of the lineage of its binding,
or one if that type is defective. -/
def Source.HasRoom (s : Source) (bound : Nat) (key : OverloadKey) : Prop :=
  ∀ b, key.binding = some b → s.actualName b.type = b.type ∧
    ((∃ lineage, Lineage s b.type lineage ∧ lineage.length ≤ bound) ∨
      0 < bound ∧ ∃ e, (baseTypeName b.type).result s = .error e)

namespace OverloadKey

@[simp] theorem rebind_name (key : OverloadKey) (type : QualifiedName) :
    (key.rebind type).name = key.name := rfl

@[simp] theorem rebind_rebind (key : OverloadKey) (type base : QualifiedName) :
    (key.rebind type).rebind base = key.rebind base := by
  cases key with
  | mk name binding parameters => cases binding <;> rfl

theorem rebind_binding {key : OverloadKey} {b : Binding} (h : key.binding = some b)
    (type : QualifiedName) : (key.rebind type).binding = some { b with type } := by
  simp [rebind, h]

/-- A key is not changed by the type that it is bound to already. -/
theorem rebind_self {key : OverloadKey} {b : Binding} (h : key.binding = some b) :
    key.rebind b.type = key := by
  cases key with
  | mk name binding parameters =>
    cases h
    rfl

end OverloadKey

section Search

variable (names : s.WellNamed) (apart : s.TypesApart)
include names

omit names in
/-- The bound on chains of base types is room enough. -/
theorem Source.hasRoom_chainBound {key : OverloadKey}
    (real : ∀ b, key.binding = some b → s.actualName b.type = b.type) :
    s.HasRoom s.chainBound key := by
  intro b hb
  refine ⟨real b hb, ?_⟩
  rcases lineage_or_error b.type with ⟨lineage, h⟩ | herror
  · exact Or.inl ⟨lineage, h, h.length_le⟩
  · exact Or.inr ⟨Nat.lt_of_le_of_lt (Nat.zero_le _) s.length_lt_chainBound.1, herror⟩

include apart

/-- One step up the base types needs room for one type less. -/
theorem Source.HasRoom.up {bound : Nat} {key : OverloadKey} {b : Binding} {base : QualifiedName}
    (room : s.HasRoom (bound + 1) key) (binding : key.binding = some b)
    (hasBase : (baseTypeName b.type).result s = .ok (some base)) :
    s.HasRoom bound (key.rebind base) := by
  intro b' hb'
  rw [OverloadKey.rebind_binding binding] at hb'
  cases hb'
  obtain ⟨real, ⟨lineage, h, hlength⟩ | ⟨-, e, herror⟩⟩ := room b binding
  · obtain ⟨above, rfl, hbase, habove⟩ := h.step names apart
    rw [real, hasBase, Except.ok.injEq] at hbase
    obtain ⟨rest, rfl⟩ := List.head?_eq_some_iff.mp hbase.symm
    obtain ⟨hreal, hlineage⟩ := habove base rest rfl
    exact ⟨hreal, Or.inl ⟨_, hlineage, Nat.le_of_succ_le_succ hlength⟩⟩
  · rw [hasBase] at herror
    cases herror

/-- Without room, a key is not bound. -/
theorem Source.HasRoom.unbound {key : OverloadKey} (room : s.HasRoom 0 key) : key.binding = none := by
  cases hbinding : key.binding with
  | none => rfl
  | some b =>
    obtain ⟨-, ⟨lineage, h, hlength⟩ | ⟨hpos, -⟩⟩ := room b hbinding
    · obtain ⟨above, rfl, -⟩ := h.step names apart
      cases hlength
    · cases hpos

/-- The search ends with what it finds within its bound. -/
theorem nearestOverload_searchEnds {find : OverloadKey → InDirectory (Option α)}
    (hfind : ∀ key, Settled s (find key)) {bound : Nat} {key : OverloadKey}
    (room : s.HasRoom bound key) {d : Directory} (hd : d.Consistent s) :
    SearchEnds find key d ((nearestOverload find bound key).runOn d).1
      ((nearestOverload find bound key).runOn d).2 := by
  induction bound generalizing key d with
  | zero =>
    unfold nearestOverload
    rw [runOn_bind]
    rcases hrun : (find key).runOn d with ⟨r, d'⟩
    cases r with
    | error e => exact .failed hrun
    | ok here =>
      cases here with
      | some o => exact .found hrun
      | none => exact .unbound hrun (room.unbound names apart)
  | succ bound ih =>
    unfold nearestOverload
    rw [runOn_bind]
    have hafter := (hfind key d hd).2
    rcases hrun : (find key).runOn d with ⟨r, d'⟩
    rw [hrun] at hafter
    cases r with
    | error e => exact .failed hrun
    | ok here =>
      cases here with
      | some o => exact .found hrun
      | none =>
        cases hbinding : key.binding with
        | none => exact .unbound hrun hbinding
        | some b =>
          dsimp only
          rw [runOn_bind]
          obtain ⟨hresult, hafter⟩ := baseTypeName_settled b.type d' hafter
          rcases hbase : (baseTypeName b.type).runOn d' with ⟨r, d''⟩
          rw [hbase] at hresult hafter
          cases r with
          | error e => exact .baseFailed hrun hbinding hbase
          | ok base =>
            cases base with
            | none => exact .root hrun hbinding hbase
            | some base =>
              exact .up hrun hbinding hbase
                (ih (room.up names apart hbinding hresult.symm) hafter)

omit names apart in
/-- One round of the search. -/
theorem nearestOverload_succ_result {find : OverloadKey → InDirectory (Option α)}
    (hfind : ∀ key, Settled s (find key)) (bound : Nat) {key : OverloadKey} {b : Binding}
    (binding : key.binding = some b) :
    (nearestOverload find (bound + 1) key).result s = (do
      match ← (find key).result s with
      | some o => .ok (some o)
      | none =>
        match ← (baseTypeName b.type).result s with
        | some base => (nearestOverload find bound (key.rebind base)).result s
        | none => .ok none) := by
  conv_lhs => unfold nearestOverload
  refine Settles.result_eq (Settles.bind (hfind key) fun found _ => ?_)
  cases found with
  | some o => exact .pure _
  | none =>
    simp only [binding]
    refine Settles.bind (baseTypeName_settled b.type) fun base _ => ?_
    cases base with
    | some base => exact nearestOverload_settled hfind bound _
    | none => exact .pure none

/-- The overload that is found is the one of the first type of the lineage that has one. -/
theorem nearestOverload_result {family : OperationFamily α} (lawful : family.Lawful s) {bound : Nat}
    {key : OverloadKey} {overloads : List α} (group : (family.load key.name).result s = .ok overloads)
    {b : Binding} (binding : key.binding = some b) (real : s.actualName b.type = b.type)
    {lineage : List QualifiedName} (h : Lineage s b.type lineage) (enough : lineage.length ≤ bound) :
    (nearestOverload family.ofKey bound key).result s =
      .ok (lineage.findSome? fun type => overloads.find? (family.keyOf · == key.rebind type)) := by
  induction bound generalizing key b lineage with
  | zero =>
    obtain ⟨above, rfl, -⟩ := h.step names apart
    cases enough
  | succ bound ih =>
    obtain ⟨above, rfl, hbase, habove⟩ := h.step names apart
    have hhere : (family.ofKey key).result s =
        .ok (overloads.find? (family.keyOf · == key.rebind b.type)) := by
      rw [(OperationFamily.ofKey_settles lawful key).result_eq, group, OverloadKey.rebind_self binding]
      rfl
    rw [real] at hbase ⊢
    rw [nearestOverload_succ_result (OperationFamily.ofKey_settled lawful) bound binding, hhere,
      except_ok_bind, List.findSome?_cons]
    cases overloads.find? (family.keyOf · == key.rebind b.type) with
    | some o => rfl
    | none =>
      rw [hbase]
      cases above with
      | nil => rfl
      | cons base rest =>
        obtain ⟨hreal, hlineage⟩ := habove base rest rfl
        have group' : (family.load (key.rebind base).name).result s = .ok overloads := group
        have hrest := ih group' (OverloadKey.rebind_binding binding base) hreal hlineage
          (Nat.le_of_succ_le_succ enough)
        simp only [OverloadKey.rebind_rebind] at hrest
        exact hrest

end Search

/-! ### The nearest overload -/

/-- What has been found among overloads is the one that fits the nearest type of a lineage. -/
structure Nearest (overloads : List α) (Fits : QualifiedName → α → Prop)
    (lineage : List QualifiedName) (found : Option α) : Prop where
  /-- Something is found if an overload fits any type of the lineage. -/
  isSome_iff : found.isSome = true ↔ ∃ type ∈ lineage, ∃ o ∈ overloads, Fits type o
  /-- What is found fits a type, and no overload fits a nearer one. -/
  eq_some_iff : ∀ o, found = some o ↔ o ∈ overloads ∧ ∃ nearer type farther,
    lineage = nearer ++ type :: farther ∧ Fits type o ∧ ∀ t ∈ nearer, ∀ p ∈ overloads, ¬Fits t p
  /-- No two overloads fit the same type. -/
  unique : ∀ type, ∀ o ∈ overloads, ∀ p ∈ overloads, Fits type o → Fits type p → o = p

/-- Overloads with distinct keys are found by the keys that tell which of them fit a type. -/
theorem nearest_findSome? {overloads : List α} {keyOf : α → OverloadKey}
    {Fits : QualifiedName → α → Prop} {keyFor : QualifiedName → OverloadKey}
    (distinct : (overloads.map keyOf).Nodup)
    (fits : ∀ type, ∀ o ∈ overloads, keyOf o = keyFor type ↔ Fits type o)
    (lineage : List QualifiedName) :
    Nearest overloads Fits lineage
      (lineage.findSome? fun type => overloads.find? (keyOf · == keyFor type)) := by
  have hsome (type : QualifiedName) (o : α) :
      overloads.find? (keyOf · == keyFor type) = some o ↔ o ∈ overloads ∧ Fits type o := by
    rw [find?_key_eq_some distinct]
    exact and_congr_right fun ho => fits type o ho
  have hnone (type : QualifiedName) :
      overloads.find? (keyOf · == keyFor type) = none ↔ ∀ o ∈ overloads, ¬Fits type o := by
    rw [List.find?_eq_none]
    exact forall₂_congr fun o ho => by rw [beq_iff_eq, fits type o ho]
  refine ⟨?_, fun o => ?_, ?_⟩
  · rw [List.findSome?_isSome_iff]
    simp only [Option.isSome_iff_exists, hsome]
  · simp only [List.findSome?_eq_some_iff, hsome, hnone]
    constructor
    · rintro ⟨nearer, type, farther, hlineage, ⟨ho, hfits⟩, hnearer⟩
      exact ⟨ho, nearer, type, farther, hlineage, hfits, hnearer⟩
    · rintro ⟨ho, nearer, type, farther, hlineage, hfits, hnearer⟩
      exact ⟨nearer, type, farther, hlineage, ⟨ho, hfits⟩, hnearer⟩
  · intro type o ho p hp hfits hfits'
    have hfound := ((hsome type o).mpr ⟨ho, hfits⟩).symm.trans ((hsome type p).mpr ⟨hp, hfits'⟩)
    exact Option.some.inj hfound

/-! ### Keys of overloads -/

theorem ascending_pairwise (texts : List String) : (ascending texts).Pairwise (· ≤ ·) := by
  have htrans : ∀ a b c : String, decide (a ≤ b) = true → decide (b ≤ c) = true →
      decide (a ≤ c) = true := by
    intro a b c hab hbc
    exact decide_eq_true (String.le_trans (of_decide_eq_true hab) (of_decide_eq_true hbc))
  have htotal : ∀ a b : String, (decide (a ≤ b) || decide (b ≤ a)) = true := by
    intro a b
    rcases String.le_total a b with h | h <;> simp [h]
  exact (List.pairwise_mergeSort htrans htotal texts).imp of_decide_eq_true

/-- Two lists of texts have the same ascending order if they have the same texts. -/
theorem ascending_eq_iff {texts texts' : List String} :
    ascending texts = ascending texts' ↔ texts.Perm texts' := by
  have hperm (texts : List String) : (ascending texts).Perm texts := List.mergeSort_perm _ _
  constructor
  · intro h
    refine (hperm texts).symm.trans ?_
    rw [h]
    exact hperm texts'
  · intro h
    refine List.Perm.eq_of_pairwise (fun a b _ _ hab hba => String.le_antisymm hab hba)
      (ascending_pairwise _) (ascending_pairwise _) ?_
    exact ((hperm texts).trans h).trans (hperm texts').symm

/-- The operation is bound to the type, or to collections of it. -/
def Operation.BoundTo (o : Operation) (type : QualifiedName) (isCollection : Bool) : Prop :=
  o.isBound = true ∧ ∃ p rest, o.allParameters = p :: rest ∧ p.type = ⟨type, isCollection⟩

theorem Operation.binding?_eq_some {o : Operation} {type : QualifiedName} {isCollection : Bool} :
    o.binding? = some ⟨type, isCollection⟩ ↔ o.BoundTo type isCollection := by
  unfold binding? bindingParameter? BoundTo
  by_cases hbound : o.isBound = true
  · cases hparameters : o.allParameters with
    | nil => simp [hbound]
    | cons p rest =>
      obtain ⟨name, ⟨typeName, isCollection'⟩, nullable⟩ := p
      simp [hbound]
  · simp [hbound]

/-- The function is bound to the type and has exactly these other parameters, in any order. -/
def Function.Fits (isCollection : Bool) (parameters : List String) (type : QualifiedName)
    (f : Function) : Prop :=
  f.BoundTo type isCollection ∧ (f.parameters.map (·.name.text)).Perm parameters

/-- The action is bound to the type. -/
def Action.Fits (isCollection : Bool) (type : QualifiedName) (a : Action) : Prop :=
  a.BoundTo type isCollection

instance (o : Operation) (type : QualifiedName) (isCollection : Bool) :
    Decidable (o.BoundTo type isCollection) :=
  decidable_of_iff _ Operation.binding?_eq_some

instance (isCollection : Bool) (parameters : List String) (type : QualifiedName) (f : Function) :
    Decidable (f.Fits isCollection parameters type) :=
  inferInstanceAs (Decidable (_ ∧ _))

instance (isCollection : Bool) (type : QualifiedName) (a : Action) :
    Decidable (a.Fits isCollection type) :=
  inferInstanceAs (Decidable (a.BoundTo type isCollection))

theorem Function.key_eq_iff {f : Function} {name type : QualifiedName} {b : Binding}
    {parameters : List String} (hname : f.name = name) :
    f.key = (OverloadKey.function name (some b) parameters).rebind type ↔
      f.Fits b.isCollection parameters type := by
  unfold Fits
  rw [← Operation.binding?_eq_some, ← ascending_eq_iff]
  simp [key, OverloadKey.function, OverloadKey.rebind, hname]

theorem Action.key_eq_iff {a : Action} {name type : QualifiedName} {b : Binding}
    (hname : a.name = name) :
    a.key = (OverloadKey.action name (some b)).rebind type ↔ a.Fits b.isCollection type := by
  unfold Fits
  rw [← Operation.binding?_eq_some]
  simp [key, OverloadKey.action, OverloadKey.rebind, hname]

/-- An unbound function is found by its parameters in any order. -/
theorem unboundFunction_result {name : QualifiedName} {names : List String} {overloads : List Function}
    {f : Function} (hgroup : (functionFamily.named (s.actualName name)).result s = .ok overloads)
    (hf : f ∈ overloads) (hname : f.name = s.actualName name) (hbinding : f.binding? = none)
    (hnames : (f.parameters.map (·.name.text)).Perm names) :
    (unboundFunction name names).result s = .ok (some f) := by
  have hkey : f.key = .function (s.actualName name) none names := by
    rw [Function.key, hname, hbinding, OverloadKey.function, OverloadKey.function,
      ascending_eq_iff.mpr hnames]
  rw [(unboundFunction_settles name names).result_eq]
  refine OperationFamily.ofKey_result (functionFamily_lawful s) ?_ hf hkey
  exact hgroup

/-! ### Answers -/

/-- The directory after the names in a call for a bound operation have been resolved on it. -/
def Directory.afterNames (d : Directory) (name : QualifiedName) (b : Binding) : Directory :=
  ((resolveBinding b).runOn ((resolveAlias name).runOn d).2).2

/-- The answer for a key is the one of a search that ends, and if the overloads of the name and the
lineage of the type resolve, it is the nearest overload that fits. -/
structure FindsNearest (s : Source) (family : OperationFamily α)
    (Fits : QualifiedName → α → Prop) (key : OverloadKey) (type : QualifiedName) (d : Directory)
    (answer : Except DirectoryError (Option α) × Directory) : Prop where
  ends : SearchEnds family.ofKey key d answer.1 answer.2
  nearest : ∀ overloads lineage, (family.named key.name).result s = .ok overloads →
    Lineage s type lineage →
      ∃ found, answer.1 = .ok found ∧ Nearest overloads Fits lineage found

section Answers

variable (names : s.WellNamed) (apart : s.TypesApart)
include names apart

/-- A call resolves its names and then searches. -/
theorem findsNearest_of_search {family : OperationFamily α} (lawful : family.Lawful s)
    (keyFor : QualifiedName → Binding → OverloadKey)
    (keyFor_name : ∀ name b, (keyFor name b).name = name)
    (keyFor_binding : ∀ name b, (keyFor name b).binding = some b) (name : QualifiedName)
    (b : Binding) {Fits : QualifiedName → α → Prop}
    (fits : ∀ type o, (family.keyOf o).name = s.actualName name →
      (family.keyOf o = (keyFor (s.actualName name)
        { b with type := s.actualName b.type }).rebind type ↔ Fits type o))
    {d : Directory} (hd : d.Consistent s) :
    FindsNearest s family Fits
      (keyFor (s.actualName name) { b with type := s.actualName b.type }) b.type
      (d.afterNames name b) (InDirectory.runOn (do
        let key := keyFor (← resolveAlias name) (← resolveBinding b)
        nearestOverload family.ofKey (← get).source.chainBound key) d) := by
  have hname := (resolveAlias_settles name d hd).2
  have hnames : (d.afterNames name b).Consistent s := (resolveBinding_settles b _ hname).2
  rw [(resolveAlias_settles name).runOn_bind_ok hd, (resolveBinding_settles b).runOn_bind_ok hname,
    runOn_bind, runOn_get]
  show FindsNearest s family Fits _ _ _
    ((nearestOverload family.ofKey (d.afterNames name b).source.chainBound _).runOn _)
  rw [hnames.source]
  have hbinding := keyFor_binding (s.actualName name) { b with type := s.actualName b.type }
  have real := names.actualName_actualName b.type
  have settled := OperationFamily.ofKey_settled lawful
  constructor
  · refine nearestOverload_searchEnds names apart settled ?_ hnames
    refine Source.hasRoom_chainBound fun b' hb' => ?_
    cases hbinding.symm.trans hb'
    exact real
  · intro overloads lineage group h
    rw [(OperationFamily.named_settles lawful _).result_eq] at group
    obtain ⟨distinct, groupName⟩ := lawful.distinct _ _ overloads group
    have hfound := nearestOverload_result names apart lawful group hbinding real (h.actual names)
      (h.length_le)
    refine ⟨_, (nearestOverload_settled settled s.chainBound _ _ hnames).1.trans hfound,
      nearest_findSome? distinct (fun type o ho => fits type o ?_) lineage⟩
    rw [groupName o ho, keyFor_name]

/-- A bound operation is looked for until the base types of its binding come to their end, and what is
found is the nearest overload, whatever has been asked before. -/
theorem boundOperations_nearest {d : Directory} (reachable : d.Reachable s)
    (name type : QualifiedName) (isCollection : Bool) :
    let b : Binding := ⟨type, isCollection⟩
    let real : Binding := ⟨s.actualName type, isCollection⟩
    (∀ parameters, FindsNearest s functionFamily (Function.Fits isCollection parameters)
      (.function (s.actualName name) (some real) parameters) type (d.afterNames name b)
      ((boundFunction name b parameters).runOn d)) ∧
    FindsNearest s actionFamily (Action.Fits isCollection)
      (.action (s.actualName name) (some real)) type (d.afterNames name b)
      ((boundAction name b).runOn d) := by
  have hd := reachable.consistent names
  constructor
  · intro parameters
    exact findsNearest_of_search names apart (functionFamily_lawful s)
      (fun name b => .function name (some b) parameters) (fun _ _ => rfl) (fun _ _ => rfl)
      name ⟨type, isCollection⟩ (fun _ _ hname => Function.key_eq_iff hname) hd
  · exact findsNearest_of_search names apart (actionFamily_lawful s)
      (fun name b => .action name (some b)) (fun _ _ => rfl) (fun _ _ => rfl)
      name ⟨type, isCollection⟩ (fun _ _ hname => Action.key_eq_iff hname) hd

end Answers

section Harbor

private def harborSpace : Namespace := ⟨⟨"Harbor", by decide⟩, []⟩
private def harborAlias : Identifier := ⟨"H", by decide⟩
private def vessel : Identifier := ⟨"Vessel", by decide⟩
private def ship : Identifier := ⟨"Ship", by decide⟩
private def tanker : Identifier := ⟨"Tanker", by decide⟩
private def berth : Identifier := ⟨"Berth", by decide⟩
private def moor : Identifier := ⟨"Moor", by decide⟩
private def bound : Identifier := ⟨"bound", by decide⟩
private def day : Identifier := ⟨"day", by decide⟩
private def pier : Identifier := ⟨"pier", by decide⟩

private def short (name : Identifier) : QualifiedName := ⟨⟨harborAlias, []⟩, name⟩
private def inHarbor (name : Identifier) : QualifiedName := ⟨harborSpace, name⟩

private def vesselType (name : Identifier) (baseType : Option QualifiedName) : Csdl.EntityType :=
  { name, baseType, isAbstract := false, isOpen := false, properties := [],
    navigationProperties := [], hasStream := false, key := [] }

private def textReference : TypeReference := ⟨PrimitiveKind.string.qualifiedName, false⟩

private def berthFor (isBound : Bool) (first : TypeReference) (parameters : List Identifier) :
    Csdl.Function :=
  { name := berth, isBound, entitySetPath := none, isComposable := false
    parameters :=
      ⟨bound, first, false⟩ :: parameters.map fun name => ⟨name, textReference, false⟩
    returnType := ⟨textReference, false⟩ }

private def moorFor (first : TypeReference) : Csdl.Action :=
  { name := moor, isBound := true, entitySetPath := none, parameters := [⟨bound, first, false⟩]
    returnType := none }

private def berths : List Csdl.Function :=
  [berthFor true ⟨short vessel, false⟩ [day], berthFor true ⟨short vessel, true⟩ [day],
    berthFor true ⟨inHarbor ship, false⟩ [pier, day], berthFor false textReference [day]]

/-- A model with tankers, which are ships, which are vessels. Berths are found for vessels and for
collections of them by a day, and for ships also by a pier. -/
def harbor : Source :=
  { basicOnly := false
    schemas :=
      [{ space := harborSpace
         aliasName := some harborAlias
         entityTypes := [vesselType vessel none, vesselType ship (some (short vessel)),
           vesselType tanker (some (inHarbor ship))]
         complexTypes := []
         enumTypes := []
         typeDefinitions := []
         actions := [moorFor ⟨inHarbor vessel, false⟩, moorFor ⟨short ship, false⟩]
         functions := berths
         terms := []
         container := none
         annotations := [] }] }

private def berthIn (isBound : Bool) (first : TypeReference) (parameters : List Identifier) :
    Function :=
  harbor.function (inHarbor berth) (berthFor isBound first parameters)

private def moorIn (type : Identifier) : Action :=
  { name := inHarbor moor, isBound := true, entitySetPath := none
    allParameters := [⟨bound, ⟨inHarbor type, false⟩, false⟩], returnType := none }

private def tankerChain : List (QualifiedName × Csdl.EntityType) :=
  [(inHarbor tanker, vesselType tanker (some (inHarbor ship))),
    (inHarbor ship, vesselType ship (some (short vessel))),
    (inHarbor vessel, vesselType vessel none)]

/-- For tankers, a berth is found by a day and a pier, in any order, as for ships, by a day alone as
for vessels, and for collections only by a day; they are moored as ships are. -/
theorem boundOperations_nearest_harbor :
    let d := DirectoryCall.after [.boundFunction (inHarbor berth) ⟨inHarbor vessel, false⟩ ["day"],
      .entityType (short tanker)] (Directory.ofSource harbor)
    let berthAnswer (isCollection : Bool) (parameters : List String) :=
      ((boundFunction (short berth) ⟨short tanker, isCollection⟩ parameters).runOn d).1
    berthAnswer false ["day", "pier"] = .ok (some (berthIn true ⟨inHarbor ship, false⟩ [pier, day])) ∧
      berthAnswer false ["day"] = .ok (some (berthIn true ⟨short vessel, false⟩ [day])) ∧
      berthAnswer true ["day", "pier"] = .ok none ∧
      ((boundAction (short moor) ⟨short tanker, false⟩).runOn d).1 = .ok (some (moorIn ship)) := by
  have names : harbor.WellNamed := ⟨by decide, by decide⟩
  have apart : harbor.TypesApart := by decide
  have bases : EntityChain harbor (inHarbor tanker) tankerChain none :=
    .up rfl rfl (.up rfl rfl (.root rfl rfl))
  have keys : KeysResolve harbor tankerChain :=
    ((KeysResolve.nil.cons (List.forall_mem_nil _)).cons (List.forall_mem_nil _)).cons
      (List.forall_mem_nil _)
  have lineage : Lineage harbor (short tanker) (chainNames tankerChain) := .entity bases keys
  have berthGroup : (functionFamily.named (inHarbor berth)).result harbor =
      .ok (berths.map (harbor.function (inHarbor berth))) :=
    functions_result rfl (by decide) (by decide +kernel)
  have moorGroup : (actionFamily.named (inHarbor moor)).result harbor =
      .ok [moorIn vessel, moorIn ship] := rfl
  have reachable := (Directory.Reachable.fresh : (Directory.ofSource harbor).Reachable harbor).after
    [.boundFunction (inHarbor berth) ⟨inHarbor vessel, false⟩ ["day"], .entityType (short tanker)]
  have nearest (name : Identifier) (isCollection : Bool) :=
    boundOperations_nearest names apart reachable (short name) (short tanker) isCollection
  refine ⟨?_, ?_, ?_, ?_⟩
  · obtain ⟨found, hanswer, hnearest⟩ :=
      ((nearest berth false).1 ["day", "pier"]).nearest _ _ berthGroup lineage
    refine hanswer.trans (congrArg Except.ok ((hnearest.eq_some_iff _).mpr ?_))
    exact ⟨.tail _ (.tail _ (.head _)), [inHarbor tanker], inHarbor ship, [inHarbor vessel], rfl,
      by decide, by decide⟩
  · obtain ⟨found, hanswer, hnearest⟩ :=
      ((nearest berth false).1 ["day"]).nearest _ _ berthGroup lineage
    refine hanswer.trans (congrArg Except.ok ((hnearest.eq_some_iff _).mpr ?_))
    exact ⟨.head _, [inHarbor tanker, inHarbor ship], inHarbor vessel, [], rfl, by decide,
      by decide⟩
  · obtain ⟨found, hanswer, hnearest⟩ :=
      ((nearest berth true).1 ["day", "pier"]).nearest _ _ berthGroup lineage
    refine hanswer.trans (congrArg Except.ok (Option.not_isSome_iff_eq_none.mp fun hsome => ?_))
    exact absurd (hnearest.isSome_iff.mp hsome) (by decide)
  · obtain ⟨found, hanswer, hnearest⟩ := (nearest moor false).2.nearest _ _ moorGroup lineage
    refine hanswer.trans (congrArg Except.ok ((hnearest.eq_some_iff _).mpr ?_))
    exact ⟨.tail _ (.head _), [inHarbor tanker], inHarbor ship, [inHarbor vessel], rfl, by decide,
      by decide⟩

end Harbor

end ODataRequest
