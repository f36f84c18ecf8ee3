import ODataRequest.Proofs.Directory.Types

/-!
# ODataRequest.Proofs.Directory.Overloads

All look-ups of operations are settled. The overloads of a name are resolved together and have
different keys, so each of them is the only one that its key can stand for: putting them into the
store one by one gives the same list again (`OperationFamily.named_settles`), and an overload that
is found in the store is the one that would be found in the list
(`OperationFamily.ofKey_settles`).
-/

namespace ODataRequest

open InDirectory

variable {s : Source}

/-! ### Values of computations -/

namespace InDirectory

variable {α β : Type}

/-- Whatever value the computation gives, on whatever directory, has the property. -/
def Ensures (x : InDirectory α) (P : α → Prop) : Prop :=
  ∀ d a, (x.runOn d).1 = .ok a → P a

theorem Ensures.pure {P : α → Prop} {a : α} (h : P a) : Ensures (pure a) P := by
  intro d b hb
  cases hb
  exact h

theorem Ensures.throw {P : α → Prop} (e : DirectoryError) :
    Ensures (throw e : InDirectory α) P := by
  intro d b hb
  cases hb

theorem Ensures.bind {x : InDirectory α} {f : α → InDirectory β} {P : α → Prop} {Q : β → Prop}
    (hx : Ensures x P) (hf : ∀ a, P a → Ensures (f a) Q) : Ensures (x >>= f) Q := by
  intro d b hb
  rw [runOn_bind] at hb
  rcases hxd : x.runOn d with ⟨o, d'⟩
  rw [hxd] at hb
  cases o with
  | error e => cases hb
  | ok a => exact hf a (hx d a (by rw [hxd])) d' b hb

/-- Only the second computation has to ensure anything. -/
theorem Ensures.after {x : InDirectory α} {f : α → InDirectory β} {Q : β → Prop}
    (hf : ∀ a, Ensures (f a) Q) : Ensures (x >>= f) Q :=
  Ensures.bind (P := fun _ => True) (fun _ _ _ => trivial) fun a _ => hf a

theorem Ensures.inContext {x : InDirectory α} {P : α → Prop}
    (context : DirectoryError → DirectoryError) (hx : Ensures x P) :
    Ensures (inContext context x) P := by
  intro d a ha
  rw [runOn_inContext] at ha
  exact hx d a (except_mapError_eq_ok.mp ha)

theorem Ensures.mapM {f : α → InDirectory β} {P : β → Prop} (hf : ∀ a, Ensures (f a) P)
    (as : List α) : Ensures (as.mapM f) fun bs => ∀ b ∈ bs, P b := by
  induction as with
  | nil => exact .pure (by simp)
  | cons a as ih =>
    rw [List.mapM_cons]
    refine (hf a).bind fun b hb => ih.bind fun bs hbs => ?_
    exact .pure (List.forall_mem_cons.mpr ⟨hb, hbs⟩)

end InDirectory

/-! ### Overloads of one name -/

/-- If no key repeats an earlier one, the keys are distinct. -/
theorem nodup_of_repeatedKey?_eq_none {seen keys : List OverloadKey}
    (h : repeatedKey? seen keys = none) : keys.Nodup ∧ ∀ key ∈ keys, key ∉ seen := by
  induction keys generalizing seen with
  | nil => simp
  | cons key keys ih =>
    unfold repeatedKey? at h
    split at h
    · cases h
    · rename_i hfresh
      obtain ⟨hnodup, hnew⟩ := ih h
      refine ⟨List.nodup_cons.mpr ⟨fun hmem => hnew key hmem List.mem_cons_self, hnodup⟩, ?_⟩
      refine List.forall_mem_cons.mpr ⟨fun hmem => hfresh (List.contains_iff_mem.mpr hmem), ?_⟩
      exact fun k hk hmem => hnew k hk (List.mem_cons_of_mem key hmem)

/-- Distinct keys do not repeat each other. -/
theorem repeatedKey?_eq_none {seen keys : List OverloadKey} (hnodup : keys.Nodup)
    (hnew : ∀ key ∈ keys, key ∉ seen) : repeatedKey? seen keys = none := by
  induction keys generalizing seen with
  | nil => rfl
  | cons key keys ih =>
    obtain ⟨hkey, hkeys⟩ := List.nodup_cons.mp hnodup
    unfold repeatedKey?
    rw [if_neg fun h => hnew key List.mem_cons_self (List.contains_iff_mem.mp h)]
    refine ih hkeys fun k hk hmem => ?_
    rcases List.mem_cons.mp hmem with rfl | hmem
    · exact hkey hk
    · exact hnew k (List.mem_cons_of_mem key hk) hmem

section Load

variable {δ α : Type} {keyOf : α → OverloadKey}

theorem distinctOverloads_settled (keyOf : α → OverloadKey) (overloads : List α) :
    Settled s (distinctOverloads keyOf overloads) := by
  unfold distinctOverloads
  split
  · exact .throw _
  · exact .pure _

/-- Overloads that are not refused are the ones given, and have distinct keys. -/
theorem distinctOverloads_ensures (keyOf : α → OverloadKey) (overloads : List α) :
    Ensures (distinctOverloads keyOf overloads) fun accepted =>
      accepted = overloads ∧ (overloads.map keyOf).Nodup := by
  unfold distinctOverloads
  split
  · exact .throw _
  · rename_i hnone
    exact .pure ⟨rfl, (nodup_of_repeatedKey?_eq_none hnone).1⟩

theorem loadOverloads_settled {ask : InDirectory (List δ)} {resolve : δ → InDirectory α}
    (hask : Settled s ask) (hresolve : ∀ declared, Settled s (resolve declared))
    (name : QualifiedName) : Settled s (loadOverloads keyOf ask resolve name) :=
  hask.bind fun _ _ => Settled.inContext _ <|
    Settled.bind (.mapM fun declared _ => hresolve declared) fun _ _ =>
      distinctOverloads_settled keyOf _

/-- The overloads of a name have distinct keys, all with this name. -/
theorem loadOverloads_ensures {ask : InDirectory (List δ)} {resolve : δ → InDirectory α}
    {name : QualifiedName}
    (hresolve : ∀ declared, Ensures (resolve declared) fun o => (keyOf o).name = name) :
    Ensures (loadOverloads keyOf ask resolve name) fun overloads =>
      (overloads.map keyOf).Nodup ∧ ∀ o ∈ overloads, (keyOf o).name = name := by
  refine .after fun declared => .inContext _ ?_
  refine (Ensures.mapM hresolve declared).bind fun overloads hnames => ?_
  intro d accepted hd
  obtain ⟨rfl, hnodup⟩ := distinctOverloads_ensures keyOf overloads d accepted hd
  exact ⟨hnodup, hnames⟩

/-- Declared overloads that resolve to overloads with distinct keys are loaded. -/
theorem loadOverloads_settles {ask : InDirectory (List δ)} {resolve : δ → InDirectory α}
    {declared : List δ} {resolved : δ → α} {name : QualifiedName} (hask : Settles s ask (.ok declared))
    (hresolve : ∀ o ∈ declared, Settles s (resolve o) (.ok (resolved o)))
    (distinct : ((declared.map resolved).map keyOf).Nodup) :
    Settles s (loadOverloads keyOf ask resolve name) (.ok (declared.map resolved)) := by
  have hdistinct : Settles s (distinctOverloads keyOf (declared.map resolved))
      (.ok (declared.map resolved)) := by
    unfold distinctOverloads
    rw [repeatedKey?_eq_none distinct fun _ _ => List.not_mem_nil]
    exact .pure _
  have hall := (Settles.mapM hresolve).bind_ok hdistinct
  exact hask.bind_ok (hall.inContext (.inOperation name))

end Load

/-! ### Families of operations -/

namespace OperationFamily

variable {α : Type} {family : OperationFamily α}

/-- What a family of operations needs to be looked up in the same way on every directory: its store
holds overloads under their keys, and the overloads of a name, found in a settled way, have distinct
keys, all with this name. -/
structure Lawful (family : OperationFamily α) (s : Source) : Prop where
  keeps : family.store.Keeps s (family.Resolves s)
  load : ∀ name, Settled s (family.load name)
  distinct : ∀ name, Ensures (family.load name) fun overloads =>
    (overloads.map family.keyOf).Nodup ∧ ∀ o ∈ overloads, (family.keyOf o).name = name

namespace Lawful

/-- Overloads of one name and one key are the same. -/
theorem eq_of_key (lawful : family.Lawful s) {name : QualifiedName} {overloads : List α}
    (hload : (family.load name).result s = .ok overloads) {o p : α} (ho : o ∈ overloads)
    (hp : p ∈ overloads) (hkey : family.keyOf o = family.keyOf p) : o = p :=
  List.inj_on_of_nodup_map (lawful.distinct name _ overloads hload).1 ho hp hkey

/-- A key stands for one overload. -/
theorem resolves_unique (lawful : family.Lawful s) {key : OverloadKey} {o p : α}
    (ho : family.Resolves s key o) (hp : family.Resolves s key p) : o = p := by
  obtain ⟨overloads, hload, hmem, hkey⟩ := ho
  obtain ⟨others, hothers, hmem', hkey'⟩ := hp
  rw [hload] at hothers
  cases hothers
  exact lawful.eq_of_key hload hmem hmem' (hkey.trans hkey'.symm)

/-- Each overload of a name is the one of its own key. -/
theorem resolves_of_mem (lawful : family.Lawful s) {name : QualifiedName} {overloads : List α}
    (hload : (family.load name).result s = .ok overloads) {o : α} (ho : o ∈ overloads) :
    family.Resolves s (family.keyOf o) o := by
  have hname := (lawful.distinct name _ overloads hload).2 o ho
  exact ⟨overloads, by rw [hname]; exact hload, ho, rfl⟩

/-- The overload that a key stands for is found among those of its name. -/
theorem find?_eq_some (lawful : family.Lawful s) {key : OverloadKey} {overloads : List α}
    (hload : (family.load key.name).result s = .ok overloads) {o : α} (ho : o ∈ overloads)
    (hkey : family.keyOf o = key) : overloads.find? (family.keyOf · == key) = some o := by
  cases hfind : overloads.find? (family.keyOf · == key) with
  | none =>
    rw [List.find?_eq_none] at hfind
    exact absurd (hfind o ho) (by simp [hkey])
  | some p =>
    have hkey' : family.keyOf p = key := by simpa using List.find?_some hfind
    have hp := List.mem_of_find?_eq_some hfind
    rw [lawful.eq_of_key hload ho hp (hkey.trans hkey'.symm)]

end Lawful

/-- All overloads of a name are those that are loaded, whichever of them are stored already. -/
theorem named_settles (lawful : family.Lawful s) (name : QualifiedName) :
    Settles s (family.named name) ((family.load name).result s) := by
  have hput : ∀ overloads, (family.load name).result s = .ok overloads →
      Settles s (overloads.mapM fun o => family.store.put (family.keyOf o) o) (.ok overloads) := by
    intro overloads hload
    have hall := Settles.mapM (s := s) (g := id)
      (f := fun o => family.store.put (family.keyOf o) o) fun o ho =>
        put_settles lawful.keeps (lawful.resolves_of_mem hload ho) fun _ hp =>
          lawful.resolves_unique hp (lawful.resolves_of_mem hload ho)
    rwa [List.map_id] at hall
  have hok : ((family.load name).result s >>= Except.ok) = (family.load name).result s := by
    cases (family.load name).result s <;> rfl
  have hall := Settles.bind (g := Except.ok) (lawful.load name) hput
  rwa [hok] at hall

/-- The overload of a key is the one among the overloads of its name. -/
theorem ofKey_settles (lawful : family.Lawful s) (key : OverloadKey) :
    Settles s (family.ofKey key) (do
      let overloads ← (family.load key.name).result s
      .ok (overloads.find? (family.keyOf · == key))) := by
  refine Settles.find lawful.keeps ?_ fun o ho => ?_
  · exact (named_settles lawful key.name).bind fun overloads _ => .pure _
  · obtain ⟨overloads, hload, hmem, hkey⟩ := ho
    rw [hload, except_ok_bind, lawful.find?_eq_some hload hmem hkey]
    exact .pure (some o)

/-- The overload of a key is found, if it is one of its name. -/
theorem ofKey_result (lawful : family.Lawful s) {key : OverloadKey} {overloads : List α}
    (hgroup : (family.named key.name).result s = .ok overloads) {o : α} (ho : o ∈ overloads)
    (hkey : family.keyOf o = key) : (family.ofKey key).result s = .ok (some o) := by
  rw [(named_settles lawful key.name).result_eq] at hgroup
  rw [(ofKey_settles lawful key).result_eq, hgroup, except_ok_bind,
    lawful.find?_eq_some hgroup ho hkey]

theorem named_settled (lawful : family.Lawful s) (name : QualifiedName) :
    Settled s (family.named name) :=
  (named_settles lawful name).settled

theorem ofKey_settled (lawful : family.Lawful s) (key : OverloadKey) :
    Settled s (family.ofKey key) :=
  (ofKey_settles lawful key).settled

end OperationFamily

/-! ### Actions and functions -/

theorem resolveParameter_settles (p : Csdl.Parameter) :
    Settles s (resolveParameter p) (.ok { p with type := s.actualReference p.type }) :=
  (resolveReference_settles p.type).bind_ok (.pure _)

theorem resolveReturnType_settles (r : Csdl.ReturnType) :
    Settles s (resolveReturnType r) (.ok { r with type := s.actualReference r.type }) :=
  (resolveReference_settles r.type).bind_ok (.pure _)

theorem requireBindingParameter_settled (name : QualifiedName) (o : Csdl.Operation) :
    Settled s (requireBindingParameter name o) := by
  unfold requireBindingParameter
  split
  · exact .throw _
  · exact .pure _

/-- A declared action with its aliases replaced. -/
def Source.action (s : Source) (name : QualifiedName) (a : Csdl.Action) : Action :=
  { name
    isBound := a.isBound
    entitySetPath := a.entitySetPath
    allParameters := a.parameters.map fun p => { p with type := s.actualReference p.type }
    returnType := a.returnType.map fun r => { r with type := s.actualReference r.type } }

/-- A declared function with its aliases replaced. -/
def Source.function (s : Source) (name : QualifiedName) (f : Csdl.Function) : Function :=
  { name
    isBound := f.isBound
    entitySetPath := f.entitySetPath
    allParameters := f.parameters.map fun p => { p with type := s.actualReference p.type }
    isComposable := f.isComposable
    returnType := { f.returnType with type := s.actualReference f.returnType.type } }

/-- The only defect of an action is a missing binding parameter. -/
theorem resolveAction_checks (name : QualifiedName) (a : Csdl.Action) :
    Settles s (resolveAction name a)
      ((requireBindingParameter name a.toOperation).result s >>= fun _ => .ok (s.action name a)) := by
  refine Settles.bind (requireBindingParameter_settled name _) fun _ _ => ?_
  refine (Settles.optionMapM fun r _ => resolveReturnType_settles r).bind_ok ?_
  exact (Settles.mapM fun p _ => resolveParameter_settles p).bind_ok (.pure _)

theorem resolveFunction_checks (name : QualifiedName) (f : Csdl.Function) :
    Settles s (resolveFunction name f)
      ((requireBindingParameter name f.toOperation).result s >>= fun _ =>
        .ok (s.function name f)) := by
  refine Settles.bind (requireBindingParameter_settled name _) fun _ _ => ?_
  refine (resolveReturnType_settles _).bind_ok ?_
  exact (Settles.mapM fun p _ => resolveParameter_settles p).bind_ok (.pure _)

theorem resolveAction_settled (name : QualifiedName) (a : Csdl.Action) :
    Settled s (resolveAction name a) :=
  (resolveAction_checks name a).settled

theorem resolveFunction_settled (name : QualifiedName) (f : Csdl.Function) :
    Settled s (resolveFunction name f) :=
  (resolveFunction_checks name f).settled

theorem resolveFunction_settles (name : QualifiedName) {f : Csdl.Function}
    (binding : f.isBound = true → f.parameters ≠ []) :
    Settles s (resolveFunction name f) (.ok (s.function name f)) := by
  have hrequire : Settles s (requireBindingParameter name f.toOperation) (.ok ()) := by
    unfold requireBindingParameter
    rw [if_neg]
    · exact .pure ()
    · rintro h
      obtain ⟨hbound, hempty⟩ := (Bool.and_eq_true _ _).mp h
      exact binding hbound (List.isEmpty_iff.mp hempty)
  have hchecks := resolveFunction_checks (s := s) name f
  rw [hrequire.result_eq] at hchecks
  exact hchecks

theorem actionFamily_lawful (s : Source) : actionFamily.Lawful s where
  keeps := actionStore_keeps s
  load name := loadOverloads_settled (askSource_settles (.actions name)).settled
    (resolveAction_settled name) name
  distinct _ := loadOverloads_ensures fun _ =>
    .after fun _ => .after fun _ => .after fun _ => .pure rfl

theorem functionFamily_lawful (s : Source) : functionFamily.Lawful s where
  keeps := functionStore_keeps s
  load name := loadOverloads_settled (askSource_settles (.functions name)).settled
    (resolveFunction_settled name) name
  distinct _ := loadOverloads_ensures fun _ =>
    .after fun _ => .after fun _ => .after fun _ => .pure rfl

/-- The functions of a name are the declared ones, if they can be told apart and those that are bound
have a parameter to bind to. -/
theorem functions_result {name : QualifiedName} {declared : List Csdl.Function}
    (hdeclared : s.answer (.functions name) = declared)
    (binding : ∀ f ∈ declared, f.isBound = true → f.parameters ≠ [])
    (distinct : ((declared.map (s.function name)).map Function.key).Nodup) :
    (functionFamily.named name).result s = .ok (declared.map (s.function name)) := by
  have hload : Settles s (functionFamily.load name) (.ok (declared.map (s.function name))) := by
    subst hdeclared
    exact loadOverloads_settles (askSource_settles (.functions name))
      (fun f hf => resolveFunction_settles name (binding f hf)) distinct
  rw [(OperationFamily.named_settles (functionFamily_lawful s) name).result_eq]
  exact hload.result_eq

/-! ### Lookups -/

theorem baseTypeName_settled (name : QualifiedName) :
    Settled s (baseTypeName name) := by
  refine (entityType_settled name).bind fun entity _ => ?_
  cases entity with
  | some t => exact .pure _
  | none => exact (complexType_settled name).bind fun _ _ => .pure _

/-- Going up the base types of a binding is settled if looking up one key is, and whatever is found
is found for a key that differs by its binding at most. -/
theorem nearestOverload_found {α : Type} {find : OverloadKey → InDirectory (Option α)}
    (hfind : ∀ key, Settled s (find key)) (bound : Nat) (key : OverloadKey) :
    Settled s (nearestOverload find bound key) ∧
      ∀ found, (nearestOverload find bound key).result s = .ok found →
        ∀ o ∈ found, ∃ binding, (find { key with binding }).result s = .ok (some o) := by
  have hhere : ∀ {found o}, (find key).result s = .ok found → o ∈ found →
      ∃ binding, (find { key with binding }).result s = .ok (some o) := by
    rintro _ o hfound rfl
    exact ⟨key.binding, hfound⟩
  induction bound generalizing key with
  | zero =>
    unfold nearestOverload
    refine (hfind key).bind_result fun found hfound => ?_
    cases found with
    | some o => exact Settled.pure_result fun _ ho => hhere hfound ho
    | none => exact Settled.pure_result nofun
  | succ bound ih =>
    unfold nearestOverload
    refine (hfind key).bind_result fun found hfound => ?_
    cases found with
    | some o => exact Settled.pure_result fun _ ho => hhere hfound ho
    | none =>
      cases hbinding : key.binding with
      | none => exact Settled.pure_result nofun
      | some binding =>
        refine (baseTypeName_settled binding.type).bind_result fun base _ => ?_
        cases base with
        | none => exact Settled.pure_result nofun
        | some base =>
          refine ih (key.rebind base) ?_
          rintro _ o hfound rfl
          exact ⟨(key.rebind base).binding, hfound⟩

theorem nearestOverload_settled {α : Type} {find : OverloadKey → InDirectory (Option α)}
    (hfind : ∀ key, Settled s (find key)) (bound : Nat) (key : OverloadKey) :
    Settled s (nearestOverload find bound key) :=
  (nearestOverload_found hfind bound key).1

theorem resolveBinding_settles (b : Binding) :
    Settles s (resolveBinding b) (.ok { b with type := s.actualName b.type }) :=
  (resolveAlias_settles b.type).bind_ok (.pure _)

theorem unboundAction_settles (name : QualifiedName) : Settles s (unboundAction name)
    ((actionFamily.ofKey (.action (s.actualName name) none)).result s) :=
  (resolveAlias_settles name).bind_ok
    (OperationFamily.ofKey_settled (actionFamily_lawful s) _)

theorem unboundFunction_settles (name : QualifiedName) (parameters : List String) :
    Settles s (unboundFunction name parameters)
      ((functionFamily.ofKey (.function (s.actualName name) none parameters)).result s) :=
  (resolveAlias_settles name).bind_ok
    (OperationFamily.ofKey_settled (functionFamily_lawful s) _)

theorem boundAction_settles (name : QualifiedName) (b : Binding) :
    Settles s (boundAction name b) ((nearestOverload actionFamily.ofKey s.chainBound
      (.action (s.actualName name) (some { b with type := s.actualName b.type }))).result s) := by
  refine (resolveAlias_settles name).bind_ok ((resolveBinding_settles b).bind_ok ?_)
  refine Settles.readDirectory fun d hd => ?_
  rw [hd.source]
  exact nearestOverload_settled (OperationFamily.ofKey_settled (actionFamily_lawful s)) _ _

theorem boundFunction_settles (name : QualifiedName) (b : Binding)
    (parameters : List String) :
    Settles s (boundFunction name b parameters)
      ((nearestOverload functionFamily.ofKey s.chainBound (.function (s.actualName name)
        (some { b with type := s.actualName b.type }) parameters)).result s) := by
  refine (resolveAlias_settles name).bind_ok ((resolveBinding_settles b).bind_ok ?_)
  refine Settles.readDirectory fun d hd => ?_
  rw [hd.source]
  exact nearestOverload_settled (OperationFamily.ofKey_settled (functionFamily_lawful s)) _ _

theorem unboundAction_settled (name : QualifiedName) : Settled s (unboundAction name) :=
  (unboundAction_settles name).settled

theorem unboundFunction_settled (name : QualifiedName) (parameters : List String) :
    Settled s (unboundFunction name parameters) :=
  (unboundFunction_settles name parameters).settled

theorem boundAction_settled (name : QualifiedName) (binding : Binding) :
    Settled s (boundAction name binding) :=
  (boundAction_settles name binding).settled

theorem boundFunction_settled (name : QualifiedName) (binding : Binding)
    (parameters : List String) : Settled s (boundFunction name binding parameters) :=
  (boundFunction_settles name binding parameters).settled

/-- A list of unbound functions is stored only if it is not empty; it is the one that would be made
again either way. -/
theorem unboundFunctions_settles (name : QualifiedName) : Settles s (unboundFunctions name) (do
    let overloads ← (functionFamily.load (s.actualName name)).result s
    .ok (overloads.filter (!·.isBound))) := by
  refine (resolveAlias_settles name).bind_ok ?_
  have unique : ∀ {unbound other : List Function},
      (∃ overloads, (functionFamily.load (s.actualName name)).result s = .ok overloads ∧
        unbound = overloads.filter (!·.isBound)) →
      (∃ overloads, (functionFamily.load (s.actualName name)).result s = .ok overloads ∧
        other = overloads.filter (!·.isBound)) → other = unbound := by
    rintro _ _ ⟨overloads, hload, rfl⟩ ⟨others, hothers, rfl⟩
    rw [hload] at hothers
    cases hothers
    rfl
  refine Settles.find (functionListStore_keeps s) ?_ fun unbound hunbound => ?_
  · have hnamed := OperationFamily.named_settles (functionFamily_lawful s) (s.actualName name)
    refine hnamed.bind fun overloads hload => ?_
    dsimp only
    split
    · exact .pure _
    · exact put_settles (functionListStore_keeps s) ⟨overloads, hload, rfl⟩ fun other hother =>
        unique ⟨overloads, hload, rfl⟩ hother
  · obtain ⟨overloads, hload, rfl⟩ := hunbound
    rw [hload, except_ok_bind]
    exact .pure _

theorem unboundFunctions_settled (name : QualifiedName) : Settled s (unboundFunctions name) :=
  (unboundFunctions_settles name).settled

end ODataRequest
