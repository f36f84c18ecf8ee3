import ODataRequest.Proofs.Directory.Inheritance

/-!
# ODataRequest.Proofs.Directory.BaseChains

What following base types comes to. From a name, base types lead to a type without base type, to a
name that no type has, or back to a type that has been visited (`BaseChain`); since there are only
finitely many types, one of these is always reached (`exists_baseChain`). Resolving a type comes to
what its chain says (`BaseChain.Decides`): the defects at the end of a chain are reported in the
context of all types that have led there, from the inside out.

The chain is a notion of its own: neither stores nor the list of types that are being resolved occur
in it. On the way up, that list is the part of the chain that has been passed (`TypeFamily.Path`).
-/

namespace ODataRequest

open InDirectory

variable {δ α : Type} {s : Source} {declared? : QualifiedName → Option δ}
variable {baseType : δ → Option QualifiedName}

/-! ### Chains -/

/-- The declared types that are visited when base types are followed from a name, and the name that
comes next; there is none if the last type has no base type. -/
inductive BaseChain (s : Source) (declared? : QualifiedName → Option δ)
    (baseType : δ → Option QualifiedName) :
    QualifiedName → List (QualifiedName × δ) → Option QualifiedName → Prop
  | stop {name : QualifiedName} : BaseChain s declared? baseType name [] (some name)
  | root {name : QualifiedName} {type : δ} (found : declared? name = some type)
      (noBase : baseType type = none) : BaseChain s declared? baseType name [(name, type)] none
  | up {name base : QualifiedName} {type : δ} {chain : List (QualifiedName × δ)}
      {next : Option QualifiedName} (found : declared? name = some type)
      (hasBase : baseType type = some base)
      (above : BaseChain s declared? baseType (s.actualName base) chain next) :
      BaseChain s declared? baseType name ((name, type) :: chain) next

/-- The names of the types of a chain. -/
def chainNames (chain : List (QualifiedName × δ)) : List QualifiedName :=
  chain.map Prod.fst

@[simp] theorem chainNames_nil : chainNames ([] : List (QualifiedName × δ)) = [] := rfl

@[simp] theorem chainNames_cons (level : QualifiedName × δ) (chain : List (QualifiedName × δ)) :
    chainNames (level :: chain) = level.1 :: chainNames chain := rfl

namespace BaseChain

variable {name : QualifiedName} {chain : List (QualifiedName × δ)} {next : Option QualifiedName}

/-- Nothing comes after the chain. -/
def Ends (declared? : QualifiedName → Option δ) (next : Option QualifiedName) : Prop :=
  ∀ m, next = some m → declared? m = none

theorem ends_none : Ends declared? none :=
  nofun

/-- Base types that are followed to their end lead there in one way only. -/
theorem unique {chain' : List (QualifiedName × δ)} {next' : Option QualifiedName}
    (h : BaseChain s declared? baseType name chain next) (ends : Ends declared? next)
    (h' : BaseChain s declared? baseType name chain' next') (ends' : Ends declared? next') :
    chain = chain' ∧ next = next' := by
  induction h generalizing chain' with
  | stop =>
    cases h' with
    | stop => exact ⟨rfl, rfl⟩
    | root found | up found => simp [ends _ rfl] at found
  | root found noBase =>
    cases h' with
    | stop => simp [ends' _ rfl] at found
    | root found' => exact ⟨by simpa using found.symm.trans found', rfl⟩
    | up found' hasBase =>
      cases found.symm.trans found'
      simp [noBase] at hasBase
  | up found hasBase above ih =>
    cases h' with
    | stop => simp [ends' _ rfl] at found
    | root found' noBase =>
      cases found.symm.trans found'
      simp [noBase] at hasBase
    | up found' hasBase' above' =>
      cases found.symm.trans found'
      cases hasBase.symm.trans hasBase'
      obtain ⟨rfl, rfl⟩ := ih ends above'
      exact ⟨rfl, rfl⟩

/-- From each type on a chain, the rest of the chain follows. -/
theorem suffix {below above : List (QualifiedName × δ)} {level : QualifiedName × δ}
    (h : BaseChain s declared? baseType name (below ++ level :: above) next) :
    BaseChain s declared? baseType level.1 (level :: above) next := by
  induction below generalizing name with
  | nil =>
    cases h with
    | root found noBase => exact .root found noBase
    | up found hasBase above => exact .up found hasBase above
  | cons first below ih =>
    rw [List.cons_append] at h
    generalize hrest : below ++ level :: above = rest at h
    cases h with
    | root => simp at hrest
    | up _ _ h =>
      subst hrest
      exact ih h

/-- Base types that can be followed to their end visit no type twice. -/
theorem nodup (h : BaseChain s declared? baseType name chain next) (ends : Ends declared? next) :
    (chainNames chain).Nodup := by
  induction h with
  | stop => exact List.nodup_nil
  | root => exact List.nodup_singleton _
  | @up name base type chain next found hasBase above ih =>
    refine List.nodup_cons.mpr ⟨fun hmem => ?_, ih ends⟩
    obtain ⟨level, hlevel, hname⟩ := List.mem_map.mp hmem
    obtain ⟨before, behind, rfl⟩ := List.append_of_mem hlevel
    -- the chain would go on from here as it does from the first type, and be longer than itself
    have hagain := above.suffix
    rw [hname] at hagain
    have hlength := congrArg List.length (hagain.unique ends (.up found hasBase above) ends).1
    simp only [List.length_cons, List.length_append] at hlength
    omega

/-- A name from which base types lead to an end is the name of a type. -/
theorem exists_found (h : BaseChain s declared? baseType name chain none) :
    ∃ type, declared? name = some type := by
  cases h with
  | root found | up found => exact ⟨_, found⟩

/-! ### Decisions -/

/-- The answer is what the chain of a name says. `Complete` is the condition under which a chain with
an end can be made a type, and `Is` says which type it is. -/
structure Decides (s : Source) (declared? : QualifiedName → Option δ)
    (baseType : δ → Option QualifiedName)
    (context : QualifiedName → DirectoryError → DirectoryError)
    (Complete : List (QualifiedName × δ) → Prop) (Is : List (QualifiedName × δ) → α → Prop)
    (name : QualifiedName) (answer : Except DirectoryError (Option α)) : Prop where
  /-- One of the cases below applies: a chain comes to an end or comes back. -/
  ends : ∃ chain next, BaseChain s declared? baseType name chain next ∧ (chainNames chain).Nodup ∧
    ∀ m, next = some m → m ∈ chainNames chain ∨ declared? m = none
  unknown : declared? name = none → answer = .ok none
  cyclic : ∀ chain m, BaseChain s declared? baseType name chain (some m) →
    (chainNames chain).Nodup → m ∈ chainNames chain →
      answer = .error ((chainNames chain).foldr context (.cyclicBaseType m))
  unresolved : ∀ chain m, BaseChain s declared? baseType name chain (some m) → m ≠ name →
    declared? m = none → answer = .error ((chainNames chain).foldr context (.unresolvedType m))
  resolved : ∀ chain, BaseChain s declared? baseType name chain none → Complete chain →
    ∃ type, answer = .ok (some type) ∧ Is chain type
  incomplete : ∀ chain, BaseChain s declared? baseType name chain none → ¬Complete chain →
    ∃ e, answer = .error e

/-- A type is answered with only for a chain with an end, and nothing only for an unknown name. -/
theorem Decides.cases {context : QualifiedName → DirectoryError → DirectoryError}
    {Complete : List (QualifiedName × δ) → Prop} {Is : List (QualifiedName × δ) → α → Prop}
    {answer : Except DirectoryError (Option α)}
    (h : Decides s declared? baseType context Complete Is name answer) :
    (∃ chain type, BaseChain s declared? baseType name chain none ∧ Complete chain ∧
        Is chain type ∧ answer = .ok (some type)) ∨
      (declared? name = none ∧ answer = .ok none) ∨ ∃ e, answer = .error e := by
  obtain ⟨chain, next, hchain, nodup, hnext⟩ := h.ends
  cases next with
  | none =>
    by_cases complete : Complete chain
    · obtain ⟨type, hanswer, his⟩ := h.resolved chain hchain complete
      exact Or.inl ⟨chain, type, hchain, complete, his, hanswer⟩
    · exact Or.inr (Or.inr (h.incomplete chain hchain complete))
  | some m =>
    rcases hnext m rfl with back | unknown
    · exact Or.inr (Or.inr ⟨_, h.cyclic chain m hchain nodup back⟩)
    by_cases hm : m = name
    · subst hm
      exact Or.inr (Or.inl ⟨unknown, h.unknown unknown⟩)
    · exact Or.inr (Or.inr ⟨_, h.unresolved chain m hchain hm unknown⟩)

end BaseChain

/-! ### Resolving -/

namespace TypeFamily

variable {family : TypeFamily δ α} {visiting : List QualifiedName} {name : QualifiedName}
variable {bound : Nat}

/-- A type that is being resolved is not resolved again. -/
theorem resolveFrom_of_mem (hmem : name ∈ visiting) :
    (family.resolveFrom bound visiting name).result s = .error (.cyclicBaseType name) := by
  have hcontains := List.contains_iff_mem.mpr hmem
  cases bound with
  | zero =>
    rw [resolveFrom_zero, if_pos hcontains]
    rfl
  | succ bound =>
    rw [resolveFrom_succ, if_pos hcontains]
    rfl

/-- What completing types has to do with a condition on chains and the types that they are. -/
structure Completes (family : TypeFamily δ α) (s : Source)
    (Complete : List (QualifiedName × δ) → Prop) (Is : List (QualifiedName × δ) → α → Prop) :
    Prop where
  above : ∀ level chain, Complete (level :: chain) → Complete chain
  root : ∀ name type, Complete [(name, type)] →
    ∃ a, (family.complete name type none).result s = .ok a ∧ Is [(name, type)] a
  up : ∀ name type chain base, Complete chain → Is chain base → Complete ((name, type) :: chain) →
    ∃ a, (family.complete name type (some base)).result s = .ok a ∧ Is ((name, type) :: chain) a
  rootOnly : ∀ name type a, (family.complete name type none).result s = .ok a →
    Complete [(name, type)]
  upOnly : ∀ name type chain base a, Complete chain → Is chain base →
    (family.complete name type (some base)).result s = .ok a → Complete ((name, type) :: chain)

section Results

variable {Complete : List (QualifiedName × δ) → Prop} {Is : List (QualifiedName × δ) → α → Prop}
variable (lawful : family.Lawful s)
variable (declares : ∀ name, (family.declared name).result s = .ok (declared? name))
include lawful declares

theorem resolveFrom_of_unknown (path : family.Path s visiting name) (unknown : declared? name = none) :
    (family.resolveFrom bound visiting name).result s = .ok none := by
  have hdeclared : (family.declared name).result s = .ok none := by rw [declares, unknown]
  have fresh : visiting.contains name ≠ true := by
    intro hmem
    obtain ⟨declared, hfound⟩ := path.declared name (List.contains_iff_mem.mp hmem)
    simp [hdeclared] at hfound
  have hload (find : QualifiedName → InDirectory (Option α)) :
      (family.store.remembered name (family.load name find)).result s = .ok none := by
    rw [(remembered_load_settles lawful fun declared base hd _ => by simp [hdeclared] at hd).1.result_eq]
    simp [loadResult, hdeclared]
  cases bound with
  | zero => rw [resolveFrom_zero, if_neg fresh, hload]
  | succ bound => rw [resolveFrom_succ, if_neg fresh, hload]

/-- A declared type is loaded on top of what its base type is resolved to, one step further up. -/
theorem resolveFrom_of_declared (path : family.Path s visiting name)
    (enough : s.chainBound ≤ bound + visiting.length) (fresh : name ∉ visiting) {type : δ}
    (found : declared? name = some type) :
    ∃ bound', s.chainBound ≤ bound' + (name :: visiting).length ∧
      (family.resolveFrom bound visiting name).result s =
        Except.mapError (family.context name) (do
          let base ← baseResult s (fun n => (family.resolveFrom bound' (name :: visiting) n).result s)
            (family.baseType type)
          let completed ← (family.complete name type base).result s
          return some completed) := by
  have hdeclared : (family.declared name).result s = .ok (some type) := by rw [declares, found]
  have hlt := path.length_lt lawful fresh hdeclared
  obtain ⟨bound', rfl⟩ : ∃ bound', bound = bound' + 1 := ⟨bound - 1, by omega⟩
  have enough' : s.chainBound ≤ bound' + (name :: visiting).length := by
    rw [List.length_cons]
    omega
  refine ⟨bound', enough', ?_⟩
  have hstored := remembered_load_settles lawful fun declared base
      (hd : (family.declared name).result s = .ok (some declared)) hb =>
    resolveFrom_settled lawful bound' (path.up fresh hd hb) enough'
  rw [resolveFrom_succ, if_neg (fun h => fresh (List.contains_iff_mem.mp h)), hstored.1.result_eq]
  simp [loadResult, hdeclared]

theorem resolveFrom_ne_none (path : family.Path s visiting name)
    (enough : s.chainBound ≤ bound + visiting.length) (fresh : name ∉ visiting) {type : δ}
    (found : declared? name = some type) :
    (family.resolveFrom bound visiting name).result s ≠ .ok none := by
  obtain ⟨bound', -, hresult⟩ :=
    resolveFrom_of_declared lawful declares path enough fresh found
  intro hnone
  simp only [hresult, except_mapError_eq_ok, except_bind_eq_ok, except_pure] at hnone
  obtain ⟨base, -, completed, -, h⟩ := hnone
  cases h

/-- What goes wrong with a base type is reported in the context of the type that has it. -/
theorem resolveFrom_of_base_error (path : family.Path s visiting name)
    (enough : s.chainBound ≤ bound + visiting.length) (fresh : name ∉ visiting) {type : δ}
    {base : QualifiedName} (found : declared? name = some type)
    (hasBase : family.baseType type = some base) {e : DirectoryError}
    (wrong : ∀ bound', s.chainBound ≤ bound' + (name :: visiting).length →
      (family.resolveFrom bound' (name :: visiting) (s.actualName base)).result s = .error e ∨
        (family.resolveFrom bound' (name :: visiting) (s.actualName base)).result s = .ok none ∧
          e = .unresolvedType (s.actualName base)) :
    (family.resolveFrom bound visiting name).result s = .error (family.context name e) := by
  obtain ⟨bound', enough', hresult⟩ :=
    resolveFrom_of_declared lawful declares path enough fresh found
  rw [hresult, hasBase, baseResult]
  rcases wrong bound' enough' with herror | ⟨hnone, rfl⟩
  · rw [herror]
    rfl
  · rw [hnone]
    rfl

/-- A chain that comes back is reported as cyclic, in the context of all types up to there. -/
theorem resolveFrom_of_cyclic {chain : List (QualifiedName × δ)} {next : Option QualifiedName}
    {m : QualifiedName} (h : BaseChain s declared? family.baseType name chain next)
    (hnext : next = some m) (path : family.Path s visiting name)
    (enough : s.chainBound ≤ bound + visiting.length) (nodup : (chainNames chain).Nodup)
    (fresh : ∀ v ∈ visiting, v ∉ chainNames chain) (back : m ∈ chainNames chain ∨ m ∈ visiting) :
    (family.resolveFrom bound visiting name).result s =
      .error ((chainNames chain).foldr family.context (.cyclicBaseType m)) := by
  induction h generalizing visiting bound with
  | stop =>
    cases hnext
    exact resolveFrom_of_mem (back.resolve_left List.not_mem_nil)
  | root => cases hnext
  | @up name base type chain next found hasBase above ih =>
    rw [chainNames_cons, List.nodup_cons] at nodup
    have hname : name ∉ visiting := fun hmem => fresh name hmem List.mem_cons_self
    have hdeclared : (family.declared name).result s = .ok (some type) := by rw [declares, found]
    have hbase : ∀ bound', s.chainBound ≤ bound' + (name :: visiting).length →
        (family.resolveFrom bound' (name :: visiting) (s.actualName base)).result s =
          .error ((chainNames chain).foldr family.context (.cyclicBaseType m)) := by
      intro bound' enough'
      refine ih hnext (path.up hname hdeclared hasBase) enough' nodup.2 ?_ ?_
      · refine List.forall_mem_cons.mpr ⟨nodup.1, fun v hv hmem => ?_⟩
        exact fresh v hv (List.mem_cons_of_mem name hmem)
      · rcases back with hback | hback
        · rcases List.mem_cons.mp hback with rfl | hback
          · exact Or.inr List.mem_cons_self
          · exact Or.inl hback
        · exact Or.inr (List.mem_cons_of_mem name hback)
    exact resolveFrom_of_base_error lawful declares path enough hname found hasBase
      fun bound' enough' => Or.inl (hbase bound' enough')

/-- A chain that leads to an unknown base type is reported as unresolved, in the context of all types
up to there. -/
theorem resolveFrom_of_unresolved {chain : List (QualifiedName × δ)} {next : Option QualifiedName}
    {m : QualifiedName} (h : BaseChain s declared? family.baseType name chain next)
    (hnext : next = some m) (unknown : declared? m = none) (apart : m ≠ name)
    (path : family.Path s visiting name) (enough : s.chainBound ≤ bound + visiting.length)
    (nodup : (chainNames chain).Nodup) (fresh : ∀ v ∈ visiting, v ∉ chainNames chain) :
    (family.resolveFrom bound visiting name).result s =
      .error ((chainNames chain).foldr family.context (.unresolvedType m)) := by
  induction h generalizing visiting bound with
  | stop =>
    cases hnext
    exact absurd rfl apart
  | root => cases hnext
  | @up name base type chain next found hasBase above ih =>
    rw [chainNames_cons, List.nodup_cons] at nodup
    have hname : name ∉ visiting := fun hmem => fresh name hmem List.mem_cons_self
    have hdeclared : (family.declared name).result s = .ok (some type) := by rw [declares, found]
    have path' := path.up hname hdeclared hasBase
    refine resolveFrom_of_base_error lawful declares path enough hname found hasBase
      fun bound' enough' => ?_
    by_cases hm : m = s.actualName base
    · subst hm
      -- the unknown type is the next one, so nothing else is visited
      have hchain : chain = [] := by
        cases above with
        | stop => rfl
        | up found' => simp [unknown] at found'
        | root => cases hnext
      subst hchain
      exact Or.inr ⟨resolveFrom_of_unknown lawful declares path' unknown, rfl⟩
    · refine Or.inl (ih hnext hm path' enough' nodup.2 ?_)
      refine List.forall_mem_cons.mpr ⟨nodup.1, fun v hv hmem => ?_⟩
      exact fresh v hv (List.mem_cons_of_mem name hmem)

/-- Following base types comes to an end or comes back, since the types are finitely many. -/
theorem exists_baseChain {visiting : List QualifiedName} {name : QualifiedName}
    (path : family.Path s visiting name) :
    ∃ chain next, BaseChain s declared? family.baseType name chain next ∧
      (chainNames chain).Nodup ∧ (∀ v ∈ visiting, v ∉ chainNames chain) ∧
      ∀ m, next = some m → (m ∈ chainNames chain ∨ m ∈ visiting) ∨ declared? m = none := by
  by_cases hmem : name ∈ visiting
  · refine ⟨[], some name, .stop, List.nodup_nil, fun _ _ => List.not_mem_nil, ?_⟩
    rintro _ ⟨⟩
    exact Or.inl (Or.inr hmem)
  cases found : declared? name with
  | none =>
    refine ⟨[], some name, .stop, List.nodup_nil, fun _ _ => List.not_mem_nil, ?_⟩
    rintro _ ⟨⟩
    exact Or.inr found
  | some type =>
    have hdeclared : (family.declared name).result s = .ok (some type) := by rw [declares, found]
    have hlt := path.length_lt lawful hmem hdeclared
    cases hbase : family.baseType type with
    | none =>
      refine ⟨[(name, type)], none, .root found hbase, List.nodup_singleton _, ?_, nofun⟩
      intro v hv hname
      rw [List.mem_singleton.mp hname] at hv
      exact hmem hv
    | some base =>
      obtain ⟨chain, next, above, nodup, fresh, hnext⟩ :=
        exists_baseChain (path.up hmem hdeclared hbase)
      obtain ⟨hname, hvisiting⟩ := List.forall_mem_cons.mp fresh
      refine ⟨(name, type) :: chain, next, .up found hbase above, ?_, ?_, fun m hm => ?_⟩
      · exact List.nodup_cons.mpr ⟨hname, nodup⟩
      · intro v hv hmem'
        rcases List.mem_cons.mp hmem' with rfl | hmem'
        · exact hmem hv
        · exact hvisiting v hv hmem'
      · rw [chainNames_cons, List.mem_cons]
        have hback := hnext m hm
        rw [List.mem_cons] at hback
        tauto
termination_by s.chainBound - visiting.length
decreasing_by
  rw [List.length_cons]
  omega

omit lawful in
/-- A chain with an end is a type if each of its types can be completed on top of those above. -/
theorem Completes.exists_type (completes : family.Completes s Complete Is)
    {chain : List (QualifiedName × δ)} {next : Option QualifiedName}
    (h : BaseChain s declared? family.baseType name chain next) (hnext : next = none)
    (complete : Complete chain) : ∃ a, family.Resolves s name a ∧ Is chain a := by
  induction h with
  | stop => cases hnext
  | @root name type found noBase =>
    have hdeclared : (family.declared name).result s = .ok (some type) := by rw [declares, found]
    obtain ⟨a, hcompleted, his⟩ := completes.root name type complete
    exact ⟨a, ⟨0, .root hdeclared noBase hcompleted⟩, his⟩
  | @up name base type chain next found hasBase above ih =>
    have hdeclared : (family.declared name).result s = .ok (some type) := by rw [declares, found]
    have habove := completes.above (name, type) chain complete
    obtain ⟨b, ⟨n, hchain⟩, hbase⟩ := ih hnext habove
    obtain ⟨a, hcompleted, his⟩ := completes.up name type chain b habove hbase complete
    exact ⟨a, ⟨n + 1, .derived hdeclared hasBase hchain hcompleted⟩, his⟩

omit lawful in
/-- A declared type has been completed without base type, or on top of the type of its base type. -/
theorem resolves_cases {type : δ} (found : declared? name = some type) {a : α}
    (h : family.Resolves s name a) :
    (family.baseType type = none ∧ (family.complete name type none).result s = .ok a) ∨
      ∃ base b, family.baseType type = some base ∧ family.Resolves s (s.actualName base) b ∧
        (family.complete name type (some b)).result s = .ok a := by
  obtain ⟨n, chain⟩ := h
  cases chain with
  | root found' noBase completed =>
    simp only [declares, found, Except.ok.injEq, Option.some.injEq] at found'
    subst found'
    exact Or.inl ⟨noBase, completed⟩
  | derived found' hasBase above completed =>
    simp only [declares, found, Except.ok.injEq, Option.some.injEq] at found'
    subst found'
    exact Or.inr ⟨_, _, hasBase, ⟨_, above⟩, completed⟩

omit lawful in
/-- A name with a type has a chain each of whose types can be completed. -/
theorem Completes.complete (completes : family.Completes s Complete Is)
    {chain : List (QualifiedName × δ)} {next : Option QualifiedName}
    (h : BaseChain s declared? family.baseType name chain next) (hnext : next = none) {a : α}
    (hresolves : family.Resolves s name a) : Complete chain := by
  induction h generalizing a with
  | stop => cases hnext
  | @root name type found noBase =>
    rcases resolves_cases declares found hresolves with ⟨-, completed⟩ | ⟨base, b, hasBase, -⟩
    · exact completes.rootOnly name type a completed
    · simp [noBase] at hasBase
  | @up name base type chain next found hasBase above ih =>
    rcases resolves_cases declares found hresolves with
      ⟨noBase, -⟩ | ⟨base', b, hasBase', hb, completed⟩
    · simp [hasBase] at noBase
    · cases hasBase.symm.trans hasBase'
      have habove := ih hnext hb
      obtain ⟨b', ⟨k, hchain'⟩, his⟩ := completes.exists_type declares above hnext habove
      obtain ⟨n, hchain⟩ := hb
      obtain rfl : b' = b := (hchain'.unique hchain).2
      exact completes.upOnly name type chain b' a habove his completed

/-- Resolving a type by its real name comes to what its chain says. -/
theorem resolveFrom_decides (completes : family.Completes s Complete Is)
    (enough : s.chainBound ≤ bound) :
    BaseChain.Decides s declared? family.baseType family.context Complete Is name
      ((family.resolveFrom bound [] name).result s) where
  ends := by
    obtain ⟨chain, next, h, nodup, -, hnext⟩ :=
      exists_baseChain lawful declares .start
    refine ⟨chain, next, h, nodup, fun m hm => ?_⟩
    exact (hnext m hm).imp_left fun back => back.resolve_right List.not_mem_nil
  unknown := resolveFrom_of_unknown lawful declares .start
  cyclic chain m h nodup back :=
    resolveFrom_of_cyclic lawful declares h rfl .start enough nodup
      (fun _ hv => absurd hv List.not_mem_nil) (Or.inl back)
  unresolved chain m h apart unknown := by
    have ends : BaseChain.Ends declared? (some m) := by
      rintro _ ⟨⟩
      exact unknown
    exact resolveFrom_of_unresolved lawful declares h rfl unknown apart .start enough
      (h.nodup ends) fun _ hv => absurd hv List.not_mem_nil
  resolved chain h complete := by
    obtain ⟨a, hresolves, his⟩ := completes.exists_type declares h rfl complete
    have path : family.Path s [] name := .start
    exact ⟨a, ((resolveFrom_settled lawful bound path enough).2 a).mpr hresolves, his⟩
  incomplete chain h incomplete := by
    have path : family.Path s [] name := .start
    have hresult := (resolveFrom_settled lawful bound path enough).2
    cases hanswer : (family.resolveFrom bound [] name).result s with
    | error e => exact ⟨e, rfl⟩
    | ok answer =>
      cases answer with
      | some a => exact absurd (completes.complete declares h rfl ((hresult a).mp hanswer)) incomplete
      | none =>
        obtain ⟨type, found⟩ := h.exists_found
        exact absurd hanswer
          (resolveFrom_ne_none lawful declares .start enough List.not_mem_nil found)

/-- The bound on the recursion is never reached. -/
theorem resolveFrom_bound {visiting : List QualifiedName} {name : QualifiedName} {bound bound' : Nat}
    (path : family.Path s visiting name) (enough : s.chainBound ≤ bound + visiting.length)
    (enough' : s.chainBound ≤ bound' + visiting.length) :
    (family.resolveFrom bound visiting name).result s =
      (family.resolveFrom bound' visiting name).result s := by
  by_cases hmem : name ∈ visiting
  · rw [resolveFrom_of_mem hmem, resolveFrom_of_mem hmem]
  cases found : declared? name with
  | none =>
    rw [resolveFrom_of_unknown lawful declares path found,
      resolveFrom_of_unknown lawful declares path found]
  | some type =>
    have hdeclared : (family.declared name).result s = .ok (some type) := by rw [declares, found]
    have hlt := path.length_lt lawful hmem hdeclared
    obtain ⟨below, hbelow, hresult⟩ :=
      resolveFrom_of_declared lawful declares path enough hmem found
    obtain ⟨below', hbelow', hresult'⟩ :=
      resolveFrom_of_declared lawful declares path enough' hmem found
    rw [hresult, hresult']
    cases hbase : family.baseType type with
    | none => rfl
    | some base =>
      rw [baseResult, baseResult,
        resolveFrom_bound (path.up hmem hdeclared hbase) hbelow hbelow']
termination_by s.chainBound - visiting.length
decreasing_by
  rw [List.length_cons]
  omega

/-- Whatever a directory has resolved before, resolving a type on it comes to what its chain says, and
more room for the recursion changes nothing. -/
theorem resolve_decides (completes : family.Completes s Complete Is) {d : Directory}
    (hd : d.Consistent s) (n : QualifiedName) :
    BaseChain.Decides s declared? family.baseType family.context Complete Is (s.actualName n)
        ((family.resolve n).runOn d).1 ∧
      ∀ bound, s.chainBound ≤ bound →
        ((family.resolveFrom bound [] (s.actualName n)).runOn d).1 =
          ((family.resolve n).runOn d).1 := by
  rw [(resolve_settles lawful n d hd).1]
  refine ⟨resolveFrom_decides lawful declares completes (Nat.le_refl _), ?_⟩
  intro bound enough
  rw [((resolveFrom_settled lawful bound .start enough).1 d hd).1]
  exact resolveFrom_bound lawful declares .start enough (Nat.le_refl _)

end Results

end TypeFamily

end ODataRequest
