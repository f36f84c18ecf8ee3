import Mathlib.Data.List.Perm.Subperm
import ODataRequest.Proofs.Directory.Names
import ODataRequest.Proofs.Except

/-!
# ODataRequest.Proofs.Directory.Inheritance

Types with base types in a directory. Resolving a type goes up its chain of base types with the list
of types that it is resolving; a type that is already stored cuts this short. Both ways come to the
same type, which is the one of `TypeFamily.Chain`:

* the types in the list are those that have led to the current one (`TypeFamily.Path`), so a type
  whose chain ends is never among them (`Chain.not_mem_path`): the number of base types falls by one
  with each step;
* they are distinct, and declared types are found by them, so there are no more of them than names that
  types are found by, and the bound on the recursion is never reached.

`resolveFrom_settled` puts the two together for any family of types of which the requests and the
completion are settled.
-/

namespace ODataRequest.TypeFamily

open InDirectory

variable {δ α : Type} {family : TypeFamily δ α} {s : Source}

/-! ### Chains -/

/-- A name has one chain, and one type. -/
theorem Chain.unique {n m : Nat} {name : QualifiedName} {a b : α} (ha : family.Chain s n name a)
    (hb : family.Chain s m name b) : n = m ∧ a = b := by
  induction ha generalizing m b with
  | root found noBase completed =>
    cases hb with
    | root found' _ completed' =>
      rw [found] at found'
      cases found'
      exact ⟨rfl, by simpa using completed.symm.trans completed'⟩
    | derived found' hasBase =>
      rw [found] at found'
      cases found'
      rw [noBase] at hasBase
      cases hasBase
  | derived found hasBase _ completed ih =>
    cases hb with
    | root found' noBase =>
      rw [found] at found'
      cases found'
      rw [noBase] at hasBase
      cases hasBase
    | derived found' hasBase' above' completed' =>
      rw [found] at found'
      cases found'
      rw [hasBase] at hasBase'
      cases hasBase'
      obtain ⟨rfl, rfl⟩ := ih above'
      exact ⟨rfl, by simpa using completed.symm.trans completed'⟩

/-- The types of a list that have led, one base type after the other, to a name. -/
inductive Path (family : TypeFamily δ α) (s : Source) : List QualifiedName → QualifiedName → Prop
  | start {name : QualifiedName} : Path family s [] name
  | up {visiting : List QualifiedName} {name base : QualifiedName} {declared : δ}
      (below : Path family s visiting name) (fresh : name ∉ visiting)
      (found : (family.declared name).result s = .ok (some declared))
      (hasBase : family.baseType declared = some base) :
      Path family s (name :: visiting) (s.actualName base)

theorem Path.nodup {visiting : List QualifiedName} {name : QualifiedName}
    (h : family.Path s visiting name) : visiting.Nodup := by
  induction h with
  | start => exact List.nodup_nil
  | up _ fresh _ _ ih => exact List.nodup_cons.mpr ⟨fresh, ih⟩

/-- The types on a path are declared ones. -/
theorem Path.declared {visiting : List QualifiedName} {name : QualifiedName}
    (h : family.Path s visiting name) :
    ∀ v ∈ visiting, ∃ declared, (family.declared v).result s = .ok (some declared) := by
  induction h with
  | start => simp
  | up _ _ found _ ih => exact List.forall_mem_cons.mpr ⟨⟨_, found⟩, ih⟩

/-- Whoever is on the path to a name has more base types than the name. -/
theorem Path.chain_of_mem {visiting : List QualifiedName} {name v : QualifiedName} {n : Nat} {a : α}
    (h : family.Path s visiting name) (hv : v ∈ visiting) (hc : family.Chain s n v a) :
    ∃ m b, family.Chain s m name b ∧ m < n := by
  induction h with
  | start => simp at hv
  | @up visiting name base declared below fresh found hasBase ih =>
    have step : ∀ {k : Nat} {c : α}, family.Chain s k name c →
        ∃ m b, family.Chain s m (s.actualName base) b ∧ m < k := by
      intro k c hk
      cases hk with
      | root found' noBase =>
        rw [found] at found'
        cases found'
        rw [hasBase] at noBase
        cases noBase
      | derived found' hasBase' above =>
        rw [found] at found'
        cases found'
        rw [hasBase] at hasBase'
        cases hasBase'
        exact ⟨_, _, above, Nat.lt_succ_self _⟩
    rcases List.mem_cons.mp hv with rfl | hv
    · exact step hc
    · obtain ⟨k, c, hk, hlt⟩ := ih hv
      obtain ⟨m, b, hm, hlt'⟩ := step hk
      exact ⟨m, b, hm, Nat.lt_trans hlt' hlt⟩

/-- A type whose chain ends is not on the path to itself. -/
theorem Chain.not_mem_path {visiting : List QualifiedName} {name : QualifiedName} {n : Nat} {a : α}
    (hc : family.Chain s n name a) (h : family.Path s visiting name) : name ∉ visiting := by
  intro hmem
  obtain ⟨m, b, hm, hlt⟩ := h.chain_of_mem hmem hc
  exact absurd (hm.unique hc).1 (Nat.ne_of_lt hlt)

/-! ### Resolving -/

/-- What a family of types needs to be resolved in the same way on every directory: its store holds
the types of the chains, its requests and its completion are settled, and its types are found by no more
names than the bound of the recursion allows for. -/
structure Lawful (family : TypeFamily δ α) (s : Source) : Prop where
  keeps : family.store.Keeps s (family.Resolves s)
  declared : ∀ name, Settled s (family.declared name)
  complete : ∀ name declared base, Settled s (family.complete name declared base)
  finite : ∃ names : List QualifiedName, names.length < s.chainBound ∧
    ∀ name declared, (family.declared name).result s = .ok (some declared) → name ∈ names

/-- A path with a declared type at its end is shorter than the bound. -/
theorem Path.length_lt (lawful : family.Lawful s)
    {visiting : List QualifiedName} {name : QualifiedName} {declared : δ}
    (h : family.Path s visiting name) (fresh : name ∉ visiting)
    (found : (family.declared name).result s = .ok (some declared)) :
    visiting.length + 1 < s.chainBound := by
  obtain ⟨all, hlen, hall⟩ := lawful.finite
  have hsub : name :: visiting ⊆ all := by
    intro v hv
    rcases List.mem_cons.mp hv with rfl | hv
    · exact hall v declared found
    · obtain ⟨d, hd⟩ := h.declared v hv
      exact hall v d hd
  have hnodup : (name :: visiting).Nodup := List.nodup_cons.mpr ⟨fresh, h.nodup⟩
  exact Nat.lt_of_le_of_lt (List.subperm_of_subset hnodup hsub).length_le hlen

/-- What looking up a base type gives if the names of types are looked up by `find`. -/
def baseResult (s : Source) (find : QualifiedName → Except DirectoryError (Option α)) :
    Option QualifiedName → Except DirectoryError (Option α)
  | none => .ok none
  | some base => do
    match ← find (s.actualName base) with
    | some type => .ok (some type)
    | none => .error (.unresolvedType (s.actualName base))

/-- What loading a type gives if the names of types are looked up by `find`. -/
def loadResult (family : TypeFamily δ α) (s : Source)
    (find : QualifiedName → Except DirectoryError (Option α)) (name : QualifiedName) :
    Except DirectoryError (Option α) := do
  match ← (family.declared name).result s with
  | none => .ok none
  | some declared =>
    Except.mapError (family.context name) do
      let base ← baseResult s find (family.baseType declared)
      let type ← (family.complete name declared base).result s
      return some type

theorem resolveBase_settles {find : QualifiedName → InDirectory (Option α)}
    {found : QualifiedName → Except DirectoryError (Option α)} {base : Option QualifiedName}
    (hfind : ∀ name, base = some name →
      Settles s (find (s.actualName name)) (found (s.actualName name))) :
    Settles s (resolveBase find base) (baseResult s found base) := by
  cases base with
  | none => exact .pure none
  | some name =>
    refine (resolveAlias_settles name).bind_ok ?_
    refine (hfind name rfl).bind fun type _ => ?_
    cases type with
    | none => exact .throw _
    | some type => exact .pure _

/-- Loading a type settles if looking up its base type does. -/
theorem load_settles (lawful : family.Lawful s) {name : QualifiedName}
    {find : QualifiedName → InDirectory (Option α)}
    {found : QualifiedName → Except DirectoryError (Option α)}
    (hfind : ∀ declared base, (family.declared name).result s = .ok (some declared) →
      family.baseType declared = some base →
      Settles s (find (s.actualName base)) (found (s.actualName base))) :
    Settles s (family.load name find) (family.loadResult s found name) := by
  refine Settles.bind (lawful.declared name) fun o ho => ?_
  cases o with
  | none => exact .pure none
  | some declared =>
    refine Settles.inContext _ (Settles.bind ?_ fun base _ => ?_)
    · exact resolveBase_settles fun base hbase => hfind declared base ho hbase
    · exact Settles.bind (lawful.complete name declared base) fun type _ => .pure (some type)

theorem loadResult_eq_ok_iff_completed {name : QualifiedName} {a : α}
    {find : QualifiedName → Except DirectoryError (Option α)} :
    family.loadResult s find name = .ok (some a) ↔
      ∃ declared base, (family.declared name).result s = .ok (some declared) ∧
        baseResult s find (family.baseType declared) = .ok base ∧
        (family.complete name declared base).result s = .ok a := by
  unfold loadResult
  rw [except_bind_eq_ok]
  constructor
  · rintro ⟨_ | declared, hd, h⟩
    · cases h
    · simp only [except_mapError_eq_ok, except_bind_eq_ok, except_pure] at h
      obtain ⟨base, hb, type, hc, h⟩ := h
      cases h
      exact ⟨declared, base, hd, hb, hc⟩
  · rintro ⟨declared, base, hd, hb, hc⟩
    exact ⟨some declared, hd, by simp [hb, hc]⟩

theorem baseResult_eq_ok_iff {find : QualifiedName → Except DirectoryError (Option α)}
    {name : Option QualifiedName} {base : Option α} :
    baseResult s find name = .ok base ↔
      (name = none ∧ base = none) ∨
        ∃ n a, name = some n ∧ base = some a ∧ find (s.actualName n) = .ok (some a) := by
  cases name with
  | none => simp [baseResult, eq_comm]
  | some n =>
    unfold baseResult
    rw [except_bind_eq_ok]
    constructor
    · rintro ⟨_ | a, hf, h⟩
      · cases h
      · cases h
        exact Or.inr ⟨n, a, rfl, rfl, hf⟩
    · rintro (⟨h, -⟩ | ⟨n', a, h, rfl, hf⟩)
      · cases h
      · cases h
        exact ⟨some a, hf, rfl⟩

/-- A type is loaded if and only if it has a chain, as long as this holds of its base type. -/
theorem loadResult_eq_ok_iff {name : QualifiedName}
    {find : QualifiedName → Except DirectoryError (Option α)}
    (hfind : ∀ declared base, (family.declared name).result s = .ok (some declared) →
      family.baseType declared = some base → ∀ a,
        find (s.actualName base) = .ok (some a) ↔ family.Resolves s (s.actualName base) a)
    (a : α) : family.loadResult s find name = .ok (some a) ↔ family.Resolves s name a := by
  rw [loadResult_eq_ok_iff_completed]
  constructor
  · rintro ⟨declared, base, hd, hb, hc⟩
    rcases baseResult_eq_ok_iff.mp hb with ⟨hnone, rfl⟩ | ⟨b, baseType, hsome, rfl, hf⟩
    · exact ⟨0, .root hd hnone hc⟩
    · obtain ⟨n, above⟩ := (hfind declared b hd hsome baseType).mp hf
      exact ⟨n + 1, .derived hd hsome above hc⟩
  · rintro ⟨n, chain⟩
    cases chain with
    | root found noBase completed =>
      exact ⟨_, none, found, baseResult_eq_ok_iff.mpr (Or.inl ⟨noBase, rfl⟩), completed⟩
    | derived found hasBase above completed =>
      have hf := (hfind _ _ found hasBase _).mpr ⟨_, above⟩
      exact ⟨_, _, found, baseResult_eq_ok_iff.mpr (Or.inr ⟨_, _, hasBase, rfl, hf⟩), completed⟩

/-- A type is remembered as it is loaded, as long as its base type is found as its chain says. -/
theorem remembered_load_settles (lawful : family.Lawful s) {name : QualifiedName}
    {find : QualifiedName → InDirectory (Option α)}
    (hfind : ∀ declared base, (family.declared name).result s = .ok (some declared) →
      family.baseType declared = some base →
      Settled s (find (s.actualName base)) ∧ ∀ a,
        (find (s.actualName base)).result s = .ok (some a) ↔
          family.Resolves s (s.actualName base) a) :
    Settles s (family.store.remembered name (family.load name find))
        (family.loadResult s (fun n => (find n).result s) name) ∧
      ∀ a, family.loadResult s (fun n => (find n).result s) name = .ok (some a) ↔
        family.Resolves s name a := by
  have hload : Settles s (family.load name find)
      (family.loadResult s (fun n => (find n).result s) name) :=
    load_settles lawful fun declared base hd hb => (hfind declared base hd hb).1
  have hiff : ∀ a, family.loadResult s (fun n => (find n).result s) name = .ok (some a) ↔
      family.Resolves s name a :=
    loadResult_eq_ok_iff fun declared base hd hb => (hfind declared base hd hb).2
  have hstored := remembered_settles lawful.keeps hload.settled fun a => by
    rw [hload.result_eq]
    exact (hiff a).symm
  rw [hload.result_eq] at hstored
  exact ⟨hstored, hiff⟩

theorem remembered_load_settled (lawful : family.Lawful s) {name : QualifiedName}
    {find : QualifiedName → InDirectory (Option α)}
    (hfind : ∀ declared base, (family.declared name).result s = .ok (some declared) →
      family.baseType declared = some base →
      Settled s (find (s.actualName base)) ∧ ∀ a,
        (find (s.actualName base)).result s = .ok (some a) ↔
          family.Resolves s (s.actualName base) a) :
    Settled s (family.store.remembered name (family.load name find)) ∧ ∀ a,
      (family.store.remembered name (family.load name find)).result s = .ok (some a) ↔
        family.Resolves s name a := by
  obtain ⟨hstored, hiff⟩ := remembered_load_settles lawful hfind
  refine ⟨hstored.settled, fun a => ?_⟩
  rw [hstored.result_eq]
  exact hiff a

/-- Resolving a type while those on a path to it are being resolved is settled, and comes to the
type of its chain. -/
theorem resolveFrom_settled (lawful : family.Lawful s) (bound : Nat)
    {visiting : List QualifiedName} {name : QualifiedName} (path : family.Path s visiting name)
    (enough : s.chainBound ≤ bound + visiting.length) :
    Settled s (family.resolveFrom bound visiting name) ∧ ∀ a,
      (family.resolveFrom bound visiting name).result s = .ok (some a) ↔
        family.Resolves s name a := by
  induction bound generalizing visiting name with
  | zero =>
    rw [resolveFrom_zero]
    by_cases hmem : visiting.contains name = true
    · rw [if_pos hmem]
      refine ⟨.throw _, fun a => ⟨nofun, fun ⟨n, chain⟩ => ?_⟩⟩
      exact absurd (List.contains_iff_mem.mp hmem) (chain.not_mem_path path)
    · rw [if_neg hmem]
      refine remembered_load_settled lawful fun declared base hd hb => ?_
      -- a declared type at the end of so long a path would be one type too many
      have hlt := path.length_lt lawful (fun h => hmem (List.contains_iff_mem.mpr h)) hd
      omega
  | succ bound ih =>
    rw [resolveFrom_succ]
    by_cases hmem : visiting.contains name = true
    · rw [if_pos hmem]
      refine ⟨.throw _, fun a => ⟨nofun, fun ⟨n, chain⟩ => ?_⟩⟩
      exact absurd (List.contains_iff_mem.mp hmem) (chain.not_mem_path path)
    · rw [if_neg hmem]
      refine remembered_load_settled lawful fun declared base hd hb => ?_
      refine ih (path.up (fun h => hmem (List.contains_iff_mem.mpr h)) hd hb) ?_
      rw [List.length_cons]
      omega

/-- Resolving a name is resolving its real name, while nothing else is being resolved. -/
theorem resolve_settles (lawful : family.Lawful s) (name : QualifiedName) :
    Settles s (family.resolve name)
      ((family.resolveFrom s.chainBound [] (s.actualName name)).result s) := by
  refine (resolveAlias_settles name).bind_ok (Settles.readDirectory fun d hd => ?_)
  rw [hd.source]
  exact (resolveFrom_settled lawful s.chainBound .start (Nat.le_refl _)).1

/-- Resolving a type is settled, and comes to the type of its chain. -/
theorem resolve_settled (lawful : family.Lawful s) (name : QualifiedName) :
    Settled s (family.resolve name) ∧ ∀ a,
      (family.resolve name).result s = .ok (some a) ↔
        family.Resolves s (s.actualName name) a := by
  have hall := resolve_settles lawful name
  refine ⟨hall.settled, fun a => ?_⟩
  rw [hall.result_eq]
  exact (resolveFrom_settled lawful s.chainBound .start (Nat.le_refl _)).2 a

end ODataRequest.TypeFamily
