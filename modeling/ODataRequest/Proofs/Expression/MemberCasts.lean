import ODataRequest.Proofs.Expression.MemberShape
import ODataRequest.Proofs.Path.Keyed

/-!
# ODataRequest.Proofs.Expression.MemberCasts

Casts in the paths of accepted expressions. A cast is checked against the type that the casts before
it have left. In an expression a resource is cast once at most: its key, if it has one, stands right
behind its name, so all its casts fill the same slot (`Resource.CastOnce`), and the type that a cast is
checked against is the declared one (`castsDerive_rule`).
-/

namespace ODataRequest

open TokenReader

variable {answers : Answers} {scope : Scope}

/-! ### Casts of resources -/

namespace Resource

/-- The type of a resource without its casts. -/
def declaredType? (r : Resource) : Option ModelType :=
  (r.withCasts Casts.none).type?

/-- What the resource is cast to, as a collection or as a single value, is its declared type or a type
derived from it. -/
def CastsDerive (r : Resource) : Prop :=
  ∀ isCollection cast, r.casts.slot isCollection = some cast →
    ∃ declared, r.declaredType? = some declared ∧ cast.isEntity = declared.isEntity ∧
      derivesFrom cast declared = true

/-- The resource is cast at most as what it stands for, a collection or a single value. -/
structure CastOnce (r : Resource) : Prop where
  other : r.casts.slot (!r.isCollection) = none
  derive : r.CastsDerive

variable {r narrowed : Resource} {type : ModelType}

@[simp] theorem withCasts_casts : r.withCasts r.casts = r := by
  cases r <;> rfl

@[simp] theorem declaredType?_withCasts (casts : Casts) :
    (r.withCasts casts).declaredType? = r.declaredType? := by
  cases r <;> rfl

theorem CastOnce.of_plain (h : r.casts = Casts.none) : r.CastOnce where
  other := by
    rw [h]
    cases r.isCollection <;> rfl
  derive := by
    intro isCollection cast hcast
    rw [h] at hcast
    cases isCollection <;> cases hcast

theorem casts_eq_none {casts : Casts} {isCollection : Bool} (h : casts.slot isCollection = none)
    (hother : casts.slot (!isCollection) = none) : casts = Casts.none := by
  obtain ⟨onCollection, onEntry⟩ := casts
  cases isCollection <;> simp_all [Casts.slot, Casts.none]

theorem slot_add_none (isCollection slot : Bool) :
    (Casts.none.add isCollection type).slot slot = if slot = isCollection then some type else none := by
  cases isCollection <;> cases slot <;> rfl

/-- A resource that is cast has not been cast before, so the new cast is checked against its declared
type. -/
theorem CastOnce.cast (h : r.CastOnce) (hcast : r.cast type = .ok narrowed) :
    narrowed.CastOnce := by
  obtain ⟨rfl, htakes, hslot, current, hcurrent, hderives⟩ := cast_eq_ok hcast
  have hnone : r.casts = Casts.none := casts_eq_none hslot h.other
  have hdeclared : r.declaredType? = some current := by
    rw [← hcurrent, declaredType?, ← hnone, withCasts_casts]
  have hcasts : (r.withCasts (r.casts.add r.isCollection type)).casts =
      Casts.none.add r.isCollection type := by
    rw [casts_withCasts_add htakes, hnone]
  constructor
  · rw [hcasts, isCollection_withCasts, slot_add_none]
    simp
  · intro isCollection cast hcast
    rw [hcasts, slot_add_none] at hcast
    split at hcast
    · cases hcast
      exact ⟨current, by rw [declaredType?_withCasts, hdeclared], hderives⟩
    · cases hcast

end Resource

/-! ### Steps -/

theorem castOnce_of_root {aliases : AliasTable} {source : String} {ts rest : List Token} {r : Resource}
    (h : Reads answers (rootResource aliases) source ts r rest) : r.CastOnce := by
  obtain ⟨set, type, keys, rfl⟩ | ⟨single, type, rfl⟩ := exists_of_reads_rootResource h
  · exact .of_plain rfl
  · exact .of_plain rfl

/-- Each step keeps that no resource of the path is cast twice: it adds a resource without casts, or it
casts the last one. -/
theorem castOnce_memberStep {Body : Scope → Expression → Prop} {p p' : MemberPosition}
    (h : ∀ r ∈ p.steps, r.CastOnce) (hstep : MemberStep answers Body scope p p') :
    ∀ r ∈ p'.steps, r.CastOnce := by
  have hpush : ∀ {added : Resource}, added.CastOnce → ∀ r ∈ added :: p.steps, r.CastOnce :=
    fun hadded => List.forall_mem_cons.mpr ⟨hadded, h⟩
  cases hstep with
  | it | count | lambdaVariable | notEmpty | lambda => exact hpush (.of_plain rfl)
  | property hproperty =>
    obtain ⟨type, -, -, -, hcasts⟩ := gives_propertyMember hproperty
    exact hpush (.of_plain hcasts)
  | root _ hroot => exact hpush (castOnce_of_root hroot)
  | joined _ hjoined =>
    obtain ⟨set, type, keys, rfl, -⟩ := exists_of_reads_joinedResource hjoined
    exact hpush (.of_plain rfl)
  | function hfunction =>
    obtain ⟨f, raw, arguments, returnType, -, -, rfl⟩ := memberFunction_cases hfunction
    exact hpush (.of_plain rfl)
  | narrow cast =>
    cases castMember_effect cast with
    | start => exact nofun
    | last hcast =>
      obtain ⟨hlast, hearlier⟩ := List.forall_mem_cons.mp h
      exact List.forall_mem_cons.mpr ⟨hlast.cast hcast, hearlier⟩

/-- All casts in an accepted expression derive from what they cast. -/
theorem castsDerive_rule :
    ReadingRule answers (fun _ => True)
      fun _ e => e.Members fun _ path => ∀ r ∈ path, r.CastsDerive := by
  refine membersRule (Q := fun _ _ _ path => ∀ r ∈ path, r.CastsDerive) fun h => ?_
  have hsteps := h.rule (fun p => ∀ r ∈ p.steps, r.CastOnce) (fun _ _ => castOnce_memberStep) nofun
  intro r hr
  exact (hsteps r (List.mem_reverse.mp hr)).derive

end ODataRequest
