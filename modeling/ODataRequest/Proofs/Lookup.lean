import Mathlib.Data.List.Forall2
import Mathlib.Data.List.Nodup

/-!
# ODataRequest.Proofs.Lookup

Look-ups in lists whose elements have distinct keys. An element is found by its key wherever it
stands, so the order of the list does not matter. A relation between two lists, element by element,
gives each element of one list its counterpart in the other.
-/

namespace ODataRequest

variable {α β κ : Type}

/-- Among elements with distinct keys, the one of a key is the member with this key. -/
theorem find?_key_eq_some [BEq κ] [LawfulBEq κ] {key : α → κ} {as : List α}
    (hdistinct : (as.map key).Nodup) {k : κ} {a : α} :
    as.find? (key · == k) = some a ↔ a ∈ as ∧ key a = k := by
  constructor
  · intro h
    exact ⟨List.mem_of_find?_eq_some h, by simpa using List.find?_some h⟩
  · rintro ⟨hmem, rfl⟩
    cases hfind : as.find? (key · == key a) with
    | none =>
      have hnone := List.find?_eq_none.mp hfind a hmem
      simp at hnone
    | some b =>
      have hkey : key b = key a := by simpa using List.find?_some hfind
      rw [List.inj_on_of_nodup_map hdistinct (List.mem_of_find?_eq_some hfind) hmem hkey]

/-- Elements with distinct keys are found in any order. -/
theorem find?_key_perm [BEq κ] [LawfulBEq κ] {key : α → κ} {as as' : List α}
    (hperm : as.Perm as') (hdistinct : (as.map key).Nodup) (k : κ) :
    as'.find? (key · == k) = as.find? (key · == k) := by
  have hdistinct' := (hperm.map key).nodup_iff.mp hdistinct
  ext a
  rw [find?_key_eq_some hdistinct, find?_key_eq_some hdistinct', hperm.mem_iff]

/-- A key is looked up with success if it is one of the keys. -/
theorem isSome_lookup [BEq κ] [LawfulBEq κ] {pairs : List (κ × β)} {k : κ} :
    (pairs.lookup k).isSome = true ↔ k ∈ pairs.map (·.1) := by
  induction pairs with
  | nil => simp
  | cons pair pairs ih =>
    rw [List.lookup_cons, List.map_cons, List.mem_cons, ← ih]
    by_cases hk : k = pair.1
    · simp [hk]
    · simp [hk, beq_eq_false_iff_ne.mpr hk]

/-! ### Counterparts -/

/-- If each element has a value, there is a list of values. -/
theorem exists_forall₂ {R : α → β → Prop} {as : List α}
    (h : ∀ a ∈ as, ∃ b, R a b) : ∃ bs, List.Forall₂ R as bs := by
  induction as with
  | nil => exact ⟨[], .nil⟩
  | cons a as ih =>
    obtain ⟨ha, has⟩ := List.forall_mem_cons.mp h
    obtain ⟨b, hb⟩ := ha
    obtain ⟨bs, hbs⟩ := ih has
    exact ⟨b :: bs, .cons hb hbs⟩

theorem exists_left_of_forall₂ {R : α → β → Prop} {as : List α} {bs : List β}
    (h : List.Forall₂ R as bs) {b : β} (hb : b ∈ bs) : ∃ a ∈ as, R a b := by
  induction h with
  | nil => cases hb
  | @cons a b' as bs hab _ ih =>
    rcases List.mem_cons.mp hb with rfl | hb
    · exact ⟨a, List.mem_cons_self, hab⟩
    · obtain ⟨a', ha', hab'⟩ := ih hb
      exact ⟨a', List.mem_cons_of_mem a ha', hab'⟩

theorem exists_right_of_forall₂ {R : α → β → Prop} {as : List α} {bs : List β}
    (h : List.Forall₂ R as bs) {a : α} (ha : a ∈ as) : ∃ b ∈ bs, R a b :=
  exists_left_of_forall₂ h.flip ha

/-- What is found for each element is its counterpart. -/
theorem forall₂_filterMap {R : α → β → Prop} {f : α → Option β} {as : List α}
    (h : ∀ a ∈ as, ∃ b, f a = some b ∧ R a b) : List.Forall₂ R as (as.filterMap f) := by
  induction as with
  | nil => exact .nil
  | cons a as ih =>
    obtain ⟨b, hb, hab⟩ := h a List.mem_cons_self
    rw [List.filterMap_cons_some hb]
    exact .cons hab (ih fun a' ha' => h a' (List.mem_cons_of_mem a ha'))

end ODataRequest
