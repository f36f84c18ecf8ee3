import Mathlib.Data.List.Nodup
import Mathlib.Data.List.Perm.Basic
import ODataRequest.Directory.Schemas

/-!
# ODataRequest.Proofs.Grouping

Elements that are grouped by name: the groups in ascending order of the names, each group in the
order in which its elements stand in the original list. Taking the elements of one name after the
other, the names distinct and in ascending order, groups them so.
-/

namespace ODataRequest

variable {α κ : Type}

/-- A list with the same elements, each as often as before, grouped by name. -/
structure GroupedByName (nameOf : α → Identifier) (as grouped : List α) : Prop where
  perm : grouped.Perm as
  ascending : grouped.Pairwise fun a b => (nameOf a).text ≤ (nameOf b).text
  /-- Within a name, the order is kept. -/
  inOrder : ∀ id, grouped.filter (nameOf · == id) = as.filter (nameOf · == id)

/-- Lists whose parts of one key are equal, for any key, have the same elements. -/
theorem perm_of_filter_eq [BEq κ] [LawfulBEq κ] {key : α → κ} {as bs : List α}
    (h : ∀ k, as.filter (key · == k) = bs.filter (key · == k)) : as.Perm bs := by
  classical
  refine List.perm_iff_count.mpr fun a => ?_
  have hpart (cs : List α) : (cs.filter (key · == key a)).count a = cs.count a :=
    List.count_filter (beq_self_eq_true (key a))
  rw [← hpart as, h, hpart bs]

theorem nodup_eraseDups [BEq κ] [LawfulBEq κ] (ks : List κ) : ks.eraseDups.Nodup := by
  generalize hn : ks.length = n
  induction n using Nat.strongRecOn generalizing ks with
  | ind n ih =>
    cases ks with
    | nil => exact List.nodup_nil
    | cons k ks =>
      have hlength : (ks.filter fun x => !x == k).length < n := by
        rw [← hn]
        exact Nat.lt_succ_of_le (List.length_filter_le _ _)
      rw [List.eraseDups_cons]
      refine List.nodup_cons.mpr ⟨fun hmem => ?_, ih _ hlength _ rfl⟩
      simp at hmem

/-! ### Distinct names -/

theorem nodup_distinctAscending (ids : List Identifier) : (distinctAscending ids).Nodup :=
  (List.mergeSort_perm _ _).nodup_iff.mpr (nodup_eraseDups ids)

theorem mem_distinctAscending {ids : List Identifier} {id : Identifier} :
    id ∈ distinctAscending ids ↔ id ∈ ids := by
  unfold distinctAscending
  rw [(List.mergeSort_perm _ _).mem_iff, List.mem_eraseDups]

theorem pairwise_distinctAscending (ids : List Identifier) :
    (distinctAscending ids).Pairwise fun a b => a.text ≤ b.text := by
  have htrans : ∀ a b c : Identifier, decide (a.text ≤ b.text) = true →
      decide (b.text ≤ c.text) = true → decide (a.text ≤ c.text) = true := by
    intro a b c hab hbc
    exact decide_eq_true (String.le_trans (of_decide_eq_true hab) (of_decide_eq_true hbc))
  have htotal : ∀ a b : Identifier,
      (decide (a.text ≤ b.text) || decide (b.text ≤ a.text)) = true := by
    intro a b
    rcases String.le_total a.text b.text with h | h <;> simp [h]
  exact (List.pairwise_mergeSort htrans htotal _).imp of_decide_eq_true

/-! ### Groups -/

/-- Of the groups of distinct keys, only the one of a key has elements with that key. -/
theorem filter_flatMap_filter [BEq κ] [LawfulBEq κ] (key : α → κ) (as : List α) {ks : List κ}
    (hdistinct : ks.Nodup) (k : κ) :
    (ks.flatMap fun k' => as.filter (key · == k')).filter (key · == k) =
      if k ∈ ks then as.filter (key · == k) else [] := by
  have hother {k' : κ} (hne : k' ≠ k) :
      (as.filter (key · == k')).filter (key · == k) = [] := by
    refine List.filter_eq_nil_iff.mpr fun a ha hk => ?_
    have hk' := (List.mem_filter.mp ha).2
    rw [beq_iff_eq] at hk hk'
    exact hne (hk'.symm.trans hk)
  induction ks with
  | nil => rfl
  | cons k' ks ih =>
    obtain ⟨hk', hks⟩ := List.nodup_cons.mp hdistinct
    rw [List.flatMap_cons, List.filter_append, ih hks]
    by_cases heq : k' = k
    · subst heq
      rw [if_neg hk', List.append_nil, List.filter_filter, if_pos List.mem_cons_self]
      simp only [Bool.and_self]
    · rw [hother heq, List.nil_append]
      simp [Ne.symm heq]

/-- The elements of one name after the other. -/
def inGroups (nameOf : α → Identifier) (as : List α) : List α :=
  (distinctAscending (as.map nameOf)).flatMap fun id => as.filter (nameOf · == id)

theorem inGroups_grouped (nameOf : α → Identifier) (as : List α) :
    GroupedByName nameOf as (inGroups nameOf as) := by
  have hparts (id : Identifier) :
      (inGroups nameOf as).filter (nameOf · == id) = as.filter (nameOf · == id) := by
    unfold inGroups
    rw [filter_flatMap_filter nameOf as (nodup_distinctAscending _)]
    split
    · rfl
    · rename_i hid
      rw [mem_distinctAscending] at hid
      refine (List.filter_eq_nil_iff.mpr fun a ha hname => ?_).symm
      exact hid (List.mem_map.mpr ⟨a, ha, beq_iff_eq.mp hname⟩)
  refine ⟨perm_of_filter_eq hparts, ?_, hparts⟩
  have hname {id : Identifier} {a : α} (ha : a ∈ as.filter (nameOf · == id)) : nameOf a = id :=
    beq_iff_eq.mp (List.mem_filter.mp ha).2
  refine List.pairwise_flatMap.mpr ⟨fun id _ => ?_, ?_⟩
  · refine List.pairwise_of_forall_mem_list fun a ha b hb => ?_
    have hsame : nameOf a = nameOf b := (hname ha).trans (hname hb).symm
    exact hsame ▸ String.le_refl _
  · refine (pairwise_distinctAscending _).imp fun hle a ha b hb => ?_
    rw [hname ha, hname hb]
    exact hle

end ODataRequest
