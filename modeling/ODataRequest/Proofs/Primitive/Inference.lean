import ODataRequest.Proofs.Primitive.Forms

/-!
# ODataRequest.Proofs.Primitive.Inference

Values that are inferred from texts (`PrimitiveValue.infer?_agrees`). Such a value is the one that
the text has as a literal of its type, and an integer is of the first type that holds it. The forms
of literals are tried in an order; since no text has two of them, any order would do.
-/

namespace ODataRequest

namespace IntegerKind

/-- The integer types in the order in which they are tried. -/
def inOrder : List IntegerKind :=
  [.sbyte, .byte, .int16, .int32, .int64]

/-- The integer types that are tried before one. -/
def before (k : IntegerKind) : List IntegerKind :=
  inOrder.takeWhile (· != k)

end IntegerKind

namespace PrimitiveValue

/-- What a value says about the text that it has been inferred from. -/
structure InferredFrom (text : String) (v : PrimitiveValue) : Prop where
  null : v.kind? = none → text = "null"
  valid : ∀ kind, v.kind? = some kind → kind.validate text = .ok v
  narrowest : ∀ k, v.kind? = some (.integer k) → ∀ smaller ∈ k.before,
    (PrimitiveKind.integer smaller).validate text = .error ⟨.integer smaller, text⟩

theorem InferredFrom.of_null : InferredFrom "null" .null where
  null _ := rfl
  valid _ h := by cases h
  narrowest _ h := by cases h

theorem InferredFrom.of_read? {kind : PrimitiveKind} {text : String} {v : PrimitiveValue}
    (hnull : text ≠ "null") (h : read? kind text.toList = some v)
    (hsmaller : ∀ k, kind = .integer k → ∀ smaller ∈ k.before,
      integer? smaller text.toList = none) : InferredFrom text v where
  null hnone := by
    rw [kind?_of_read? h] at hnone
    cases hnone
  valid kind' hkind := by
    rw [kind?_of_read? h] at hkind
    cases hkind
    exact PrimitiveKind.validate_eq_ok_iff.mpr (Or.inr ⟨hnull, h⟩)
  narrowest k hkind smaller hmem := by
    rw [kind?_of_read? h] at hkind
    have hnone : read? (.integer smaller) text.toList = none :=
      hsmaller k (Option.some.inj hkind) smaller hmem
    unfold PrimitiveKind.validate
    rw [if_neg hnull, hnone]

/-- A type that holds no integers asks for no smaller one. -/
theorem InferredFrom.of_read?_other {kind : PrimitiveKind} {text : String} {v : PrimitiveValue}
    (hnull : text ≠ "null") (hkind : kind.isInteger = false)
    (h : read? kind text.toList = some v) : InferredFrom text v := by
  refine InferredFrom.of_read? hnull h ?_
  rintro k rfl
  cases hkind

/-- An integer is read as the first type that holds it. -/
theorem InferredFrom.of_inferNumber? {text : String} {v : PrimitiveValue} (hnull : text ≠ "null")
    (h : inferNumber? text.toList = some v) : InferredFrom text v := by
  unfold inferNumber? at h
  rcases Option.or_eq_some_iff.mp h with hinteger | ⟨-, hother⟩
  · obtain ⟨front, k, behind, horder, hk, hfront⟩ := List.findSome?_eq_some_iff.mp hinteger
    have hread : read? (.integer k) text.toList = some v := hk
    refine InferredFrom.of_read? hnull hread ?_
    intro k' hk' smaller hmem
    cases hk'
    have hbefore : k.before = front := by
      have hne : ∀ x ∈ front, (x != k) = true := by
        intro x hx
        rw [bne_iff_ne]
        rintro rfl
        rw [hfront x hx] at hk
        cases hk
      show List.takeWhile (· != k) [.sbyte, .byte, .int16, .int32, .int64] = front
      rw [horder, List.takeWhile_append_of_pos hne, List.takeWhile_cons_of_neg (by simp),
        List.append_nil]
    exact hfront smaller (hbefore ▸ hmem)
  · split at hother
    · exact InferredFrom.of_read?_other hnull rfl hother
    · exact InferredFrom.of_read?_other hnull rfl hother

theorem inferredFrom_of_infer? {text : String} {v : PrimitiveValue}
    (h : infer? text.toList = some v) : InferredFrom text v := by
  unfold infer? at h
  split at h
  · rename_i hnull
    cases h
    rw [String.toList_inj.mp hnull]
    exact InferredFrom.of_null
  · rename_i hchars
    have hnull : text ≠ "null" := fun heq => hchars (heq ▸ rfl)
    split at h
    · rename_i b hb
      have hread : read? .boolean text.toList = some v := by rw [← h, read?, hb]; rfl
      exact InferredFrom.of_read?_other hnull rfl hread
    split at h
    · exact InferredFrom.of_read?_other hnull rfl h
    split at h
    · exact InferredFrom.of_read?_other hnull rfl h
    split at h
    · exact InferredFrom.of_read?_other hnull rfl h
    · rcases Option.or_eq_some_iff.mp h with hshaped | ⟨-, hnumber⟩
      · obtain ⟨kind, hkind, hread⟩ := List.exists_of_findSome?_eq_some hshaped
        refine InferredFrom.of_read?_other hnull ?_ hread
        have hall : [PrimitiveKind.guid, .dateTimeOffset, .date, .timeOfDay].all
          (fun kind => !kind.isInteger) = true := by decide
        simpa using List.all_eq_true.mp hall kind hkind
      · exact InferredFrom.of_inferNumber? hnull hnumber

/-- A value that is inferred from a text is the value that the text has as a literal of its type, an
integer being of the first type that holds it; and a text has one form only, so that the order in
which the forms are tried does not matter. -/
theorem infer?_agrees (text : String) :
    (∀ v, infer? text.toList = some v → InferredFrom text v) ∧
      ∀ form form' : LiteralForm, form.fits text = true → form'.fits text = true → form = form' := by
  refine ⟨fun v h => inferredFrom_of_infer? h, fun form form' h h' => ?_⟩
  rw [← LiteralForm.ofMarks_of_fits h, ← LiteralForm.ofMarks_of_fits h']

theorem infer?_agrees_200 : ∃ v, infer? "200".toList = some v ∧ InferredFrom "200" v ∧
    LiteralForm.number.fits "200" = true ∧
      ∀ form : LiteralForm, form.fits "200" = true → form = .number := by
  have hsome : (infer? "200".toList).isSome = true := by decide +kernel
  obtain ⟨v, hv⟩ := Option.isSome_iff_exists.mp hsome
  have hnumber : LiteralForm.number.fits "200" = true := by decide +kernel
  exact ⟨v, hv, (infer?_agrees "200").1 v hv, hnumber,
    fun form h => (infer?_agrees "200").2 form .number h hnumber⟩

end PrimitiveValue

end ODataRequest
