import ODataRequest.Calendar.Date
import ODataRequest.Proofs.Text.Cut
import ODataRequest.Proofs.Text.Digits

/-!
# ODataRequest.Proofs.Calendar.Date

A date that is written is read back.
-/

namespace ODataRequest

theorem daysInMonth_le (year : Int) (month : Nat) : daysInMonth year month ≤ 31 := by
  unfold daysInMonth
  split
  · split <;> omega
  all_goals omega

namespace Date

theorem ofParts?_self (d : Date) : ofParts? d.year d.month d.day = some d := by
  unfold ofParts?
  rw [dif_pos d.valid]

theorem month_lt (d : Date) : d.month < 100 := by
  have h := d.valid
  simp only [isCalendarDate, Bool.and_eq_true, decide_eq_true_eq] at h
  omega

theorem day_lt (d : Date) : d.day < 100 := by
  have h := d.valid
  simp only [isCalendarDate, Bool.and_eq_true, decide_eq_true_eq] at h
  have hle := daysInMonth_le d.year d.month
  omega

theorem unsignedChars_eq_cons (d : Date) :
    ∃ c cs, d.unsignedChars = c :: cs ∧ c.isDigit = true := by
  unfold unsignedChars
  cases h : Text.paddedDigits 4 d.year.natAbs with
  | nil => exact absurd h (Text.paddedDigits_ne_nil _ _)
  | cons c cs => exact ⟨c, _, rfl, Text.isDigit_of_mem_paddedDigits (h ▸ List.mem_cons_self)⟩

theorem minus_not_mem_paddedDigits (width n : Nat) : '-' ∉ Text.paddedDigits width n :=
  Text.not_mem_of_forall (fun _ => Text.isDigit_of_mem_paddedDigits) (by decide)

theorem unsigned?_unsignedChars (d : Date) (negative : Bool) :
    unsigned? negative d.unsignedChars =
      ofParts? (if negative then -(d.year.natAbs : Int) else d.year.natAbs) d.month d.day := by
  unfold unsigned? unsignedChars
  rw [Text.cutAt?_append (minus_not_mem_paddedDigits _ _), Option.bind_eq_bind, Option.bind_some]
  dsimp only
  rw [Text.cutAt?_append (minus_not_mem_paddedDigits _ _), Option.bind_some]
  dsimp only
  have hguard : (guard (4 ≤ (Text.paddedDigits 4 d.year.natAbs).length) : Option Unit) = some () :=
    if_pos (Text.le_length_paddedDigits 4 _)
  rw [hguard]
  simp only [Option.bind_eq_bind, Option.bind_some, Text.digits?_paddedDigits,
    Text.twoDigits?_paddedDigits d.month_lt, Text.twoDigits?_paddedDigits d.day_lt]

/-- A date that is written is read back. -/
theorem parse?_chars (d : Date) : parse? d.chars = some d := by
  unfold chars
  by_cases hneg : d.year < 0
  · have hvalue : -((d.year.natAbs : Nat) : Int) = d.year := by omega
    rw [if_pos hneg]
    show unsigned? true d.unsignedChars = some d
    rw [unsigned?_unsignedChars, if_pos rfl, hvalue, ofParts?_self]
  · have hvalue : ((d.year.natAbs : Nat) : Int) = d.year := by omega
    have hunsigned : parse? d.unsignedChars = unsigned? false d.unsignedChars := by
      obtain ⟨c, cs, hchars, hdigit⟩ := d.unsignedChars_eq_cons
      rw [hchars]
      unfold parse?
      split
      · rename_i heq
        cases heq
        exact absurd hdigit (by decide)
      · rfl
    rw [if_neg hneg, hunsigned, unsigned?_unsignedChars, if_neg (by decide), hvalue, ofParts?_self]

/-- Digits and minus signs are all that a date is written with. -/
theorem isDigit_or_minus_of_mem_chars {d : Date} {c : Char} (h : c ∈ d.chars) :
    c.isDigit = true ∨ c = '-' := by
  have hunsigned : c ∈ d.unsignedChars → c.isDigit = true ∨ c = '-' := by
    intro h
    simp only [unsignedChars, List.mem_append, List.mem_cons] at h
    rcases h with h | rfl | h | rfl | h
    · exact Or.inl (Text.isDigit_of_mem_paddedDigits h)
    · exact Or.inr rfl
    · exact Or.inl (Text.isDigit_of_mem_paddedDigits h)
    · exact Or.inr rfl
    · exact Or.inl (Text.isDigit_of_mem_paddedDigits h)
  unfold chars at h
  split at h
  · rcases List.mem_cons.mp h with rfl | h
    · exact Or.inr rfl
    · exact hunsigned h
  · exact hunsigned h

end Date

end ODataRequest
