import ODataRequest.Calendar.TimeOfDay
import ODataRequest.Proofs.Text.Cut
import ODataRequest.Proofs.Text.Digits

/-!
# ODataRequest.Proofs.Calendar.TimeOfDay

A time of day that is written is read back.
-/

namespace ODataRequest.TimeOfDay

/-- The characters of the seconds with their fraction. -/
def secondChars (t : TimeOfDay) : List Char :=
  Text.paddedDigits 2 t.second ++
    if t.nanosecond = 0 then [] else '.' :: Text.fractionDigits t.nanosecond

theorem chars_eq (t : TimeOfDay) :
    t.chars = Text.paddedDigits 2 t.hour ++
      ':' :: (Text.paddedDigits 2 t.minute ++ ':' :: t.secondChars) := by
  simp [chars, secondChars]

theorem ofParts?_self (t : TimeOfDay) :
    ofParts? t.hour t.minute t.second t.nanosecond = some t := by
  unfold ofParts?
  rw [dif_pos ⟨t.hour_lt, t.minute_lt, t.second_lt, t.nanosecond_lt⟩]

theorem not_mem_paddedDigits {c : Char} (h : c.isDigit = false) (width n : Nat) :
    c ∉ Text.paddedDigits width n :=
  Text.not_mem_of_forall (fun _ => Text.isDigit_of_mem_paddedDigits) h

theorem seconds?_secondChars (t : TimeOfDay) :
    seconds? t.secondChars = some (t.second, t.nanosecond) := by
  have hsecond : Text.twoDigits? (Text.paddedDigits 2 t.second) = some t.second :=
    Text.twoDigits?_paddedDigits (Nat.lt_trans t.second_lt (by decide))
  unfold seconds? secondChars
  by_cases hzero : t.nanosecond = 0
  · rw [if_pos hzero, List.append_nil,
      Text.cutAt?_eq_none (not_mem_paddedDigits (by decide) 2 t.second), hzero]
    show (Text.twoDigits? (Text.paddedDigits 2 t.second)).map (fun s => (s, 0)) = _
    rw [hsecond, Option.map_some]
  · rw [if_neg hzero, Text.cutAt?_append (not_mem_paddedDigits (by decide) 2 t.second)]
    simp only [Text.nanoseconds?_fractionDigits (Nat.pos_of_ne_zero hzero) t.nanosecond_lt, hsecond,
      Option.bind_eq_bind, Option.bind_some, Option.pure_def]

/-- A time of day that is written is read back. -/
theorem parse?_chars (t : TimeOfDay) : parse? t.chars = some t := by
  have hhour : Text.twoDigits? (Text.paddedDigits 2 t.hour) = some t.hour :=
    Text.twoDigits?_paddedDigits (Nat.lt_trans t.hour_lt (by decide))
  have hminute : Text.twoDigits? (Text.paddedDigits 2 t.minute) = some t.minute :=
    Text.twoDigits?_paddedDigits (Nat.lt_trans t.minute_lt (by decide))
  rw [chars_eq]
  unfold parse?
  rw [Text.cutAt?_append (not_mem_paddedDigits (by decide) 2 t.hour)]
  simp only [Option.bind_eq_bind, Option.bind_some]
  rw [Text.cutAt?_append (not_mem_paddedDigits (by decide) 2 t.minute)]
  simp only [seconds?_secondChars, hhour, hminute, Option.bind_some, t.ofParts?_self]

/-- Digits, colons and dots are all that a time of day is written with. -/
theorem isDigit_or_mark_of_mem_chars {t : TimeOfDay} {c : Char} (h : c ∈ t.chars) :
    c.isDigit = true ∨ c = ':' ∨ c = '.' := by
  simp only [chars_eq, secondChars, List.mem_append, List.mem_cons] at h
  rcases h with h | rfl | h | rfl | h | h
  · exact Or.inl (Text.isDigit_of_mem_paddedDigits h)
  · exact Or.inr (Or.inl rfl)
  · exact Or.inl (Text.isDigit_of_mem_paddedDigits h)
  · exact Or.inr (Or.inl rfl)
  · exact Or.inl (Text.isDigit_of_mem_paddedDigits h)
  · split at h
    · cases h
    · rcases List.mem_cons.mp h with rfl | h
      · exact Or.inr (Or.inr rfl)
      · exact Or.inl (Text.isDigit_of_mem_fractionDigits h)

theorem chars_eq_cons (t : TimeOfDay) : ∃ c cs, t.chars = c :: cs ∧ c.isDigit = true := by
  rw [chars_eq]
  cases h : Text.paddedDigits 2 t.hour with
  | nil => exact absurd h (Text.paddedDigits_ne_nil _ _)
  | cons c cs => exact ⟨c, _, rfl, Text.isDigit_of_mem_paddedDigits (h ▸ List.mem_cons_self)⟩

end ODataRequest.TimeOfDay
