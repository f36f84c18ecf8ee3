import ODataRequest.Proofs.Calendar.DurationSpelling

/-!
# ODataRequest.Proofs.Calendar.Duration

What is written for a duration is one of its spellings, part by part: a unit, the seconds, what
stands behind the `T`, and what stands behind the `P`. So it is read back.
-/

namespace ODataRequest.Duration

open Text (DigitString)

/-! ### Written parts -/

theorem exists_unitChars (n : Nat) (unit : Char) :
    ∃ ds, unitChars unit ds = componentChars n unit ∧ unitValue ds = n := by
  unfold componentChars
  split
  · rename_i hzero
    exact ⟨none, rfl, hzero.symm⟩
  · obtain ⟨ds, hchars, hvalue⟩ := Text.exists_decimalDigits n
    exact ⟨some ds, congrArg (· ++ [unit]) hchars, hvalue⟩

theorem exists_secondSpelling (seconds : Nat) {nanoseconds : Nat} (h : nanoseconds < 1000000000) :
    ∃ s : SecondSpelling, s.chars = secondChars seconds nanoseconds ∧ s.whole.value = seconds ∧
      s.nanoseconds = nanoseconds := by
  obtain ⟨whole, hwhole, hseconds⟩ := Text.exists_decimalDigits seconds
  unfold secondChars
  by_cases hzero : nanoseconds = 0
  · refine ⟨⟨whole, none⟩, ?_, hseconds, hzero.symm⟩
    rw [if_pos hzero, SecondSpelling.chars, hwhole, SecondSpelling.fractionChars]
  · obtain ⟨fraction, hfraction, hnanoseconds⟩ :=
      Text.exists_fractionDigits (Nat.pos_of_ne_zero hzero) h
    refine ⟨⟨whole, some fraction⟩, ?_, hseconds, hnanoseconds⟩
    rw [if_neg hzero, SecondSpelling.chars, hwhole, SecondSpelling.fractionChars, hfraction]

theorem exists_clockSpelling (hours minutes seconds : Nat) {nanoseconds : Nat}
    (h : nanoseconds < 1000000000) :
    ∃ c : ClockSpelling, c.chars = clockChars hours minutes seconds nanoseconds ∧
      c.wholeSeconds = hours * 3600 + minutes * 60 + seconds ∧ c.nanoseconds = nanoseconds := by
  obtain ⟨hs, hhours, rfl⟩ := exists_unitChars hours 'H'
  obtain ⟨ms, hminutes, rfl⟩ := exists_unitChars minutes 'M'
  unfold clockChars
  rw [List.append_assoc, ← hhours, ← hminutes]
  split
  · obtain ⟨s, hchars, rfl, rfl⟩ := exists_secondSpelling seconds h
    rw [← hchars]
    exact ⟨⟨hs, ms, some s, Bool.or_true _⟩, rfl, rfl, rfl⟩
  · -- The seconds are left out because they are zero and another unit is there.
    rename_i hleft
    have hseconds : seconds = 0 := by omega
    have hnanoseconds : nanoseconds = 0 := by omega
    have hsome : (hs.isSome || ms.isSome || (none : Option SecondSpelling).isSome) = true := by
      cases hs <;> cases ms <;> first | rfl | exact absurd (Or.inr (Or.inr ⟨rfl, rfl⟩)) hleft
    rw [hseconds, hnanoseconds]
    exact ⟨⟨hs, ms, none, hsome⟩, rfl, rfl, rfl⟩

theorem exists_magnitudeSpelling (seconds : Nat) {nanoseconds : Nat} (h : nanoseconds < 1000000000) :
    ∃ m : MagnitudeSpelling, m.chars = magnitudeChars seconds nanoseconds ∧
      m.wholeSeconds = seconds ∧ m.nanoseconds = nanoseconds := by
  obtain ⟨days, hdays, hvalue⟩ := exists_unitChars (seconds / 86400) 'D'
  unfold magnitudeChars
  rw [← hdays]
  split
  · obtain ⟨clock, hclock, hseconds, hnanoseconds⟩ :=
      exists_clockSpelling (seconds % 86400 / 3600) (seconds % 3600 / 60) (seconds % 60) h
    rw [← hclock]
    refine ⟨⟨days, some clock, Bool.or_true _⟩, rfl, ?_, hnanoseconds⟩
    show unitValue days * 86400 + clock.wholeSeconds = seconds
    omega
  · rename_i hleft
    have hnanoseconds : nanoseconds = 0 := by omega
    have hsome : (days.isSome || (none : Option ClockSpelling).isSome) = true := by
      cases days with
      | some => rfl
      | none =>
        have hzero : seconds / 86400 = 0 := hvalue.symm
        omega
    refine ⟨⟨days, none, hsome⟩, rfl, ?_, hnanoseconds.symm⟩
    show unitValue days * 86400 + 0 = seconds
    omega

/-! ### Durations -/

/-- A duration that is written is a spelling of itself, inside the bounds. -/
theorem exists_spelling (d : Duration) : ∃ s : Spelling, s.chars = d.chars ∧
    s.magnitude.wholeSeconds < Nat.pow 2 63 ∧ d.nanoseconds = s.nanoseconds := by
  have hsubsecond : d.subsecond.natAbs < 1000000000 := by
    unfold subsecond
    rw [Int.natAbs_tmod]
    exact Nat.mod_lt _ (by decide)
  have hparts : d.wholeSeconds.natAbs * 1000000000 + d.subsecond.natAbs = d.nanoseconds.natAbs := by
    unfold wholeSeconds subsecond
    rw [Int.natAbs_tdiv, Int.natAbs_tmod]
    exact Nat.div_add_mod' d.nanoseconds.natAbs 1000000000
  have hbounded := d.bounded
  obtain ⟨m, hchars, hseconds, hnanoseconds⟩ :=
    exists_magnitudeSpelling d.wholeSeconds.natAbs hsubsecond
  refine ⟨⟨decide (d.nanoseconds < 0), m⟩, ?_, ?_, ?_⟩
  · simp only [Spelling.chars, hchars, decide_eq_true_eq, chars]
  · show m.wholeSeconds < Nat.pow 2 63
    omega
  · simp only [Spelling.nanoseconds, hseconds, hnanoseconds, decide_eq_true_eq]
    split <;> omega

/-- A duration that is written is read back. -/
theorem parse?_chars (d : Duration) : parse? d.chars = some d :=
  parse?_eq_some_iff.mpr d.exists_spelling

/-- No quote is written in a duration. -/
theorem quote_not_mem_chars (d : Duration) : '\'' ∉ d.chars := by
  obtain ⟨s, hchars, -⟩ := d.exists_spelling
  rw [← hchars]
  exact s.quote_not_mem_chars

/-- The format and its values: a text is read as a duration exactly if it is a spelling whose whole
seconds are below 2^63, and it is then read as its signed total, the digits behind the ninth of a
fraction dropped. Every duration is read back from what is written for it. -/
theorem read_exactly_the_spellings :
    (∀ (text : String) (d : Duration), parse? text.toList = some d ↔
      ∃ s : Spelling, s.chars = text.toList ∧ s.magnitude.wholeSeconds < Nat.pow 2 63 ∧
        d.nanoseconds = s.nanoseconds) ∧
    ∀ d : Duration, parse? d.text.toList = some d := by
  refine ⟨fun text d => parse?_eq_some_iff, fun d => ?_⟩
  rw [text, String.toList_ofList]
  exact d.parse?_chars

-- Nanosecond digits are cut off, and a sign belongs to the whole; no part may be empty.
example : (parse? "-P1DT2H0.1234567899S".toList).map (·.nanoseconds) =
    some (-93600123456789) := by decide +kernel
example : parse? "P1DT".toList = none := by decide +kernel
example : parse? "PT1M1H".toList = none := by decide +kernel

end ODataRequest.Duration
