import ODataRequest.Calendar.Duration
import ODataRequest.Proofs.Text.Cut
import ODataRequest.Proofs.Text.Digits

/-!
# ODataRequest.Proofs.Calendar.DurationSpelling

The format `[-]P[nD][T[nH][nM][n[.fraction]S]]` as data: a spelling says which parts are there and
which digits they have, so that neither an empty duration nor an empty part behind the `T` can be
built. Each reader accepts exactly the characters of its part and answers its value; a duration is
what the parts come to, and a spelling is refused only if its whole seconds reach 2^63.
-/

namespace ODataRequest.Duration

open Text (DigitString)

/-! ### Spellings -/

/-- The number of a unit; a unit that is left out counts as none. -/
def unitValue : Option DigitString → Nat
  | none => 0
  | some ds => ds.value

/-- A number and the letter of its unit, or nothing. -/
def unitChars (unit : Char) : Option DigitString → List Char
  | none => []
  | some ds => ds.chars ++ [unit]

/-- Seconds as they are spelled, with or without a fraction. -/
structure SecondSpelling where
  whole : DigitString
  fraction : Option DigitString

namespace SecondSpelling

def fractionChars : Option DigitString → List Char
  | none => []
  | some ds => '.' :: ds.chars

def chars (s : SecondSpelling) : List Char :=
  s.whole.chars ++ fractionChars s.fraction ++ ['S']

def nanoseconds (s : SecondSpelling) : Nat :=
  (s.fraction.map DigitString.nanoseconds).getD 0

end SecondSpelling

/-- What is spelled behind the `T`: at least one unit. -/
structure ClockSpelling where
  hours : Option DigitString
  minutes : Option DigitString
  seconds : Option SecondSpelling
  nonempty : (hours.isSome || minutes.isSome || seconds.isSome) = true

namespace ClockSpelling

def secondChars (s : Option SecondSpelling) : List Char :=
  (s.map SecondSpelling.chars).getD []

def chars (c : ClockSpelling) : List Char :=
  unitChars 'H' c.hours ++ (unitChars 'M' c.minutes ++ secondChars c.seconds)

def wholeSeconds (c : ClockSpelling) : Nat :=
  unitValue c.hours * 3600 + unitValue c.minutes * 60 + unitValue (c.seconds.map (·.whole))

def nanoseconds (c : ClockSpelling) : Nat :=
  (c.seconds.map SecondSpelling.nanoseconds).getD 0

end ClockSpelling

/-- What is spelled behind the `P`: at least one part. -/
structure MagnitudeSpelling where
  days : Option DigitString
  clock : Option ClockSpelling
  nonempty : (days.isSome || clock.isSome) = true

namespace MagnitudeSpelling

def clockChars : Option ClockSpelling → List Char
  | none => []
  | some c => 'T' :: c.chars

def chars (m : MagnitudeSpelling) : List Char :=
  unitChars 'D' m.days ++ clockChars m.clock

def wholeSeconds (m : MagnitudeSpelling) : Nat :=
  unitValue m.days * 86400 + (m.clock.map ClockSpelling.wholeSeconds).getD 0

def nanoseconds (m : MagnitudeSpelling) : Nat :=
  (m.clock.map ClockSpelling.nanoseconds).getD 0

end MagnitudeSpelling

/-- A duration as it is spelled. -/
structure Spelling where
  negative : Bool
  magnitude : MagnitudeSpelling

namespace Spelling

def chars (s : Spelling) : List Char :=
  (if s.negative then ['-'] else []) ++ 'P' :: s.magnitude.chars

/-- The signed total, in nanoseconds. -/
def nanoseconds (s : Spelling) : Int :=
  let total : Int := s.magnitude.wholeSeconds * 1000000000 + s.magnitude.nanoseconds
  if s.negative then -total else total

end Spelling

/-! ### The characters of a part -/

theorem isDigit_or_eq_of_mem_unitChars {unit c : Char} {ds : Option DigitString}
    (h : c ∈ unitChars unit ds) : c.isDigit = true ∨ c = unit := by
  cases ds with
  | none => cases h
  | some ds =>
    rcases List.mem_append.mp h with h | h
    · exact Or.inl (DigitString.isDigit_of_mem h)
    · exact Or.inr (List.mem_singleton.mp h)

theorem not_mem_unitChars {unit c : Char} (hdigit : c.isDigit = false) (hne : c ≠ unit)
    (ds : Option DigitString) : c ∉ unitChars unit ds := by
  intro h
  rcases isDigit_or_eq_of_mem_unitChars h with h | h
  · rw [hdigit] at h
    cases h
  · exact hne h

theorem isDigit_or_mark_of_mem_secondChars {s : Option SecondSpelling} {c : Char}
    (h : c ∈ ClockSpelling.secondChars s) : c.isDigit = true ∨ c = '.' ∨ c = 'S' := by
  cases s with
  | none => cases h
  | some s =>
    rcases List.mem_append.mp h with h | h
    · rcases List.mem_append.mp h with h | h
      · exact Or.inl (DigitString.isDigit_of_mem h)
      · cases hfraction : s.fraction with
        | none =>
          rw [hfraction] at h
          cases h
        | some ds =>
          rw [hfraction] at h
          rcases List.mem_cons.mp h with h | h
          · exact Or.inr (Or.inl h)
          · exact Or.inl (DigitString.isDigit_of_mem h)
    · exact Or.inr (Or.inr (List.mem_singleton.mp h))

theorem unitChars_eq_nil_iff {unit : Char} {ds : Option DigitString} :
    unitChars unit ds = [] ↔ ds = none := by
  cases ds <;> simp [unitChars]

theorem secondChars_eq_nil_iff {s : Option SecondSpelling} :
    ClockSpelling.secondChars s = [] ↔ s = none := by
  cases s <;> simp [ClockSpelling.secondChars, SecondSpelling.chars]

theorem ClockSpelling.chars_ne_nil (c : ClockSpelling) : c.chars ≠ [] := by
  obtain ⟨hours, minutes, seconds, hsome⟩ := c
  intro h
  obtain ⟨hhours, h⟩ := List.append_eq_nil_iff.mp h
  obtain ⟨hminutes, hseconds⟩ := List.append_eq_nil_iff.mp h
  cases unitChars_eq_nil_iff.mp hhours
  cases unitChars_eq_nil_iff.mp hminutes
  cases secondChars_eq_nil_iff.mp hseconds
  cases hsome

/-- No quote is part of a spelling. -/
theorem Spelling.quote_not_mem_chars (s : Spelling) : '\'' ∉ s.chars := by
  intro h
  rcases List.mem_append.mp h with h | h
  · split at h <;> simp at h
  rcases List.mem_cons.mp h with h | h
  · cases h
  rcases List.mem_append.mp h with h | h
  · exact not_mem_unitChars (by decide) (by decide) _ h
  cases hclock : s.magnitude.clock with
  | none =>
    rw [hclock] at h
    cases h
  | some clock =>
    rw [hclock] at h
    rcases List.mem_cons.mp h with h | h
    · cases h
    rcases List.mem_append.mp h with h | h
    · exact not_mem_unitChars (by decide) (by decide) _ h
    rcases List.mem_append.mp h with h | h
    · exact not_mem_unitChars (by decide) (by decide) _ h
    · exact absurd (isDigit_or_mark_of_mem_secondChars h) (by decide)

/-! ### The readers of the parts -/

theorem component?_append {unit : Char} (hunit : unit.isDigit = false) (ds : Option DigitString)
    {cs : List Char} (h : unit ∉ cs) :
    component? unit (unitChars unit ds ++ cs) = some (unitValue ds, cs) := by
  unfold component?
  cases ds with
  | none => rw [unitChars, List.nil_append, Text.cutAt?_eq_none h, unitValue]
  | some ds =>
    rw [unitChars, List.append_assoc, List.singleton_append,
      Text.cutAt?_append (DigitString.not_mem hunit)]
    show (Text.digits? ds.chars).map (fun n => (n, cs)) = some (ds.value, cs)
    rw [Text.digits?_eq_some_iff.mpr ⟨ds, rfl, rfl⟩, Option.map_some]

theorem exists_of_component? {unit : Char} {cs rest : List Char} {n : Nat}
    (h : component? unit cs = some (n, rest)) :
    ∃ ds, cs = unitChars unit ds ++ rest ∧ unitValue ds = n := by
  unfold component? at h
  split at h
  · cases h
    exact ⟨none, rfl, rfl⟩
  · rename_i front back hcut
    obtain ⟨m, hm, heq⟩ := Option.map_eq_some_iff.mp h
    cases heq
    obtain ⟨ds, rfl, rfl⟩ := Text.digits?_eq_some_iff.mp hm
    exact ⟨some ds, by simp [Text.eq_append_of_cutAt? hcut, unitChars], rfl⟩

theorem days?_eq_some_iff {cs : List Char} {n : Nat} :
    days? cs = some n ↔ ∃ ds, unitChars 'D' ds = cs ∧ unitValue ds = n := by
  unfold days?
  constructor
  · intro h
    split at h
    · rename_i hempty
      cases h
      exact ⟨none, (List.isEmpty_iff.mp hempty).symm, rfl⟩
    · obtain ⟨front, hfront, hdigits⟩ := Option.bind_eq_some_iff.mp h
      obtain ⟨ds, rfl, rfl⟩ := Text.digits?_eq_some_iff.mp hdigits
      exact ⟨some ds, (Text.eq_append_of_before? hfront).symm, rfl⟩
  · rintro ⟨ds, rfl, rfl⟩
    cases ds with
    | none => rfl
    | some ds =>
      have hne : (unitChars 'D' (some ds)).isEmpty = false := by simp [unitChars]
      rw [hne, if_neg (by decide), unitChars, Text.before?_append, Option.bind_some]
      exact Text.digits?_eq_some_iff.mpr ⟨ds, rfl, rfl⟩

theorem seconds?_chars (s : SecondSpelling) :
    seconds? s.chars = some (s.whole.value, s.nanoseconds) := by
  obtain ⟨whole, fraction⟩ := s
  have hwhole : Text.digits? whole.chars = some whole.value :=
    Text.digits?_eq_some_iff.mpr ⟨whole, rfl, rfl⟩
  have hdot : '.' ∉ whole.chars := DigitString.not_mem (by decide)
  have hne : (SecondSpelling.chars ⟨whole, fraction⟩).isEmpty = false := by
    simp [SecondSpelling.chars]
  unfold seconds?
  rw [hne, if_neg (by decide), SecondSpelling.chars, Text.before?_append, Option.bind_eq_bind,
    Option.bind_some]
  cases fraction with
  | none =>
    rw [SecondSpelling.fractionChars, List.append_nil, Text.cutAt?_eq_none hdot]
    simp only [hwhole, Option.bind_eq_bind, Option.bind_some]
    rfl
  | some fraction =>
    rw [SecondSpelling.fractionChars, Text.cutAt?_append hdot]
    simp only [hwhole, Option.bind_eq_bind, Option.bind_some,
      Text.nanoseconds?_eq_some_iff.mpr ⟨fraction, rfl, rfl⟩]
    rfl

theorem seconds?_eq_some_iff {cs : List Char} {n k : Nat} :
    seconds? cs = some (n, k) ↔ ∃ s : Option SecondSpelling, ClockSpelling.secondChars s = cs ∧
      unitValue (s.map (·.whole)) = n ∧ (s.map SecondSpelling.nanoseconds).getD 0 = k := by
  constructor
  · intro h
    unfold seconds? at h
    split at h
    · rename_i hempty
      cases h
      exact ⟨none, (List.isEmpty_iff.mp hempty).symm, rfl, rfl⟩
    · obtain ⟨body, hbody, h⟩ := Option.bind_eq_some_iff.mp h
      have hcs := Text.eq_append_of_before? hbody
      split at h
      · obtain ⟨m, hm, heq⟩ := Option.bind_eq_some_iff.mp h
        cases heq
        obtain ⟨whole, rfl, rfl⟩ := Text.digits?_eq_some_iff.mp hm
        refine ⟨some ⟨whole, none⟩, ?_, rfl, rfl⟩
        simp [hcs, ClockSpelling.secondChars, SecondSpelling.chars, SecondSpelling.fractionChars]
      · rename_i front back hcut
        obtain ⟨m, hm, h⟩ := Option.bind_eq_some_iff.mp h
        obtain ⟨j, hj, heq⟩ := Option.bind_eq_some_iff.mp h
        cases heq
        obtain ⟨whole, rfl, rfl⟩ := Text.digits?_eq_some_iff.mp hm
        obtain ⟨fraction, rfl, rfl⟩ := Text.nanoseconds?_eq_some_iff.mp hj
        refine ⟨some ⟨whole, some fraction⟩, ?_, rfl, rfl⟩
        simp [hcs, Text.eq_append_of_cutAt? hcut, ClockSpelling.secondChars, SecondSpelling.chars,
          SecondSpelling.fractionChars]
  · rintro ⟨s, rfl, rfl, rfl⟩
    cases s with
    | none => rfl
    | some s => exact seconds?_chars s

/-! ### The readers behind the `T` and behind the `P` -/

theorem clock?_chars (c : ClockSpelling) :
    clock? c.chars = some (c.wholeSeconds, c.nanoseconds) := by
  have hM : 'M' ∉ ClockSpelling.secondChars c.seconds := fun h =>
    absurd (isDigit_or_mark_of_mem_secondChars h) (by decide)
  have hH : 'H' ∉ unitChars 'M' c.minutes ++ ClockSpelling.secondChars c.seconds := by
    intro h
    rcases List.mem_append.mp h with h | h
    · exact not_mem_unitChars (by decide) (by decide) _ h
    · exact absurd (isDigit_or_mark_of_mem_secondChars h) (by decide)
  have hguard : (guard ((!c.chars.isEmpty) = true) : Option Unit) = some () := by
    rw [List.isEmpty_eq_false_iff.mpr c.chars_ne_nil]
    rfl
  unfold clock?
  rw [hguard, ClockSpelling.chars]
  simp only [Option.bind_eq_bind, Option.bind_some, component?_append (by decide) _ hH,
    component?_append (by decide) _ hM, seconds?_eq_some_iff.mpr ⟨c.seconds, rfl, rfl, rfl⟩]
  rfl

theorem clock?_eq_some_iff {cs : List Char} {n k : Nat} :
    clock? cs = some (n, k) ↔
      ∃ c : ClockSpelling, c.chars = cs ∧ c.wholeSeconds = n ∧ c.nanoseconds = k := by
  constructor
  · intro h
    obtain ⟨⟨⟩, hguard, h⟩ := Option.bind_eq_some_iff.mp h
    obtain ⟨⟨hours, cs₁⟩, hhours, h⟩ := Option.bind_eq_some_iff.mp h
    obtain ⟨⟨minutes, cs₂⟩, hminutes, h⟩ := Option.bind_eq_some_iff.mp h
    obtain ⟨⟨seconds, nanoseconds⟩, hseconds, heq⟩ := Option.bind_eq_some_iff.mp h
    obtain ⟨hours, rfl, rfl⟩ := exists_of_component? hhours
    obtain ⟨minutes, rfl, rfl⟩ := exists_of_component? hminutes
    obtain ⟨seconds, rfl, rfl, rfl⟩ := seconds?_eq_some_iff.mp hseconds
    cases heq
    -- Without any unit there would be no characters, and the guard would have failed.
    have hsome : (hours.isSome || minutes.isSome || seconds.isSome) = true := by
      cases hours <;> cases minutes <;> cases seconds <;> first | rfl | cases hguard
    exact ⟨⟨hours, minutes, seconds, hsome⟩, rfl, rfl, rfl⟩
  · rintro ⟨c, rfl, rfl, rfl⟩
    exact clock?_chars c

theorem magnitude?_chars (m : MagnitudeSpelling) :
    magnitude? m.chars = some (m.wholeSeconds, m.nanoseconds) := by
  obtain ⟨days, clock, hsome⟩ := m
  have hT : 'T' ∉ unitChars 'D' days := not_mem_unitChars (by decide) (by decide) days
  have hdays : days? (unitChars 'D' days) = some (unitValue days) :=
    days?_eq_some_iff.mpr ⟨days, rfl, rfl⟩
  unfold magnitude? MagnitudeSpelling.chars
  cases clock with
  | none =>
    have hne : (unitChars 'D' days).isEmpty = false := by
      refine List.isEmpty_eq_false_iff.mpr fun h => ?_
      cases unitChars_eq_nil_iff.mp h
      cases hsome
    simp [MagnitudeSpelling.clockChars, Text.cutAt?_eq_none hT, hne, hdays,
      MagnitudeSpelling.wholeSeconds, MagnitudeSpelling.nanoseconds]
  | some clock =>
    simp only [MagnitudeSpelling.clockChars, Text.cutAt?_append hT, hdays, clock?_chars,
      Option.bind_eq_bind, Option.bind_some]
    rfl

theorem magnitude?_eq_some_iff {cs : List Char} {n k : Nat} :
    magnitude? cs = some (n, k) ↔
      ∃ m : MagnitudeSpelling, m.chars = cs ∧ m.wholeSeconds = n ∧ m.nanoseconds = k := by
  constructor
  · intro h
    unfold magnitude? at h
    split at h
    · split at h
      · cases h
      · rename_i hne
        obtain ⟨days, hdays, heq⟩ := Option.map_eq_some_iff.mp h
        cases heq
        obtain ⟨days, rfl, rfl⟩ := days?_eq_some_iff.mp hdays
        have hsome : (days.isSome || (none : Option ClockSpelling).isSome) = true := by
          cases days with
          | none => exact absurd rfl hne
          | some => rfl
        exact ⟨⟨days, none, hsome⟩, List.append_nil _, Nat.add_zero _, rfl⟩
    · rename_i date clock hcut
      obtain ⟨days, hdays, h⟩ := Option.bind_eq_some_iff.mp h
      obtain ⟨⟨seconds, nanoseconds⟩, hclock, heq⟩ := Option.bind_eq_some_iff.mp h
      cases heq
      obtain ⟨days, rfl, rfl⟩ := days?_eq_some_iff.mp hdays
      obtain ⟨clock, rfl, rfl, rfl⟩ := clock?_eq_some_iff.mp hclock
      exact ⟨⟨days, some clock, Bool.or_true _⟩, (Text.eq_append_of_cutAt? hcut).symm, rfl, rfl⟩
  · rintro ⟨m, rfl, rfl, rfl⟩
    exact magnitude?_chars m

/-! ### Bounds and sign -/

theorem MagnitudeSpelling.nanoseconds_lt (m : MagnitudeSpelling) : m.nanoseconds < 1000000000 := by
  have hseconds (s : SecondSpelling) : s.nanoseconds < 1000000000 := by
    unfold SecondSpelling.nanoseconds
    cases s.fraction with
    | none => decide
    | some ds => exact ds.nanoseconds_lt
  have hclock (c : ClockSpelling) : c.nanoseconds < 1000000000 := by
    unfold ClockSpelling.nanoseconds
    cases c.seconds with
    | none => decide
    | some s => exact hseconds s
  unfold MagnitudeSpelling.nanoseconds
  cases m.clock with
  | none => decide
  | some c => exact hclock c

/-- Parts make up a duration unless the whole seconds are out of bounds: the nanoseconds are fewer
than a second. -/
theorem ofParts?_eq_some_iff {negative : Bool} {m : MagnitudeSpelling} {d : Duration} :
    ofParts? negative m.wholeSeconds m.nanoseconds = some d ↔
      m.wholeSeconds < Nat.pow 2 63 ∧ d.nanoseconds = Spelling.nanoseconds ⟨negative, m⟩ := by
  have hnano := m.nanoseconds_lt
  have hbound : (Spelling.nanoseconds ⟨negative, m⟩).natAbs < Nat.pow 2 63 * 1000000000 ↔
      m.wholeSeconds < Nat.pow 2 63 := by
    unfold Spelling.nanoseconds
    cases negative <;> simp only [Bool.false_eq_true, if_true, if_false] <;> omega
  have hparts : ofParts? negative m.wholeSeconds m.nanoseconds =
      if h : (Spelling.nanoseconds ⟨negative, m⟩).natAbs < Nat.pow 2 63 * 1000000000 then
        some ⟨Spelling.nanoseconds ⟨negative, m⟩, h⟩ else none := rfl
  rw [hparts]
  constructor
  · intro h
    split at h
    · rename_i hlt
      cases h
      exact ⟨hbound.mp hlt, rfl⟩
    · cases h
  · rintro ⟨hlt, hvalue⟩
    rw [dif_pos (hbound.mpr hlt)]
    obtain ⟨nanoseconds, hbounded⟩ := d
    cases hvalue
    rfl

theorem unsigned?_eq_some_iff {negative : Bool} {cs : List Char} {d : Duration} :
    unsigned? negative cs = some d ↔ ∃ m : MagnitudeSpelling, 'P' :: m.chars = cs ∧
      m.wholeSeconds < Nat.pow 2 63 ∧ d.nanoseconds = Spelling.nanoseconds ⟨negative, m⟩ := by
  constructor
  · intro h
    obtain ⟨body, hbody, h⟩ := Option.bind_eq_some_iff.mp h
    obtain ⟨⟨seconds, nanoseconds⟩, hmagnitude, hparts⟩ := Option.bind_eq_some_iff.mp h
    obtain ⟨m, rfl, rfl, rfl⟩ := magnitude?_eq_some_iff.mp hmagnitude
    exact ⟨m, (Text.eq_append_of_behind? hbody).symm, ofParts?_eq_some_iff.mp hparts⟩
  · rintro ⟨m, rfl, hparts⟩
    have hbehind : Text.behind? ['P'] ('P' :: m.chars) = some m.chars :=
      Text.behind?_append ['P'] m.chars
    unfold unsigned?
    simp only [hbehind, magnitude?_chars, Option.bind_eq_bind, Option.bind_some]
    exact ofParts?_eq_some_iff.mpr hparts

/-- A text is a duration exactly if it is one of the spellings, the whole seconds inside the
bounds. -/
theorem parse?_eq_some_iff {cs : List Char} {d : Duration} :
    parse? cs = some d ↔ ∃ s : Spelling, s.chars = cs ∧
      s.magnitude.wholeSeconds < Nat.pow 2 63 ∧ d.nanoseconds = s.nanoseconds := by
  constructor
  · intro h
    unfold parse? at h
    split at h
    · obtain ⟨m, hm, hparts⟩ := unsigned?_eq_some_iff.mp h
      exact ⟨⟨true, m⟩, congrArg ('-' :: ·) hm, hparts⟩
    · obtain ⟨m, hm, hparts⟩ := unsigned?_eq_some_iff.mp h
      exact ⟨⟨false, m⟩, hm, hparts⟩
  · rintro ⟨⟨negative, m⟩, rfl, hparts⟩
    cases negative with
    | true => exact unsigned?_eq_some_iff.mpr ⟨m, rfl, hparts⟩
    | false => exact unsigned?_eq_some_iff.mpr ⟨m, rfl, hparts⟩

end ODataRequest.Duration
