import ODataRequest.Proofs.Primitive.Literal
import ODataRequest.Query.Option
import Mathlib.Data.Nat.Digits.Defs

/-!
# ODataRequest.Proofs.Numbers

Numbers are read exactly or refused (`numbers_read_exactly`). The number that a text writes is said
apart from any reader, by the places of its digits (`Text.Writes`, `Text.WritesSigned`). The readers
differ in the sign they allow and in their bounds only; what they give is always the number that the
text writes, whatever the number of its digits and of the zeros in front of them.
-/

namespace ODataRequest

namespace Text

/-! ### Written numbers -/

/-- The number that a digit stands for. -/
def digitValue (c : Char) : Nat :=
  c.toNat - '0'.toNat

/-- The text writes the number in decimal, with digits only and at least one of them. The last digit
counts ones, and every other one ten times as much as the next one does. -/
structure Writes (cs : List Char) (n : Nat) : Prop where
  nonempty : cs ≠ []
  digits : ∀ c ∈ cs, c.isDigit = true
  value : Nat.ofDigits 10 (cs.reverse.map digitValue) = n

/-- The text writes the integer in decimal, with a sign or without one. -/
inductive WritesSigned : List Char → Int → Prop
  | unsigned {cs : List Char} {n : Nat} (h : Writes cs n) : WritesSigned cs n
  | plus {cs : List Char} {n : Nat} (h : Writes cs n) : WritesSigned ('+' :: cs) n
  | minus {cs : List Char} {n : Nat} (h : Writes cs n) : WritesSigned ('-' :: cs) (-n)

variable {cs : List Char} {n : Nat} {i : Int}

/-- Going through the digits from the front gives each of them the weight of its place. -/
theorem digitsValue_eq_ofDigits (cs : List Char) :
    digitsValue cs = Nat.ofDigits 10 (cs.reverse.map digitValue) := by
  unfold digitsValue
  simp [Nat.ofDigits_eq_foldr, Nat.ofDigitChars_eq_foldl, List.map_reverse, List.foldr_reverse, List.foldl_map, digitValue, Nat.add_comm]

/-- Digits are read as the number that they write. -/
theorem digits?_iff_writes : digits? cs = some n ↔ Writes cs n := by
  constructor
  · intro h
    have hdigits := isDigits_of_digits? h
    have hne : cs ≠ [] := by
      intro hnil
      simp [hnil, isDigits] at hdigits
    unfold digits? at h
    rw [if_pos hdigits, digitsValue_eq_ofDigits, Option.some.injEq] at h
    exact ⟨hne, isDigit_of_isDigits hdigits, h⟩
  · intro h
    unfold digits?
    rw [if_pos (isDigits_of_forall h.nonempty h.digits), digitsValue_eq_ofDigits, h.value]

/-- What stands behind the sign is read as digits. -/
theorem integer?_eq_some_iff : integer? cs = some i ↔
    ∃ n, Writes (signed cs).2 n ∧ (if (signed cs).1 then -(n : Int) else n) = i := by
  unfold integer?
  cases hdigits : digits? (signed cs).2 with
  | none => simp [← digits?_iff_writes, hdigits]
  | some m => simp [← digits?_iff_writes, hdigits]

/-- Integers are read as the number that they write. -/
theorem integer?_iff_writes : integer? cs = some i ↔ WritesSigned cs i := by
  rw [integer?_eq_some_iff]
  constructor
  · intro h
    obtain ⟨n, hn, hi⟩ := h
    unfold signed at hn hi
    split at hn
    · simp at hi
      exact hi ▸ .minus hn
    · simp at hi
      exact hi ▸ .plus hn
    · simp at hi
      exact hi ▸ .unsigned hn
  · intro h
    cases h with
    | @unsigned _ n h => exact ⟨n, by simpa [signed_of_isDigit h.digits] using h⟩
    | @plus _ n h => exact ⟨n, h, rfl⟩
    | @minus _ n h => exact ⟨n, h, rfl⟩

/-- A text with anything but digits in it writes no number. -/
theorem not_writes_of_mem {c : Char} (hc : c ∈ cs) (hdigit : c.isDigit = false) : ¬Writes cs n := by
  intro h
  simp [h.digits c hc] at hdigit

theorem not_writesSigned_null : ¬WritesSigned "null".toList i := by
  intro h
  cases h with
  | unsigned h => exact not_writes_of_mem (c := 'n') (by decide) (by decide) h

end Text

open Text

variable {text : String}

/-! ### Bounded numbers -/

theorem boundedNumber?_eq_some_iff {greatest n : Nat} :
    boundedNumber? greatest text = some n ↔ Writes text.toList n ∧ n ≤ greatest := by
  simp [boundedNumber?, Option.filter_eq_some_iff, digits?_iff_writes]

theorem parseNumber_eq_ok_iff {kind : OptionKind} {n : Nat} :
    parseNumber kind text = .ok n ↔ Writes text.toList n ∧ n ≤ 2 ^ 64 - 1 := by
  have hbounded : boundedNumber? (Nat.pow 2 64 - 1) text = some n ↔
      Writes text.toList n ∧ n ≤ 2 ^ 64 - 1 := boundedNumber?_eq_some_iff
  rw [← hbounded]
  unfold parseNumber
  cases boundedNumber? (Nat.pow 2 64 - 1) text with
  | none => simp
  | some m => simp

theorem Levels.parse_eq_number_iff {limit n : Nat} :
    Levels.parse limit text = .ok (.number n) ↔
      Writes text.toList n ∧ n ≤ min limit (2 ^ 32 - 1) := by
  have hbounded : boundedNumber? (min limit (Nat.pow 2 32 - 1)) text = some n ↔
      Writes text.toList n ∧ n ≤ min limit (2 ^ 32 - 1) := boundedNumber?_eq_some_iff
  unfold Levels.parse
  split
  · next hmax =>
    have hletters : ¬Writes text.toList n := by
      subst hmax
      exact not_writes_of_mem (c := 'm') (by decide) (by decide)
    simp [hletters]
  · rw [← hbounded]
    cases boundedNumber? (min limit (Nat.pow 2 32 - 1)) text with
    | none => simp
    | some m => simp

/-! ### Integers of a type -/

/-- The integers that the bits of a type hold: eight for a byte, and one of them for the sign of every
other type. -/
def IntegerKind.Holds (k : IntegerKind) (i : Int) : Prop :=
  match k with
  | .byte => 0 ≤ i ∧ i < 2 ^ 8
  | .sbyte => -2 ^ 7 ≤ i ∧ i < 2 ^ 7
  | .int16 => -2 ^ 15 ≤ i ∧ i < 2 ^ 15
  | .int32 => -2 ^ 31 ≤ i ∧ i < 2 ^ 31
  | .int64 => -2 ^ 63 ≤ i ∧ i < 2 ^ 63

theorem IntegerKind.holds_iff {k : IntegerKind} {i : Int} :
    k.Holds i ↔ k.low ≤ i ∧ i ≤ k.high := by
  cases k <;> simp only [Holds, low, high] <;> omega

/-- An integer that the bits of a type hold, as one of this type. -/
def BoundedInteger.ofHolds {k : IntegerKind} {i : Int} (h : k.Holds i) : BoundedInteger k :=
  ⟨i, (IntegerKind.holds_iff.mp h).1, (IntegerKind.holds_iff.mp h).2⟩

theorem BoundedInteger.ofInt?_eq_some_iff {k : IntegerKind} {i : Int} {n : BoundedInteger k} :
    BoundedInteger.ofInt? k i = some n ↔ ∃ h : k.Holds i, n = .ofHolds h := by
  unfold BoundedInteger.ofInt?
  by_cases hbounds : k.low ≤ i ∧ i ≤ k.high
  · have hholds := IntegerKind.holds_iff.mpr hbounds
    simp [hbounds, hholds, ofHolds, eq_comm]
  · have hholds := mt IntegerKind.holds_iff.mp hbounds
    simp [hbounds, hholds]

theorem PrimitiveValue.integer?_eq_some_iff {k : IntegerKind} {cs : List Char}
    {v : PrimitiveValue} : PrimitiveValue.integer? k cs = some v ↔
      ∃ i, WritesSigned cs i ∧ ∃ h : k.Holds i, v = .integer k (.ofHolds h) := by
  unfold PrimitiveValue.integer?
  simp only [Option.bind_eq_bind, Option.bind_eq_some_iff, Option.map_eq_some_iff,
    integer?_iff_writes, BoundedInteger.ofInt?_eq_some_iff]
  constructor
  · intro h
    obtain ⟨i, hi, n, ⟨hholds, hn⟩, hv⟩ := h
    exact ⟨i, hi, hholds, by rw [← hv, hn]⟩
  · intro h
    obtain ⟨i, hi, hholds, hv⟩ := h
    exact ⟨i, hi, _, ⟨hholds, rfl⟩, hv.symm⟩

theorem PrimitiveKind.validate_integer_iff {k : IntegerKind} {v : PrimitiveValue} :
    (PrimitiveKind.integer k).validate text = .ok v ∧ v ≠ .null ↔
      ∃ i, WritesSigned text.toList i ∧ ∃ h : k.Holds i, v = .integer k (.ofHolds h) := by
  rw [PrimitiveKind.validate_eq_ok_iff, ← PrimitiveValue.integer?_eq_some_iff]
  constructor
  · intro h
    obtain ⟨⟨-, hv⟩ | ⟨-, hread⟩, hnull⟩ := h
    · exact absurd hv hnull
    · exact hread
  · intro h
    obtain ⟨i, hi, hholds, hv⟩ := PrimitiveValue.integer?_eq_some_iff.mp h
    have hnull : text ≠ "null" := by
      intro htext
      subst htext
      exact not_writesSigned_null hi
    exact ⟨.inr ⟨hnull, h⟩, by simp [hv]⟩

/-- Texts of numbers without a sign are read as the number that they write, up to the greatest one of
64 bits; levels up to their limit and the greatest number of 32 bits. Literals of an integer type other
than `null` are read as the integer that they write, with a sign or without one, if the bits of the
type hold it. Nothing else is read. -/
theorem numbers_read_exactly (text : String) :
    (∀ kind n, parseNumber kind text = .ok n ↔ Writes text.toList n ∧ n ≤ 2 ^ 64 - 1) ∧
      (∀ limit n, Levels.parse limit text = .ok (.number n) ↔
        Writes text.toList n ∧ n ≤ min limit (2 ^ 32 - 1)) ∧
      ∀ k v, (PrimitiveKind.integer k).validate text = .ok v ∧ v ≠ .null ↔
        ∃ i, WritesSigned text.toList i ∧ ∃ h : k.Holds i, v = .integer k (.ofHolds h) :=
  ⟨fun _ _ => parseNumber_eq_ok_iff, fun _ _ => Levels.parse_eq_number_iff,
    fun _ _ => PrimitiveKind.validate_integer_iff⟩

/-- Zeros in front count for nothing, and one more than the greatest number is refused. -/
example : (parseNumber .top "000018446744073709551615").toOption = some 18446744073709551615 ∧
    (parseNumber .top "18446744073709551616").toOption = none := by
  decide +kernel

end ODataRequest
