import ODataRequest.Text.Digits

/-!
# ODataRequest.Proofs.Text.Digits

Numbers that are written in digits are read back: with or without zeros in front, with a sign, and
as the fraction of a second.
-/

namespace ODataRequest.Text

/-! ### Digit strings -/

theorem isDigit_of_mem_decimalDigits {n : Nat} {c : Char} (h : c ∈ decimalDigits n) :
    c.isDigit = true :=
  Nat.isDigit_of_mem_toDigits (by decide) (by decide) h

theorem isDigit_of_mem_paddedDigits {width n : Nat} {c : Char} (h : c ∈ paddedDigits width n) :
    c.isDigit = true := by
  rcases List.mem_append.mp h with h | h
  · rw [List.eq_of_mem_replicate h]
    decide
  · exact isDigit_of_mem_decimalDigits h

theorem decimalDigits_ne_nil (n : Nat) : decimalDigits n ≠ [] :=
  Nat.toDigits_ne_nil

theorem paddedDigits_ne_nil (width n : Nat) : paddedDigits width n ≠ [] := by
  intro h
  exact decimalDigits_ne_nil n (List.append_eq_nil_iff.mp h).2

theorem isDigits_of_forall {cs : List Char} (hne : cs ≠ []) (h : ∀ c ∈ cs, c.isDigit = true) :
    isDigits cs = true := by
  unfold isDigits
  rw [List.all_eq_true.mpr h, Bool.and_true, Bool.not_eq_true', List.isEmpty_eq_false_iff]
  exact hne

theorem isDigit_of_isDigits {cs : List Char} (h : isDigits cs = true) :
    ∀ c ∈ cs, c.isDigit = true := by
  simp only [isDigits, Bool.and_eq_true] at h
  exact List.all_eq_true.mp h.2

theorem isDigits_of_digits? {cs : List Char} {n : Nat} (h : digits? cs = some n) :
    isDigits cs = true := by
  unfold digits? at h
  split at h
  · assumption
  · cases h

theorem isDigits_of_twoDigits? {cs : List Char} {n : Nat} (h : twoDigits? cs = some n) :
    isDigits cs = true := by
  unfold twoDigits? at h
  split at h
  · exact isDigits_of_digits? h
  · cases h

theorem digitsValue_append (as bs : List Char) :
    digitsValue (as ++ bs) = Nat.pow 10 bs.length * digitsValue as + digitsValue bs := by
  unfold digitsValue
  rw [Nat.ofDigitChars_append, Nat.ofDigitChars_eq_ofDigitChars_zero]
  rfl

theorem digitsValue_replicate (n : Nat) : digitsValue (List.replicate n '0') = 0 := by
  unfold digitsValue
  rw [Nat.ofDigitChars_replicate_zero, Nat.mul_zero]

theorem digits?_decimalDigits (n : Nat) : digits? (decimalDigits n) = some n := by
  unfold digits?
  rw [if_pos (isDigits_of_forall (decimalDigits_ne_nil n) fun _ => isDigit_of_mem_decimalDigits),
    digitsValue_decimalDigits]

theorem digitsValue_paddedDigits (width n : Nat) : digitsValue (paddedDigits width n) = n := by
  unfold paddedDigits
  rw [digitsValue_append, digitsValue_replicate, digitsValue_decimalDigits, Nat.mul_zero,
    Nat.zero_add]

theorem digits?_paddedDigits (width n : Nat) : digits? (paddedDigits width n) = some n := by
  unfold digits?
  have hdigits := isDigits_of_forall (paddedDigits_ne_nil width n) fun _ =>
    isDigit_of_mem_paddedDigits
  rw [if_pos hdigits, digitsValue_paddedDigits]

/-- Zeros fill a number up to exactly the width if it has no more digits than that. -/
theorem length_paddedDigits {width n : Nat} (hpos : 0 < width) (h : n < Nat.pow 10 width) :
    (paddedDigits width n).length = width := by
  have hle : (decimalDigits n).length ≤ width :=
    (Nat.length_toDigits_le_iff (by decide) hpos).mpr h
  unfold paddedDigits
  rw [List.length_append, List.length_replicate]
  omega

theorem le_length_paddedDigits (width n : Nat) : width ≤ (paddedDigits width n).length := by
  unfold paddedDigits
  rw [List.length_append, List.length_replicate]
  omega

theorem twoDigits?_paddedDigits {n : Nat} (h : n < 100) :
    twoDigits? (paddedDigits 2 n) = some n := by
  unfold twoDigits?
  rw [if_pos (length_paddedDigits (by decide) h), digits?_paddedDigits]

/-! ### Signs -/

/-- An integer as it is written. -/
theorem toList_toString_int (n : Int) :
    (toString n).toList = (if n < 0 then ['-'] else []) ++ decimalDigits n.natAbs := by
  cases n with
  | ofNat n =>
    have hnonneg : ¬Int.ofNat n < 0 := Int.not_lt.mpr (Int.natCast_nonneg n)
    rw [if_neg hnonneg]
    exact Nat.toList_repr
  | negSucc n =>
    rw [if_pos (Int.negSucc_lt_zero n)]
    show ("-" ++ (n + 1).repr).toList = _
    rw [String.toList_append, Nat.toList_repr]
    rfl

/-- A digit is no sign. -/
theorem signed_of_isDigit {cs : List Char} (h : ∀ c ∈ cs, c.isDigit = true) :
    signed cs = (false, cs) := by
  cases cs with
  | nil => rfl
  | cons c cs =>
    have hc := h c List.mem_cons_self
    unfold signed
    split
    · rename_i heq
      cases heq
      exact absurd hc (by decide)
    · rename_i heq
      cases heq
      exact absurd hc (by decide)
    · rfl

theorem integer?_toString (n : Int) : integer? (toString n).toList = some n := by
  rw [toList_toString_int]
  by_cases hneg : n < 0
  · rw [if_pos hneg, List.singleton_append]
    have hvalue : -((n.natAbs : Nat) : Int) = n := by omega
    simp only [integer?, signed, digits?_decimalDigits]
    exact congrArg some hvalue
  · rw [if_neg hneg, List.nil_append]
    have hvalue : ((n.natAbs : Nat) : Int) = n := by omega
    simp [integer?, signed_of_isDigit fun _ => isDigit_of_mem_decimalDigits, digits?_decimalDigits,
      hvalue]

/-- A sign as it may stand in front of digits: none at all, a minus, or a plus. -/
def IsSign (sign : List Char) : Prop :=
  sign = [] ∨ sign = ['-'] ∨ sign = ['+']

theorem exists_sign (cs : List Char) : ∃ sign, IsSign sign ∧ cs = sign ++ (signed cs).2 := by
  unfold signed
  split
  · exact ⟨['-'], Or.inr (Or.inl rfl), rfl⟩
  · exact ⟨['+'], Or.inr (Or.inr rfl), rfl⟩
  · exact ⟨[], Or.inl rfl, rfl⟩

/-- An integer is digits behind a sign. -/
theorem exists_digits_of_integer? {cs : List Char} {n : Int} (h : integer? cs = some n) :
    ∃ sign ds, IsSign sign ∧ isDigits ds = true ∧ cs = sign ++ ds := by
  obtain ⟨sign, hsign, heq⟩ := exists_sign cs
  unfold integer? at h
  obtain ⟨m, hm, -⟩ := Option.map_eq_some_iff.mp h
  obtain ⟨k, hk, -⟩ := Option.bind_eq_some_iff.mp hm
  exact ⟨sign, _, hsign, isDigits_of_digits? hk, heq⟩

/-! ### Fractions -/

/-- Trailing zeros are all that is dropped. -/
theorem dropTrailingZeros_append (cs : List Char) :
    ∃ n, cs = dropTrailingZeros cs ++ List.replicate n '0' := by
  have hzeros : ∀ c ∈ cs.reverse.takeWhile (· == '0'), c = '0' := fun c hc =>
    beq_iff_eq.mp (List.all_eq_true.mp (List.all_takeWhile) c hc)
  refine ⟨(cs.reverse.takeWhile (· == '0')).length, List.reverse_inj.mp ?_⟩
  unfold dropTrailingZeros
  rw [List.reverse_append, List.reverse_reverse, List.reverse_replicate,
    ← List.eq_replicate_of_mem hzeros, List.takeWhile_append_dropWhile]

theorem fractionDigits_eq {n : Nat} (h : n < 1000000000) :
    ∃ zeros, paddedDigits 9 n = fractionDigits n ++ List.replicate zeros '0' ∧
      (fractionDigits n).length + zeros = 9 := by
  obtain ⟨zeros, hzeros⟩ := dropTrailingZeros_append (paddedDigits 9 n)
  refine ⟨zeros, hzeros, ?_⟩
  have hlength := length_paddedDigits (show 0 < 9 by decide) h
  rw [hzeros, List.length_append, List.length_replicate] at hlength
  exact hlength

theorem isDigit_of_mem_fractionDigits {n : Nat} {c : Char} (h : c ∈ fractionDigits n) :
    c.isDigit = true := by
  obtain ⟨zeros, hzeros⟩ := dropTrailingZeros_append (paddedDigits 9 n)
  refine isDigit_of_mem_paddedDigits (show c ∈ paddedDigits 9 n from ?_)
  rw [hzeros]
  exact List.mem_append_left _ h

theorem nanoseconds?_fractionDigits {n : Nat} (hpos : 0 < n) (h : n < 1000000000) :
    nanoseconds? (fractionDigits n) = some n := by
  obtain ⟨zeros, hdigits, hlength⟩ := fractionDigits_eq h
  have hvalue : digitsValue (fractionDigits n) * 10 ^ zeros = n := by
    have hpadded := digitsValue_paddedDigits 9 n
    rw [hdigits, digitsValue_append, digitsValue_replicate, List.length_replicate] at hpadded
    rw [Nat.mul_comm]
    exact hpadded
  have hne : fractionDigits n ≠ [] := by
    intro hnil
    rw [hnil] at hvalue
    rw [show digitsValue [] = 0 from rfl, Nat.zero_mul] at hvalue
    omega
  have htake : (fractionDigits n).take 9 = fractionDigits n := List.take_of_length_le (by omega)
  have hzeros : 9 - (fractionDigits n).length = zeros := by omega
  unfold nanoseconds?
  rw [if_pos (isDigits_of_forall hne fun _ => isDigit_of_mem_fractionDigits), htake]
  show some (digitsValue (fractionDigits n) * 10 ^ (9 - (fractionDigits n).length)) = some n
  rw [hzeros, hvalue]

/-! ### Digit strings as data -/

theorem digitsValue_lt {cs : List Char} (h : ∀ c ∈ cs, c.isDigit = true) :
    digitsValue cs < Nat.pow 10 cs.length := by
  induction cs with
  | nil => decide
  | cons c cs ih =>
    have hvalue : digitsValue [c] < 10 := by
      have hc := Char.isDigit_iff_toNat.mp (h c List.mem_cons_self)
      show 10 * 0 + (c.toNat - 48) < 10
      rw [show '9'.toNat = 57 from rfl] at hc
      omega
    have hrest := ih fun d hd => h d (List.mem_cons_of_mem c hd)
    rw [show c :: cs = [c] ++ cs from rfl, digitsValue_append]
    calc Nat.pow 10 cs.length * digitsValue [c] + digitsValue cs
        < Nat.pow 10 cs.length * digitsValue [c] + Nat.pow 10 cs.length := by omega
      _ = Nat.pow 10 cs.length * (digitsValue [c] + 1) := (Nat.mul_succ _ _).symm
      _ ≤ Nat.pow 10 cs.length * 10 := Nat.mul_le_mul_left _ hvalue
      _ = Nat.pow 10 (cs.length + 1) := rfl

/-- A string of digits, at least one. -/
structure DigitString where
  chars : List Char
  isDigits : isDigits chars = true

namespace DigitString

/-- The number that is written in decimal. -/
def value (ds : DigitString) : Nat :=
  digitsValue ds.chars

/-- The whole nanoseconds in the fraction of a second whose decimals these are. -/
def nanoseconds (ds : DigitString) : Nat :=
  ds.value * Nat.pow 10 9 / Nat.pow 10 ds.chars.length

theorem isDigit_of_mem {ds : DigitString} {c : Char} (h : c ∈ ds.chars) : c.isDigit = true :=
  isDigit_of_isDigits ds.isDigits c h

theorem not_mem {ds : DigitString} {c : Char} (h : c.isDigit = false) : c ∉ ds.chars := by
  intro hmem
  rw [isDigit_of_mem hmem] at h
  cases h

theorem nanoseconds_lt (ds : DigitString) : ds.nanoseconds < 1000000000 := by
  have hvalue : ds.value < Nat.pow 10 ds.chars.length := digitsValue_lt fun _ => isDigit_of_mem
  refine Nat.div_lt_of_lt_mul ?_
  exact Nat.mul_lt_mul_of_pos_right hvalue (by decide)

/-- What is left of a fraction when the digits behind the ninth are dropped. -/
theorem nanoseconds_eq (ds : DigitString) :
    digitsValue (ds.chars.take 9) * Nat.pow 10 (9 - (ds.chars.take 9).length) =
      ds.nanoseconds := by
  have hpos (k : Nat) : 0 < Nat.pow 10 k := Nat.pow_pos (by decide)
  unfold nanoseconds value
  rcases Nat.le_total ds.chars.length 9 with hle | hle
  · have hpow : Nat.pow 10 9 = Nat.pow 10 (9 - ds.chars.length) * Nat.pow 10 ds.chars.length := by
      show 10 ^ 9 = 10 ^ (9 - ds.chars.length) * 10 ^ ds.chars.length
      rw [← Nat.pow_add, Nat.sub_add_cancel hle]
    rw [List.take_of_length_le hle, hpow, ← Nat.mul_assoc,
      Nat.mul_div_cancel _ (hpos _)]
  · have hlength : (ds.chars.take 9).length = 9 := List.length_take_of_le hle
    have hpow : Nat.pow 10 ds.chars.length = Nat.pow 10 (ds.chars.drop 9).length * Nat.pow 10 9 := by
      show 10 ^ ds.chars.length = 10 ^ (ds.chars.drop 9).length * 10 ^ 9
      rw [← Nat.pow_add, List.length_drop, Nat.sub_add_cancel hle]
    have hdropped : digitsValue (ds.chars.drop 9) < Nat.pow 10 (ds.chars.drop 9).length :=
      digitsValue_lt fun c hc => isDigit_of_mem (List.mem_of_mem_drop hc)
    have hvalue : digitsValue ds.chars = Nat.pow 10 (ds.chars.drop 9).length *
        digitsValue (ds.chars.take 9) + digitsValue (ds.chars.drop 9) := by
      rw [← digitsValue_append, List.take_append_drop]
    rw [hlength, hpow, Nat.mul_div_mul_right _ _ (by decide), hvalue,
      Nat.mul_add_div (hpos _), Nat.div_eq_of_lt hdropped]
    exact Nat.mul_one _

end DigitString

theorem digits?_eq_some_iff {cs : List Char} {n : Nat} :
    digits? cs = some n ↔ ∃ ds : DigitString, ds.chars = cs ∧ ds.value = n := by
  constructor
  · intro h
    have hdigits := isDigits_of_digits? h
    unfold digits? at h
    rw [if_pos hdigits] at h
    exact ⟨⟨cs, hdigits⟩, rfl, Option.some.inj h⟩
  · rintro ⟨ds, rfl, rfl⟩
    exact if_pos ds.isDigits

theorem nanoseconds?_eq_some_iff {cs : List Char} {n : Nat} :
    nanoseconds? cs = some n ↔ ∃ ds : DigitString, ds.chars = cs ∧ ds.nanoseconds = n := by
  have hread (ds : DigitString) : nanoseconds? ds.chars = some ds.nanoseconds := by
    unfold nanoseconds?
    rw [if_pos ds.isDigits]
    exact congrArg some ds.nanoseconds_eq
  constructor
  · intro h
    have hdigits : isDigits cs = true := by
      unfold nanoseconds? at h
      split at h
      · assumption
      · cases h
    exact ⟨⟨cs, hdigits⟩, rfl, Option.some.inj ((hread ⟨cs, hdigits⟩).symm.trans h)⟩
  · rintro ⟨ds, rfl, rfl⟩
    exact hread ds

/-- The digits of a fraction that is written, and its value. -/
theorem exists_fractionDigits {n : Nat} (hpos : 0 < n) (h : n < 1000000000) :
    ∃ ds : DigitString, ds.chars = fractionDigits n ∧ ds.nanoseconds = n :=
  nanoseconds?_eq_some_iff.mp (nanoseconds?_fractionDigits hpos h)

theorem exists_decimalDigits (n : Nat) :
    ∃ ds : DigitString, ds.chars = decimalDigits n ∧ ds.value = n :=
  digits?_eq_some_iff.mp (digits?_decimalDigits n)

end ODataRequest.Text
