import ODataRequest.Primitive.Value
import ODataRequest.Proofs.Calendar.Date
import ODataRequest.Proofs.Calendar.Duration
import ODataRequest.Proofs.Calendar.TimeOfDay

/-!
# ODataRequest.Proofs.Primitive.Literal

Values of types with an exact literal: booleans, integers, dates, times of day, durations,
identifiers, texts and binary values. The literal of such a value is read back as this value
(`validate_literal`), and what is read as a literal has the type it is read as
(`kind?_of_validate`). Numbers with a fraction and points in time are left out; more than one literal
is a usual one for these.
-/

namespace ODataRequest

/-- The types whose values have an exact literal. -/
def PrimitiveKind.isExact : PrimitiveKind → Bool
  | .boolean | .integer _ | .date | .timeOfDay | .duration | .guid | .string | .binary => true
  | .decimal | .double | .single | .dateTimeOffset | .stream => false

/-! ### Quoted texts -/

theorem Text.unquote?_quote (cs : List Char) : Text.unquote? (Text.quote cs) = some cs := by
  unfold Text.quote
  show (Text.before? ['\''] (Text.doubleQuotes cs ++ ['\''])).bind Text.undoubleQuotes? = some cs
  rw [Text.before?_append, Option.bind_some, Text.undoubleQuotes?_doubleQuotes]

namespace PrimitiveValue

theorem stripQuotes_quoted {word : List Char} (cs : List Char)
    (h : Text.startsIgnoringCase word (word ++ '\'' :: (cs ++ ['\''])) = true) :
    stripQuotes word (word ++ '\'' :: (cs ++ ['\''])) = cs := by
  unfold stripQuotes
  rw [if_pos h, List.drop_left]
  show (Text.before? ['\''] (cs ++ ['\''])).getD _ = cs
  rw [Text.before?_append, Option.getD_some]

theorem startsIgnoringCase_append (word cs : List Char) :
    Text.startsIgnoringCase word (word ++ cs) = true := by
  induction word with
  | nil => rfl
  | cons c word ih => simp [Text.startsIgnoringCase, ih]

/-! ### Values -/

theorem integer?_literal (kind : IntegerKind) (n : BoundedInteger kind) :
    integer? kind (toString n.value).toList = some (.integer kind n) := by
  unfold integer? BoundedInteger.ofInt?
  rw [Text.integer?_toString]
  simp only [Option.bind_eq_bind, Option.bind_some]
  rw [dif_pos ⟨n.low_le, n.le_high⟩]
  rfl

end PrimitiveValue

theorem Guid.parse?_chars (g : Guid) : Guid.parse? g.chars = some g := by
  obtain ⟨chars, wellFormed, lower⟩ := g
  have hagain : isGuidText (chars.map Char.toLower) = true ∧
      (chars.map Char.toLower).map Char.toLower = chars.map Char.toLower := by
    rw [lower]
    exact ⟨wellFormed, lower⟩
  unfold Guid.parse?
  simp only [hagain, and_self, dite_true]
  exact congrArg some (by simp only [lower])

theorem Base64.parse?_chars (b : Base64) : Base64.parse? b.chars = some b := by
  unfold Base64.parse?
  rw [dif_pos b.wellFormed]

namespace PrimitiveValue

/-- Behind the word `duration` the duration stands in quotes. -/
theorem read?_duration (cs : List Char) :
    read? .duration ("duration".toList ++ '\'' :: (cs ++ ['\''])) =
      (Duration.parse? cs).map .duration := by
  rw [read?, stripQuotes_quoted _ (startsIgnoringCase_append _ _)]

/-- Behind the word `binary` the digits stand in quotes. -/
theorem read?_binary (cs : List Char) :
    read? .binary ("binary".toList ++ '\'' :: (cs ++ ['\''])) = (Base64.parse? cs).map .binary := by
  have hword : Text.startsIgnoringCase "binary'".toList
      ("binary".toList ++ '\'' :: (cs ++ ['\''])) = true :=
    startsIgnoringCase_append "binary'".toList _
  rw [read?]
  simp only [hword, if_true]
  rw [stripQuotes_quoted _ (startsIgnoringCase_append _ _)]

/-- The literal of a value is read back as the value. -/
theorem read?_literal {v : PrimitiveValue} {kind : PrimitiveKind} (hkind : v.kind? = some kind)
    (hexact : kind.isExact = true) : read? kind v.literal.toList = some v := by
  cases v with
  | null => cases hkind
  | binary b =>
    cases hkind
    have hliteral : (PrimitiveValue.binary b).literal.toList =
        "binary".toList ++ '\'' :: (b.chars ++ ['\'']) := by simp [literal]
    rw [hliteral, read?_binary, Base64.parse?_chars, Option.map_some]
  | boolean b =>
    cases hkind
    cases b <;> rfl
  | integer k n =>
    cases hkind
    exact integer?_literal k n
  | decimal | single | double | dateTimeOffset =>
    cases hkind
    cases hexact
  | date d =>
    cases hkind
    rw [literal, read?, Date.text, String.toList_ofList, Date.parse?_chars, Option.map_some]
  | timeOfDay t =>
    cases hkind
    rw [literal, read?, TimeOfDay.text, String.toList_ofList, TimeOfDay.parse?_chars,
      Option.map_some]
  | duration d =>
    cases hkind
    have hliteral : (PrimitiveValue.duration d).literal.toList =
        "duration".toList ++ '\'' :: (d.chars ++ ['\'']) := by simp [literal, Duration.text]
    rw [hliteral, read?_duration, Duration.parse?_chars, Option.map_some]
  | guid g =>
    cases hkind
    rw [literal, read?, Guid.text, String.toList_ofList, Guid.parse?_chars, Option.map_some]
  | string s =>
    cases hkind
    have hliteral : (PrimitiveValue.string s).literal.toList = Text.quote s.toList := by
      simp [literal]
    rw [hliteral, read?, Text.unquote?_quote, Option.map_some, String.ofList_toList]

/-- No literal of a value is `null`. -/
theorem literal_ne_null {v : PrimitiveValue} {kind : PrimitiveKind} (hkind : v.kind? = some kind)
    (hexact : kind.isExact = true) : v.literal ≠ "null" := by
  intro hnull
  have hchars := congrArg String.toList hnull
  have hn : 'n' ∈ v.literal.toList := by
    rw [hchars]
    decide
  cases v with
  | null => cases hkind
  | binary b => simp [literal] at hchars
  | boolean b => cases b <;> simp [literal] at hchars
  | integer k n =>
    rw [literal, Text.toList_toString_int] at hn
    rcases List.mem_append.mp hn with hn | hn
    · split at hn <;> simp at hn
    · exact absurd (Text.isDigit_of_mem_decimalDigits hn) (by decide)
  | decimal | single | double | dateTimeOffset =>
    cases hkind
    cases hexact
  | date d =>
    rw [literal, Date.text, String.toList_ofList] at hn
    exact absurd (Date.isDigit_or_minus_of_mem_chars hn) (by decide)
  | timeOfDay t =>
    rw [literal, TimeOfDay.text, String.toList_ofList] at hn
    exact absurd (TimeOfDay.isDigit_or_mark_of_mem_chars hn) (by decide)
  | duration d => simp [literal] at hchars
  | guid g =>
    rw [literal, Guid.text, String.toList_ofList] at hchars
    have hform := g.wellFormed
    rw [hchars] at hform
    exact absurd hform (by decide)
  | string s => simp [literal, Text.quote] at hchars

/-- The literal of a value is a valid one of its type, and of this value. -/
theorem validate_literal {v : PrimitiveValue} {kind : PrimitiveKind} (hkind : v.kind? = some kind)
    (hexact : kind.isExact = true) : kind.validate v.literal = .ok v := by
  unfold PrimitiveKind.validate
  rw [if_neg (literal_ne_null hkind hexact), read?_literal hkind hexact]

end PrimitiveValue

/-! ### Valid literals -/

/-- A valid literal is `null`, or what the type reads. -/
theorem PrimitiveKind.validate_eq_ok_iff {kind : PrimitiveKind} {text : String}
    {v : PrimitiveValue} : kind.validate text = .ok v ↔
      (text = "null" ∧ v = .null) ∨ (text ≠ "null" ∧ PrimitiveValue.read? kind text.toList = some v) := by
  unfold PrimitiveKind.validate
  by_cases hnull : text = "null"
  · simp [hnull, eq_comm]
  · cases hread : PrimitiveValue.read? kind text.toList with
    | none => simp [hnull]
    | some w => simp [hnull]

/-- A value that is read has the type it is read as. -/
theorem PrimitiveValue.kind?_of_read? {kind : PrimitiveKind} {cs : List Char}
    {value : PrimitiveValue} (h : PrimitiveValue.read? kind cs = some value) :
    value.kind? = some kind := by
  cases kind with
  | integer k =>
    simp only [read?, integer?, Option.bind_eq_bind, Option.bind_eq_some_iff,
      Option.map_eq_some_iff] at h
    obtain ⟨-, -, -, -, rfl⟩ := h
    rfl
  | stream => cases h
  | _ =>
    simp only [read?, Option.map_eq_some_iff] at h
    obtain ⟨-, -, rfl⟩ := h
    rfl

/-- A literal that is valid for a kind is `null` or has a value of this kind. -/
theorem kind?_of_validate {kind : PrimitiveKind} {literal : String} {value : PrimitiveValue}
    (h : kind.validate literal = .ok value) (hnull : value ≠ .null) : value.kind? = some kind := by
  unfold PrimitiveKind.validate at h
  split at h
  · cases h
    exact absurd rfl hnull
  · split at h
    · rename_i hread
      cases h
      exact PrimitiveValue.kind?_of_read? hread
    · cases h

end ODataRequest
