import ODataRequest.Proofs.Primitive.Literal
import ODataRequest.Proofs.Token.Spelling

/-!
# ODataRequest.Proofs.Token.Literal

Literals of values are tokens: in front of every boundary they are lexed as one literal
(`literal_stands`). Identifiers are tokens too, unless they are literals (`identifier_stands`).
-/

namespace ODataRequest

open PrimitiveValue

namespace Lexeme

theorem isSpace_eq_false {c : Char} {p : Char → Bool} (h : p c = true) (hspace : p ' ' = false)
    (htab : p '\t' = false) : isSpace c = false := by
  cases hc : isSpace c with
  | false => rfl
  | true =>
    simp only [isSpace, Bool.or_eq_true, beq_iff_eq] at hc
    rcases hc with rfl | rfl
    · rw [h] at hspace
      cases hspace
    · rw [h] at htab
      cases htab

/-! ### Numbers -/

/-- A digit is lexed as the start of a number. -/
theorem lexeme?_digit {c : Char} (h : c.isDigit = true) (cs : List Char) :
    lexeme? c cs = number? c cs := by
  have hpunctuation : punctuation? c = none := by
    cases hkind : punctuation? c with
    | none => rfl
    | some kind =>
      unfold punctuation? at hkind
      split at hkind <;> first | (cases hkind; done) | exact absurd h (by decide)
  have hne : ∀ x : Char, x.isDigit = false → c ≠ x := by
    rintro x hx rfl
    rw [h] at hx
    cases hx
  simp [lexeme?, hpunctuation, hne '\'' (by decide), hne '@' (by decide), hne '$' (by decide),
    hne '-' (by decide), h]

/-- A minus in front of a digit is lexed as the start of a number. -/
theorem lexeme?_minus {c : Char} (h : c.isDigit = true) (cs : List Char) :
    lexeme? '-' (c :: cs) = number? '-' (c :: cs) := by
  have hpunctuation : punctuation? '-' = none := by decide
  simp [lexeme?, hpunctuation, h]

theorem number?_eq {c : Char} {cs : List Char} (hparts : ∀ x ∈ cs, isNumberPart x = true)
    (hinfer : (infer? (c :: cs)).isSome = true) : number? c cs = some (.literal, cs.length) := by
  have hrun : runLength isNumberPart cs = cs.length := by
    unfold runLength
    rw [List.takeWhile_eq_self_iff.mpr hparts]
  unfold number?
  simp only [hrun, List.take_length, hinfer, if_true]

theorem isNumberPart_of_isDigit {c : Char} (h : c.isDigit = true) : isNumberPart c = true := by
  simp [isNumberPart, Char.isAlphanum, h]

theorem toLower_of_isDigit {c : Char} (h : c.isDigit = true) : c.toLower = c := by
  unfold Char.toLower
  refine dif_neg ?_
  rintro ⟨hlow, -⟩
  simp only [Char.isDigit, Bool.and_eq_true, decide_eq_true_eq] at h
  simp only [ge_iff_le, UInt32.le_iff_toNat_le] at hlow h
  have hA : 'A'.val.toNat = 65 := by decide
  have h9 : '9'.val.toNat = 57 := by decide
  omega

/-- A text without quotes that is a literal of one of these types is a literal of some type. -/
theorem infer?_isSome {cs : List Char} {kind : PrimitiveKind}
    (hread : (read? kind cs).isSome = true)
    (hkind : (∃ k, kind = .integer k) ∨ kind = .guid ∨ kind = .date ∨ kind = .timeOfDay)
    (hquote : '\'' ∉ cs) : (infer? cs).isSome = true := by
  have hhead : cs.head? ≠ some '\'' := fun h => hquote (List.mem_of_mem_head? h)
  have htyped {word : List Char} (hword : '\'' ∈ word) : ¬Text.startsIgnoringCase word cs = true :=
    fun h => hquote (Text.mem_of_startsIgnoringCase h hword (by decide) (by decide))
  have hnumber : (∃ k, kind = .integer k) → (inferNumber? cs).isSome = true := by
    rintro ⟨k, rfl⟩
    have hsome : ([IntegerKind.sbyte, .byte, .int16, .int32, .int64].findSome? fun k =>
        integer? k cs).isSome = true := by
      rw [List.findSome?_isSome_iff]
      exact ⟨k, by cases k <;> simp, hread⟩
    unfold inferNumber?
    rw [Option.isSome_or, hsome, Bool.true_or]
  have hother : ¬(∃ k, kind = .integer k) →
      ([PrimitiveKind.guid, .dateTimeOffset, .date, .timeOfDay].findSome? fun k =>
        read? k cs).isSome = true := by
    intro hinteger
    rw [List.findSome?_isSome_iff]
    refine ⟨kind, ?_, hread⟩
    rcases hkind with h | rfl | rfl | rfl
    · exact absurd h hinteger
    all_goals simp
  unfold infer?
  split
  · rfl
  split
  · rfl
  · rw [if_neg (htyped (by decide)), if_neg (htyped (by decide)), Option.isSome_or]
    by_cases hinteger : ∃ k, kind = .integer k
    · rw [hnumber hinteger, Bool.or_true]
    · rw [hother hinteger, Bool.true_or]

/-- A digit, or a minus with a digit behind it, starts a number. -/
theorem lexeme?_number {c : Char} {cs : List Char} {kind : PrimitiveKind}
    (hread : (read? kind (c :: cs)).isSome = true)
    (hkind : (∃ k, kind = .integer k) ∨ kind = .guid ∨ kind = .date ∨ kind = .timeOfDay)
    (hstart : c.isDigit = true ∨ (c = '-' ∧ ∃ d ds, cs = d :: ds ∧ d.isDigit = true))
    (hparts : ∀ x ∈ cs, isNumberPart x = true) :
    lexeme? c cs = some (.literal, cs.length) := by
  have hquote : '\'' ∉ c :: cs := by
    refine List.not_mem_cons_of_ne_of_not_mem ?_ (Text.not_mem_of_forall hparts (by decide))
    rintro rfl
    rcases hstart with hdigit | ⟨hminus, -⟩
    · cases hdigit
    · cases hminus
  have hinfer := infer?_isSome hread hkind hquote
  rcases hstart with hdigit | ⟨rfl, d, ds, rfl, hdigit⟩
  · rw [lexeme?_digit hdigit]
    exact number?_eq hparts hinfer
  · rw [lexeme?_minus hdigit]
    exact number?_eq hparts hinfer

/-! ### Words -/

theorem isDigit_eq_false_of_isIdentifierStart {c : Char} (h : isIdentifierStart c = true) :
    c.isDigit = false := by
  cases hdigit : c.isDigit with
  | false => rfl
  | true =>
    simp only [Char.isDigit, Bool.and_eq_true, decide_eq_true_eq] at hdigit
    have hbounds : 48 ≤ c.toNat ∧ c.toNat ≤ 57 := hdigit
    have hascii : c.toNat < 0x80 := by omega
    have halpha : c.isAlpha = true ∨ c = '_' := by
      simpa [isIdentifierStart, Text.isAlphabetic, hascii] using h
    rcases halpha with halpha | rfl
    · delta Char.isAlpha Char.isUpper Char.isLower at halpha
      simp only [Bool.or_eq_true, Bool.and_eq_true, decide_eq_true_eq, UInt32.le_iff_toNat_le,
        ge_iff_le] at halpha
      change (65 ≤ c.toNat ∧ c.toNat ≤ 90) ∨ (97 ≤ c.toNat ∧ c.toNat ≤ 122) at halpha
      omega
    · exact absurd hbounds (by decide)

/-- What may start an identifier is lexed as the start of a word. -/
theorem lexeme?_word {c : Char} (h : isIdentifierStart c = true) (cs : List Char) :
    lexeme? c cs = word? c cs := by
  have hne : ∀ x : Char, isIdentifierStart x = false → c ≠ x := by
    rintro x hx rfl
    rw [h] at hx
    cases hx
  have hpunctuation : punctuation? c = none := by
    cases hkind : punctuation? c with
    | none => rfl
    | some kind =>
      unfold punctuation? at hkind
      split at hkind <;> first | (cases hkind; done) | exact absurd h (by decide)
  simp [lexeme?, hpunctuation, hne '\'' (by decide), hne '@' (by decide), hne '$' (by decide),
    hne '-' (by decide), isDigit_eq_false_of_isIdentifierStart h, h]

/-- A word that has no dots in it ends where another character stands. -/
theorem wordLength_of_identifierParts {word behind : List Char}
    (hword : ∀ x ∈ word, isIdentifierPart x = true)
    (h : ∀ c ∈ behind.head?, isIdentifierPart c = false ∧ c ≠ '.') :
    wordLength (word ++ behind) = word.length := by
  induction word with
  | nil => exact wordLength_eq_zero h
  | cons x word ih =>
    have ih := ih fun y hy => hword y (List.mem_cons_of_mem x hy)
    rw [List.cons_append, wordLength, if_pos (hword x List.mem_cons_self), ih, List.length_cons]

/-! ### Hyphenated identifiers -/

theorem isAlphanum_of_hexValue? {c : Char} (h : (Text.hexValue? c).isSome = true) :
    c.isAlphanum = true := by
  unfold Text.hexValue? at h
  split at h
  · rename_i hdigit
    simp [Char.isAlphanum, hdigit]
  split at h
  · rename_i hlower
    have hbounds : 97 ≤ c.val ∧ c.val ≤ 122 :=
      ⟨hlower.1, UInt32.le_trans hlower.2 (by decide)⟩
    delta Char.isAlphanum Char.isAlpha Char.isLower
    simp [hbounds.1, hbounds.2]
  split at h
  · rename_i hupper
    have hbounds : 65 ≤ c.val ∧ c.val ≤ 90 :=
      ⟨hupper.1, UInt32.le_trans hupper.2 (by decide)⟩
    delta Char.isAlphanum Char.isAlpha Char.isUpper
    simp [hbounds.1, hbounds.2]
  · cases h

/-- The characters of a hyphenated identifier. -/
theorem guid_chars (g : Guid) : ∃ c cs, g.chars = c :: cs ∧ cs.length = 35 ∧
    (Text.hexValue? c).isSome = true ∧ cs[7]? = some '-' ∧
      ∀ x ∈ cs, x = '-' ∨ (Text.hexValue? x).isSome = true := by
  have hform := g.wellFormed
  simp only [isGuidText, Bool.and_eq_true, beq_iff_eq, List.all_eq_true] at hform
  have hplace : ∀ (i : Nat) (c : Char), g.chars[i]? = some c → isGuidChar i c = true := by
    intro i c hc
    refine hform.2 (c, i) ?_
    rw [List.mem_zipIdx_iff_getElem?]
    exact hc
  cases hchars : g.chars with
  | nil => simp [hchars] at hform
  | cons c cs =>
    rw [hchars] at hform hplace
    refine ⟨c, cs, rfl, by simpa using hform.1, hplace 0 c rfl, ?_, fun x hx => ?_⟩
    · have hlength : 7 < cs.length := by
        have h36 := hform.1
        rw [List.length_cons] at h36
        omega
      have h7 : cs[7]? = some cs[7] := List.getElem?_eq_getElem hlength
      have hc := hplace 8 _ h7
      rw [h7]
      simpa [isGuidChar] using hc
    · obtain ⟨i, hi⟩ := List.mem_iff_getElem?.mp hx
      have hc := hplace (i + 1) x hi
      unfold isGuidChar at hc
      split at hc
      · exact Or.inl (by simpa using hc)
      · exact Or.inr hc

/-- A word with a hyphen behind it is a hyphenated identifier if it can be one: no word that is a
literal has hexadecimal digits only. -/
theorem lexeme?_guid (g : Guid) : ∃ c cs, g.chars = c :: cs ∧ isSpace c = false ∧
    lexeme? c cs = some (.literal, cs.length) := by
  obtain ⟨c, cs, hchars, hlength, hfirst, hhyphen, hall⟩ := guid_chars g
  have hread : (read? .guid (c :: cs)).isSome = true := by
    rw [read?, ← hchars, Guid.parse?_chars]
    rfl
  have halphanum := isAlphanum_of_hexValue? hfirst
  have hspace : isSpace c = false := isSpace_eq_false halphanum (by decide) (by decide)
  refine ⟨c, cs, hchars, hspace, ?_⟩
  by_cases hdigit : c.isDigit = true
  · refine lexeme?_number hread (Or.inr (Or.inl rfl)) (Or.inl hdigit) fun x hx => ?_
    rcases hall x hx with rfl | hx
    · decide
    · simp [isNumberPart, isAlphanum_of_hexValue? hx]
  · have hstart : isIdentifierStart c = true := by
      have halpha : c.isAlpha = true := by simpa [Char.isAlphanum, hdigit] using halphanum
      simp [isIdentifierStart, Text.isAlphabetic_of_isAlpha halpha]
    have hunquoted : (cs.drop (wordLength cs)).head? ≠ some '\'' := by
      intro hquote
      rw [List.head?_drop] at hquote
      exact absurd (hall '\'' (List.mem_of_getElem? hquote)) (by decide)
    have hword : literalWords.contains (c :: cs.take (wordLength cs)) = false := by
      have hother : literalWords.all
          (fun w => w.any fun x => x != '-' && !(Text.hexValue? x).isSome) = true := by decide
      rw [← Bool.not_eq_true, List.contains_iff_mem]
      intro hmem
      obtain ⟨x, hx, hletter⟩ := List.any_eq_true.mp (List.all_eq_true.mp hother _ hmem)
      simp only [Bool.and_eq_true, bne_iff_ne, Bool.not_eq_true'] at hletter
      obtain ⟨hne, hnone⟩ := hletter
      have hhex : x = '-' ∨ (Text.hexValue? x).isSome = true := by
        rcases List.mem_cons.mp hx with rfl | hx
        · exact Or.inr hfirst
        · exact hall x (List.mem_of_mem_take hx)
      rcases hhex with h | h
      · exact hne h
      · rw [hnone] at h
        cases h
    have hguid : (Guid.parse? (c :: cs.take 35)).isSome = true := by
      rw [List.take_of_length_le (Nat.le_of_eq hlength), ← hchars, Guid.parse?_chars]
      rfl
    rw [lexeme?_word hstart, word?_unquoted hunquoted, hword, if_neg (by decide), if_pos hguid,
      hlength]

/-! ### Quoted texts -/

theorem quotedLength?_doubleQuotes (cs : List Char) :
    quotedLength? (Text.doubleQuotes cs ++ ['\'']) = some ((Text.doubleQuotes cs).length + 1) := by
  induction cs with
  | nil => rfl
  | cons c cs ih =>
    by_cases hquote : c = '\''
    · simp [Text.doubleQuotes, hquote, quotedLength?, ih]
    · simp [Text.doubleQuotes, hquote, quotedLength?_cons_of_ne hquote, ih]

theorem doubleQuotes_of_not_mem {cs : List Char} (h : '\'' ∉ cs) : Text.doubleQuotes cs = cs := by
  induction cs with
  | nil => rfl
  | cons c cs ih =>
    rw [List.mem_cons, not_or] at h
    have hne : c ≠ '\'' := fun heq => h.1 heq.symm
    simp [Text.doubleQuotes, hne, ih h.2]

/-- A word that makes a literal of the quoted text behind it. -/
theorem lexeme?_quotedWord {c : Char} {word text : List Char} (hstart : isIdentifierStart c = true)
    (hword : ∀ x ∈ word, isIdentifierPart x = true)
    (hknown : quotedLiteralWords.contains (c :: word) = true) (hquote : '\'' ∉ text) :
    lexeme? c (word ++ '\'' :: (text ++ ['\''])) =
      some (.literal, (word ++ '\'' :: (text ++ ['\''])).length) := by
  have hlength : wordLength (word ++ '\'' :: (text ++ ['\''])) = word.length :=
    wordLength_of_identifierParts hword (by simp; decide)
  have hdrop : (word ++ '\'' :: (text ++ ['\''])).drop
      (wordLength (word ++ '\'' :: (text ++ ['\'']))) = '\'' :: (text ++ ['\'']) := by
    rw [hlength, List.drop_left]
  have hquoted := quotedLength?_doubleQuotes text
  rw [doubleQuotes_of_not_mem hquote] at hquoted
  rw [lexeme?_word hstart, word?_quoted hdrop, hquoted, Option.bind_some, hlength, List.take_left,
    if_pos hknown]
  simp
  omega

end Lexeme

open Lexeme

theorem Base64.quote_not_mem_chars (b : Base64) : '\'' ∉ b.chars := by
  intro h
  have hform := b.wellFormed
  simp only [isBase64, Bool.and_eq_true, List.all_eq_true] at hform
  rw [← List.mem_reverse,
    ← List.takeWhile_append_dropWhile (p := (· == '=')) (l := b.chars.reverse)] at h
  rcases List.mem_append.mp h with h | h
  · exact absurd (List.all_eq_true.mp List.all_takeWhile _ h) (by decide)
  · exact absurd (hform.2 _ h) (by decide)

/-! ### Tokens -/

/-- A literal that starts like a number is one token. -/
theorem number_stands {text : String} {c : Char} {cs : List Char} {kind : PrimitiveKind}
    (htext : text.toList = c :: cs) (hread : (read? kind text.toList).isSome = true)
    (hkind : (∃ k, kind = .integer k) ∨ kind = .guid ∨ kind = .date ∨ kind = .timeOfDay)
    (hstart : c.isDigit = true ∨ (c = '-' ∧ ∃ d ds, cs = d :: ds ∧ d.isDigit = true))
    (hparts : ∀ x ∈ cs, isNumberPart x = true) : (Word.mk .literal text).Stands := by
  have hspace : isSpace c = false := by
    rcases hstart with h | ⟨rfl, -⟩
    · exact isSpace_eq_false h (by decide) (by decide)
    · decide
  rw [htext] at hread
  exact Word.stands_of_lexeme? htext hspace (lexeme?_number hread hkind hstart hparts)

theorem integer_stands {k : IntegerKind} {n : Int}
    (hread : (read? (.integer k) (toString n).toList).isSome = true) :
    (Word.mk .literal (toString n)).Stands := by
  have hchars := Text.toList_toString_int n
  cases hdigits : Text.decimalDigits n.natAbs with
  | nil => exact absurd hdigits (Text.decimalDigits_ne_nil _)
  | cons d ds =>
    have hall : ∀ x ∈ d :: ds, x.isDigit = true := fun x hx =>
      Text.isDigit_of_mem_decimalDigits (hdigits ▸ hx)
    rw [hdigits] at hchars
    by_cases hneg : n < 0
    · rw [if_pos hneg] at hchars
      exact number_stands hchars hread (Or.inl ⟨k, rfl⟩)
        (Or.inr ⟨rfl, d, ds, rfl, hall d List.mem_cons_self⟩)
        fun x hx => isNumberPart_of_isDigit (hall x hx)
    · rw [if_neg hneg] at hchars
      exact number_stands hchars hread (Or.inl ⟨k, rfl⟩) (Or.inl (hall d List.mem_cons_self))
        fun x hx => isNumberPart_of_isDigit (hall x (List.mem_cons_of_mem d hx))

theorem date_stands (d : Date) : (Word.mk .literal d.text).Stands := by
  have htext : d.text.toList = d.chars := String.toList_ofList
  have hread : (read? .date d.text.toList).isSome = true := by
    rw [read?, htext, Date.parse?_chars]
    rfl
  have hparts : ∀ x ∈ d.chars, isNumberPart x = true := by
    intro x hx
    rcases Date.isDigit_or_minus_of_mem_chars hx with h | rfl
    · exact isNumberPart_of_isDigit h
    · decide
  obtain ⟨c, cs, hunsigned, hdigit⟩ := d.unsignedChars_eq_cons
  by_cases hneg : d.year < 0
  · have hchars : d.chars = '-' :: c :: cs := by rw [Date.chars, if_pos hneg, hunsigned]
    rw [hchars] at htext hparts
    exact number_stands htext hread (Or.inr (Or.inr (Or.inl rfl)))
      (Or.inr ⟨rfl, c, cs, rfl, hdigit⟩) fun x hx => hparts x (List.mem_cons_of_mem _ hx)
  · have hchars : d.chars = c :: cs := by rw [Date.chars, if_neg hneg, hunsigned]
    rw [hchars] at htext hparts
    exact number_stands htext hread (Or.inr (Or.inr (Or.inl rfl))) (Or.inl hdigit)
      fun x hx => hparts x (List.mem_cons_of_mem _ hx)

theorem timeOfDay_stands (t : TimeOfDay) : (Word.mk .literal t.text).Stands := by
  have htext : t.text.toList = t.chars := String.toList_ofList
  have hread : (read? .timeOfDay t.text.toList).isSome = true := by
    rw [read?, htext, TimeOfDay.parse?_chars]
    rfl
  obtain ⟨c, cs, hchars, hdigit⟩ := t.chars_eq_cons
  have hparts : ∀ x ∈ t.chars, isNumberPart x = true := by
    intro x hx
    rcases TimeOfDay.isDigit_or_mark_of_mem_chars hx with h | rfl | rfl
    · exact isNumberPart_of_isDigit h
    · decide
    · decide
  rw [hchars] at htext hparts
  exact number_stands htext hread (Or.inr (Or.inr (Or.inr rfl))) (Or.inl hdigit)
    fun x hx => hparts x (List.mem_cons_of_mem c hx)

theorem guid_stands (g : Guid) : (Word.mk .literal g.text).Stands := by
  obtain ⟨c, cs, hchars, hspace, hlexeme⟩ := lexeme?_guid g
  have htext : g.text.toList = c :: cs := by rw [← hchars, Guid.text, String.toList_ofList]
  exact Word.stands_of_lexeme? htext hspace hlexeme

theorem string_stands (cs : List Char) :
    (Word.mk .literal (String.ofList (Text.quote cs))).Stands := by
  have hlexeme : lexeme? '\'' (Text.doubleQuotes cs ++ ['\'']) =
      some (.literal, (Text.doubleQuotes cs ++ ['\'']).length) := by
    have hpunctuation : punctuation? '\'' = none := by decide
    simp [lexeme?, hpunctuation, quotedLength?_doubleQuotes]
  exact Word.stands_of_lexeme? String.toList_ofList (by decide) hlexeme

/-- The literal of a value is one token in front of every boundary. -/
theorem PrimitiveValue.literal_stands {v : PrimitiveValue} {kind : PrimitiveKind}
    (hkind : v.kind? = some kind) (hexact : kind.isExact = true) :
    (Word.mk .literal v.literal).Stands := by
  have hread := read?_literal hkind hexact
  cases v with
  | null => cases hkind
  | decimal | single | double | dateTimeOffset =>
    cases hkind
    cases hexact
  | binary b =>
    have htext : (PrimitiveValue.binary b).literal.toList =
        'b' :: ("inary".toList ++ '\'' :: (b.chars ++ ['\''])) := by simp [literal]
    refine Word.stands_of_lexeme? htext (by decide) ?_
    exact lexeme?_quotedWord (by decide) (List.all_eq_true.mp (by decide)) (by decide)
      b.quote_not_mem_chars
  | boolean b =>
    cases b
    · exact Word.stands_of_lexeme? (c := 'f') rfl (by decide) (by decide +kernel)
    · exact Word.stands_of_lexeme? (c := 't') rfl (by decide) (by decide +kernel)
  | integer k n =>
    cases hkind
    exact integer_stands (k := k) (by rw [← literal, hread]; rfl)
  | date d => exact date_stands d
  | timeOfDay t => exact timeOfDay_stands t
  | duration d =>
    have htext : (PrimitiveValue.duration d).literal.toList =
        'd' :: ("uration".toList ++ '\'' :: (d.chars ++ ['\''])) := by simp [literal, Duration.text]
    refine Word.stands_of_lexeme? htext (by decide) ?_
    exact lexeme?_quotedWord (by decide) (List.all_eq_true.mp (by decide)) (by decide)
      d.quote_not_mem_chars
  | guid g => exact guid_stands g
  | string s => exact string_stands s.toList

/-- A word that is no literal is one token in front of every boundary. -/
theorem word_stands {text : String} {c : Char} {cs : List Char} (htext : text.toList = c :: cs)
    (hstart : isIdentifierStart c = true) (hlength : wordLength cs = cs.length)
    (hword : (c :: cs) ∉ literalWords) : (Word.identifier text).Stands := by
  have hguid : (Guid.parse? (c :: (cs ++ []).take 35)).isSome = false :=
    not_guid_of_bounded (by rw [List.append_nil, hlength]) bounded_nil
  rw [List.append_nil] at hguid
  refine Word.stands_of_lexeme? htext ?_ ?_
  · exact isSpace_eq_false hstart (by decide) (by decide)
  · rw [lexeme?_word hstart, word?_unquoted (by simp [hlength]), hlength, List.take_length,
      if_neg (by simpa using hword), hguid, if_neg (by decide)]
    rfl

/-- Is a text an identifier that is no literal? -/
def isSimpleName (text : String) : Bool :=
  isIdentifier text.toList && !literalWords.contains text.toList

/-- An identifier that is no literal is one token in front of every boundary. -/
theorem identifier_stands {text : String} (h : isSimpleName text = true) :
    (Word.identifier text).Stands := by
  simp only [isSimpleName, Bool.and_eq_true, Bool.not_eq_true'] at h
  obtain ⟨hform, hword⟩ := h
  cases hchars : text.toList with
  | nil => simp [hchars, isIdentifier] at hform
  | cons c cs =>
    rw [hchars] at hform hword
    simp only [isIdentifier, Bool.and_eq_true, List.all_eq_true] at hform
    have hlength : wordLength (cs ++ []) = cs.length :=
      wordLength_of_identifierParts hform.2 (by simp)
    rw [List.append_nil] at hlength
    exact word_stands hchars hform.1 hlength (by simpa using hword)

end ODataRequest
