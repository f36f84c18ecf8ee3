import ODataRequest.Proofs.Token.Literal

/-!
# ODataRequest.Proofs.Token.Recognized

Which literals of a text are literals of a type. A literal is found in one of five ways
(`LexemeForm`). A quoted text, a number, a word and a hyphenated identifier are what a value is
inferred from. Behind the words `duration`, `binary`, `geography` and `geometry` only the end of the
quoted text is looked for: a geographic literal has no type, and what is quoted behind the other two
words may be neither a duration nor a binary value (`Misquoted`).
-/

namespace ODataRequest

open PrimitiveValue

/-! ### Inferred values -/

namespace PrimitiveValue

theorem boolean?_eq_none_of_quote {cs : List Char} (h : '\'' ∈ cs) : boolean? cs = none := by
  have hne {word : List Char} (hword : '\'' ∉ word.map Char.toLower) :
      ¬Text.equalIgnoringCase cs word = true := by
    intro heq
    have hsame : cs.map Char.toLower = word.map Char.toLower := beq_iff_eq.mp heq
    exact hword (hsame ▸ List.mem_map_of_mem h)
  unfold boolean?
  rw [if_neg (hne (by decide)), if_neg (hne (by decide))]

/-- Between quotes stands a text. -/
theorem infer?_quote (cs : List Char) : (infer? (Text.quote cs)).isSome = true := by
  have hquote : '\'' ∈ Text.quote cs := List.mem_cons_self
  have hhead : (Text.quote cs).head? = some '\'' := rfl
  unfold infer?
  rw [boolean?_eq_none_of_quote hquote]
  dsimp only
  rw [if_neg (by rintro hnull; cases hnull), if_pos hhead, read?, Text.unquote?_quote]
  rfl

/-- Behind the word `duration` nothing but a duration is a literal. -/
theorem infer?_duration (body : List Char) :
    infer? ("duration".toList ++ '\'' :: (body ++ ['\''])) =
      (Duration.parse? body).map .duration := by
  have hstarts : Text.startsIgnoringCase "duration'".toList
      ("duration".toList ++ '\'' :: (body ++ ['\''])) = true :=
    startsIgnoringCase_append "duration'".toList _
  unfold infer?
  rw [boolean?_eq_none_of_quote (by simp)]
  dsimp only
  rw [if_neg (by simp), if_neg (by simp), if_pos hstarts, read?_duration]

/-- Behind the word `binary` nothing but a binary value is a literal. -/
theorem infer?_binary (body : List Char) :
    infer? ("binary".toList ++ '\'' :: (body ++ ['\''])) = (Base64.parse? body).map .binary := by
  have hstarts : Text.startsIgnoringCase "binary'".toList
      ("binary".toList ++ '\'' :: (body ++ ['\''])) = true :=
    startsIgnoringCase_append "binary'".toList _
  have hother : ¬Text.startsIgnoringCase "duration'".toList
      ("binary".toList ++ '\'' :: (body ++ ['\''])) = true := Bool.false_ne_true
  unfold infer?
  rw [boolean?_eq_none_of_quote (by simp)]
  dsimp only
  rw [if_neg (by simp), if_neg (by simp), if_neg hother, if_pos hstarts, read?_binary]

end PrimitiveValue

theorem Guid.quote_not_mem {cs : List Char} (h : (parse? cs).isSome = true) : '\'' ∉ cs := by
  obtain ⟨-, -, hall⟩ := Lexeme.guid_shape h
  intro hmem
  obtain ⟨i, hi⟩ := List.mem_iff_getElem?.mp hmem
  exact absurd (hall i '\'' hi) (by decide)

/-! ### Literals of a text -/

namespace Lexeme

/-- A duration or a binary value in quotes that cannot be read. -/
inductive Misquoted : List Char → Prop
  | duration {body : List Char} (unread : Duration.parse? body = none) :
      Misquoted ("duration".toList ++ '\'' :: (body ++ ['\'']))
  | binary {body : List Char} (unread : Base64.parse? body = none) :
      Misquoted ("binary".toList ++ '\'' :: (body ++ ['\'']))

/-- Does a text start like a geographic literal? -/
def isGeographic (cs : List Char) : Bool :=
  "geography'".toList.isPrefixOf cs || "geometry'".toList.isPrefixOf cs

/-- What the text of a literal may be. -/
inductive LiteralText (cs : List Char) : Prop
  | value (h : (infer? cs).isSome = true)
  | geographic (h : isGeographic cs = true)
  | misquoted (h : Misquoted cs)

theorem Misquoted.infer?_eq_none {cs : List Char} (h : Misquoted cs) : infer? cs = none := by
  cases h with
  | duration unread => rw [infer?_duration, unread, Option.map_none]
  | binary unread => rw [infer?_binary, unread, Option.map_none]

variable {c : Char} {cs : List Char} {n : Nat}

/-- A quoted text ends with its closing quote, and every quote before it is written twice. -/
theorem take_quotedLength? (h : quotedLength? cs = some n) :
    ∃ text, cs.take n = Text.doubleQuotes text ++ ['\''] := by
  fun_induction quotedLength? cs generalizing n with
  | case1 => cases h
  | case2 cs ih =>
    -- two quotes in a row: they stand for one, and the text goes on
    obtain ⟨m, hm, rfl⟩ := Option.map_eq_some_iff.mp h
    obtain ⟨text, htext⟩ := ih hm
    exact ⟨'\'' :: text, by simp [htext, Text.doubleQuotes]⟩
  | case3 cs =>
    cases h
    exact ⟨[], rfl⟩
  | case4 c cs hdouble hc ih =>
    obtain ⟨m, hm, rfl⟩ := Option.map_eq_some_iff.mp h
    obtain ⟨text, htext⟩ := ih hm
    exact ⟨c :: text, by simp [htext, Text.doubleQuotes, hc]⟩

/-- A word that makes a literal of a quoted text says how it is read, if it is read at all. -/
theorem literalText_quoted {word : List Char} (known : word ∈ quotedLiteralWords) (body : List Char) :
    LiteralText (word ++ '\'' :: (body ++ ['\''])) := by
  have hword : word = "duration".toList ∨ word = "binary".toList ∨ word = "geography".toList ∨
      word = "geometry".toList := by simpa [quotedLiteralWords] using known
  -- only the first two words have a type of values
  rcases hword with rfl | rfl | rfl | rfl
  · cases hread : Duration.parse? body with
    | none => exact .misquoted (.duration hread)
    | some d => exact .value (by rw [infer?_duration, hread]; rfl)
  · cases hread : Base64.parse? body with
    | none => exact .misquoted (.binary hread)
    | some b => exact .value (by rw [infer?_binary, hread]; rfl)
  · exact .geographic (by simp [isGeographic])
  · exact .geographic (by simp [isGeographic])

theorem WordForm.literalText (h : WordForm c cs .literal n) : LiteralText (c :: cs.take n) := by
  cases h with
  | quotedLiteral opens closes known =>
    obtain ⟨text, htext⟩ := take_quotedLength? closes
    rw [take_quoted opens, htext]
    exact literalText_quoted known _
  | literal known =>
    have hwords : literalWords.all (fun word => (infer? word).isSome) = true := by decide +kernel
    exact .value (List.all_eq_true.mp hwords _ known)
  | guid hguid =>
    have hread : (read? .guid (c :: cs.take 35)).isSome = true := by
      rw [read?, Option.isSome_map]
      exact hguid
    exact .value (infer?_isSome hread (Or.inr (Or.inl rfl)) (Guid.quote_not_mem hguid))

theorem literalText_of_lexeme? (h : lexeme? c cs = some (.literal, n)) :
    LiteralText (c :: cs.take n) := by
  cases lexemeForm h with
  | punctuation hmark => cases punctuation?_text hmark
  | quoted isQuote closes =>
    obtain ⟨text, htext⟩ := take_quotedLength? closes
    rw [isQuote, htext]
    exact .value (infer?_quote text)
  | number _ hnumber =>
    unfold number? at hnumber
    dsimp only at hnumber
    split at hnumber
    · next hinfer =>
      cases hnumber
      exact .value hinfer
    · cases hnumber
  | word _ hword => exact hword.literalText

end Lexeme

/-- The literals among the tokens of a text. -/
theorem literalText_of_tokenize {text : String} {ts : List Token} (h : tokenize text = .ok ts) :
    ∀ t ∈ ts, t.kind = .literal → Lexeme.LiteralText t.text.toList := by
  intro t ht hkind
  obtain hend | ⟨c, cs, n, -, hlexeme, htext⟩ := lexeme?_of_mem_tokenize h ht
  · rw [hkind] at hend
    cases hend
  · rw [hkind] at hlexeme
    rw [htext, String.toList_ofList]
    exact Lexeme.literalText_of_lexeme? hlexeme

end ODataRequest
