import ODataRequest.Proofs.Text.TopLevel
import ODataRequest.Proofs.Token.Name

/-!
# ODataRequest.Proofs.Token.Portable

Words that may be written between parentheses. Such a word is lexed in front of every boundary, and
its own quotes are closed, so that it neither ends a group nor lets a separator through. All tokens
but parentheses and semicolons are such words (`portable_of_tokenize`), whatever text they come
from, and so are names.
-/

namespace ODataRequest

open Text Lexeme

/-! ### Texts of tokens -/

namespace Lexeme

/-- A class of characters without quotes, parentheses and semicolons. -/
def IsQuiet (p : Char → Bool) : Prop :=
  p '\'' = false ∧ p '(' = false ∧ p ')' = false ∧ p ';' = false

theorem IsQuiet.calm {p : Char → Bool} (h : IsQuiet p) {cs : List Char}
    (hcs : ∀ c ∈ cs, p c = true) : Calm cs := by
  obtain ⟨hquote, hopening, hclosing, hsemicolon⟩ := h
  refine .of_forall fun c hc => ⟨?_, ?_, ?_, ?_⟩
  · rintro rfl
    rw [hcs _ hc] at hquote
    cases hquote
  · rintro rfl
    rw [hcs _ hc] at hopening
    cases hopening
  · rintro rfl
    rw [hcs _ hc] at hclosing
    cases hclosing
  · rintro rfl
    rw [hcs _ hc] at hsemicolon
    cases hsemicolon

/-- A character of a word: a part of an identifier, or a dot between two. -/
def isWordPart (c : Char) : Bool :=
  isIdentifierPart c || c == '.'

theorem isQuiet_isWordPart : IsQuiet isWordPart := by
  unfold IsQuiet
  decide

theorem isQuiet_isNumberPart : IsQuiet isNumberPart := by
  unfold IsQuiet
  decide

theorem mem_take_runLength {p : Char → Bool} {cs : List Char} {c : Char}
    (h : c ∈ cs.take (runLength p cs)) : p c = true := by
  rw [runLength, ← List.prefix_iff_eq_take.mp (List.takeWhile_prefix p)] at h
  exact List.mem_takeWhile_imp h

theorem isWordPart_of_mem_take {cs : List Char} {c : Char} (h : c ∈ cs.take (wordLength cs)) :
    isWordPart c = true := by
  induction cs with
  | nil => simp at h
  | cons d ds ih =>
    unfold wordLength at h
    split at h
    · rename_i hpart
      rcases List.mem_cons.mp h with rfl | h
      · simp [isWordPart, hpart]
      · exact ih h
    · split at h
      · rename_i hdot
        rcases List.mem_cons.mp h with rfl | h
        · simp [isWordPart, hdot.1]
        · exact ih h
      · simp at h

/-- A quoted text is closed by its last quote. -/
theorem calm_quoted {cs : List Char} {n : Nat} (h : quotedLength? cs = some n) :
    ∃ text rest, cs.take n = text ++ '\'' :: rest ∧ '\'' ∉ text ∧ Calm rest := by
  fun_induction quotedLength? cs generalizing n with
  | case1 => cases h
  | case2 cs ih =>
    -- two quotes: one text is closed and the next one starts
    obtain ⟨m, hm, rfl⟩ := Option.map_eq_some_iff.mp h
    obtain ⟨text, rest, htake, hinside, hrest⟩ := ih hm
    refine ⟨[], '\'' :: cs.take m, by simp, by simp, ?_⟩
    rw [htake]
    exact .quoted hinside hrest
  | case3 cs =>
    cases h
    exact ⟨[], [], by simp, by simp, .nil⟩
  | case4 c cs hdouble hc ih =>
    obtain ⟨m, hm, rfl⟩ := Option.map_eq_some_iff.mp h
    obtain ⟨text, rest, htake, hinside, hrest⟩ := ih hm
    refine ⟨c :: text, rest, by simp [htake], ?_, hrest⟩
    rw [List.mem_cons, not_or]
    exact ⟨fun heq => hc heq.symm, hinside⟩

theorem number?_calm {c : Char} {cs : List Char} {kind : TokenKind} {n : Nat}
    (h : number? c cs = some (kind, n)) : Calm (cs.take n) := by
  unfold number? at h
  dsimp only at h
  split at h
  · cases h
    exact isQuiet_isNumberPart.calm fun x hx => mem_take_runLength hx
  · cases h

theorem guid_calm {c : Char} {cs : List Char} (h : (Guid.parse? (c :: cs)).isSome = true) :
    Calm cs := by
  obtain ⟨-, -, hall⟩ := guid_shape h
  have hquiet : IsQuiet fun c => c == '-' || (Text.hexValue? c.toLower).isSome := by
    unfold IsQuiet
    decide
  refine hquiet.calm fun x hx => ?_
  obtain ⟨i, hi⟩ := List.mem_iff_getElem?.mp hx
  simpa using hall (i + 1) x hi

theorem WordForm.calm {c : Char} {cs : List Char} {kind : TokenKind} {n : Nat}
    (h : WordForm c cs kind n) : Calm (cs.take n) := by
  have hword : Calm (cs.take (wordLength cs)) :=
    isQuiet_isWordPart.calm fun x hx => isWordPart_of_mem_take hx
  cases h with
  | quotedLiteral opens closes | enumLiteral opens closes =>
    obtain ⟨text, others, htake, hinside, hothers⟩ := calm_quoted closes
    rw [take_quoted opens, htake]
    exact hword.append (.quoted hinside hothers)
  | literal | identifier => exact hword
  | guid hguid => exact guid_calm hguid

/-- The quotes of a token are closed, and it has parentheses only between them unless it is one. -/
theorem lexeme?_calm {c : Char} {cs : List Char} {kind : TokenKind} {n : Nat}
    (h : lexeme? c cs = some (kind, n))
    (hkind : kind ≠ .openParen ∧ kind ≠ .closeParen ∧ kind ≠ .semicolon) :
    Calm (c :: cs.take n) := by
  have hopening : c ≠ '(' := by
    rintro rfl
    cases h
    exact hkind.1 rfl
  have hclosing : c ≠ ')' := by
    rintro rfl
    cases h
    exact hkind.2.1 rfl
  have hsemicolon : c ≠ ';' := by
    rintro rfl
    cases h
    exact hkind.2.2 rfl
  by_cases hquote : c = '\''
  · subst hquote
    obtain ⟨m, hm, heq⟩ := Option.map_eq_some_iff.mp h
    cases heq
    obtain ⟨text, rest, htake, hinside, hrest⟩ := calm_quoted hm
    rw [htake]
    exact .quoted hinside hrest
  · refine .plain hquote hopening hclosing hsemicolon ?_
    have hquiet : IsQuiet isIdentifierPart := by
      unfold IsQuiet
      decide
    cases lexemeForm h with
    | punctuation | minus => exact .nil
    | quoted isQuote => exact absurd isQuote hquote
    | parameterAlias | dollar => exact hquiet.calm fun x hx => mem_take_runLength hx
    | number _ hnumber => exact number?_calm hnumber
    | word _ hword => exact hword.calm

end Lexeme

/-! ### Words -/

namespace Word

/-- The word may be written between parentheses. -/
structure Portable (w : Word) : Prop where
  stands : w.Stands
  calm : Calm w.text.toList

end Word

/-- The words of the tokens may be written between parentheses, other parentheses and semicolons
aside. -/
def PortableTokens (ts : List Token) : Prop :=
  ∀ t ∈ ts, t.kind ≠ .endOfText → t.kind ≠ .openParen → t.kind ≠ .closeParen →
    t.kind ≠ .semicolon → t.word.Portable

/-- The tokens of any text are portable. -/
theorem portable_of_tokenize {text : String} {ts : List Token} (h : tokenize text = .ok ts) :
    PortableTokens ts := by
  intro t ht hend hopening hclosing hsemicolon
  refine ⟨stands_of_mem_tokenize h ht hend, ?_⟩
  rcases lexeme?_of_mem_tokenize h ht with hkind | ⟨c, cs, n, -, hlexeme, htext⟩
  · exact absurd hkind hend
  · have hchars : t.word.text.toList = c :: cs.take n := by simp [Token.word, htext]
    rw [hchars]
    exact lexeme?_calm hlexeme ⟨hopening, hclosing, hsemicolon⟩

theorem PortableTokens.of_append {us ts : List Token} (h : PortableTokens (us ++ ts)) :
    PortableTokens us ∧ PortableTokens ts :=
  ⟨fun t ht => h t (List.mem_append_left _ ht), fun t ht => h t (List.mem_append_right _ ht)⟩

theorem PortableTokens.of_isSuffix {us ts : List Token} (h : PortableTokens ts) (hus : us <:+ ts) :
    PortableTokens us :=
  fun t ht => h t (hus.subset ht)

theorem PortableTokens.of_cons {t : Token} {ts : List Token} (h : PortableTokens (t :: ts)) :
    PortableTokens ts :=
  fun u hu => h u (List.mem_cons_of_mem t hu)

/-! ### Names -/

theorem IsDotted.isWordPart {cs : List Char} (h : IsDotted cs) : ∀ c ∈ cs, isWordPart c = true := by
  have hlength : wordLength (cs ++ []) = cs.length + 0 := h.inside []
  rw [List.append_nil, Nat.add_zero] at hlength
  intro c hc
  have hmem : c ∈ cs.take (wordLength cs) := by
    rwa [hlength, List.take_length]
  exact isWordPart_of_mem_take hmem

theorem IsName.portable {name : String} (h : IsName name) : (Word.identifier name).Portable :=
  ⟨h.stands, isQuiet_isWordPart.calm h.dotted.isWordPart⟩

theorem IsName.slash_not_mem {name : String} (h : IsName name) : '/' ∉ name.toList :=
  not_mem_of_forall h.dotted.isWordPart (by decide)

theorem IsName.percent_not_mem {name : String} (h : IsName name) : '%' ∉ name.toList :=
  not_mem_of_forall h.dotted.isWordPart (by decide)

theorem IsName.isEmpty_eq_false {name : String} (h : IsName name) : name.isEmpty = false := by
  obtain ⟨c, cs, hchars, -⟩ := h.dotted.start
  rw [String.isEmpty_eq_false_iff]
  rintro rfl
  cases hchars

theorem isName_of_isSimpleName {name : String} (h : isSimpleName name = true) : IsName name where
  stands := identifier_stands h
  dotted := by
    simp only [isSimpleName, Bool.and_eq_true] at h
    exact .identifier ⟨name, h.1⟩

end ODataRequest
