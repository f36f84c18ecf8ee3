import Mathlib.Data.List.TakeWhile
import ODataRequest.Proofs.Text.Cut
import ODataRequest.Token.Basic

/-!
# ODataRequest.Proofs.Token.Lexeme

Where tokens end. A token that has been found in one text is found again, with the same length, in
front of anything that starts with a boundary: a space, a parenthesis, a comma, an equals sign or a
slash (`lexeme?_stands`).
-/

namespace ODataRequest

/-! ### Identifiers of either case -/

theorem isIdentifierPart_of_isIdentifierStart {c : Char} (h : isIdentifierStart c = true) :
    isIdentifierPart c = true := by
  unfold isIdentifierStart at h
  unfold isIdentifierPart Text.isAlphanumeric
  rw [Bool.or_eq_true] at h
  rcases h with h | h <;> simp [h]

/-! ### Hyphenated identifiers -/

/-- A hyphenated identifier has hyphens at its places, and hexadecimal digits elsewhere. -/
theorem Guid.isGuidChar_of_parse? {cs : List Char} {g : Guid} (h : parse? cs = some g) :
    cs.length = 36 ∧ ∀ (i : Nat) (c : Char), cs[i]? = some c → isGuidChar i c.toLower = true := by
  unfold parse? at h
  dsimp only at h
  split at h
  · rename_i hguid
    have htext := hguid.1
    simp only [isGuidText, Bool.and_eq_true, beq_iff_eq, List.length_map, List.all_eq_true] at htext
    refine ⟨htext.1, fun i c hc => htext.2 (c.toLower, i) ?_⟩
    rw [List.mem_zipIdx_iff_getElem?]
    simp [hc]
  · cases h

namespace Lexeme

/-! ### Boundaries -/

/-- A character that ends every word, number and quoted text. -/
def isBoundary (c : Char) : Bool :=
  [' ', '(', ')', ',', '=', '/'].contains c

/-- A text that is empty or starts with a boundary. -/
def Bounded (behind : List Char) : Prop :=
  ∀ c ∈ behind.head?, isBoundary c = true

theorem bounded_nil : Bounded [] := by
  simp [Bounded]

theorem bounded_cons {c : Char} {cs : List Char} (h : isBoundary c = true) : Bounded (c :: cs) := by
  simpa [Bounded] using h

theorem eq_of_isBoundary {c : Char} (h : isBoundary c = true) :
    c = ' ' ∨ c = '(' ∨ c = ')' ∨ c = ',' ∨ c = '=' ∨ c = '/' := by
  simpa [isBoundary] using h

/-- No word, number or quoted text goes on with a boundary. -/
theorem of_isBoundary {c : Char} (h : isBoundary c = true) :
    isNumberPart c = false ∧ isIdentifierPart c = false ∧ c ≠ '\'' ∧ c ≠ '.' := by
  rcases eq_of_isBoundary h with rfl | rfl | rfl | rfl | rfl | rfl <;> decide

theorem Bounded.numberPart {behind : List Char} (h : Bounded behind) :
    ∀ c ∈ behind.head?, isNumberPart c = false := fun c hc =>
  (of_isBoundary (h c hc)).1

theorem Bounded.identifierPart {behind : List Char} (h : Bounded behind) :
    ∀ c ∈ behind.head?, isIdentifierPart c = false := fun c hc =>
  (of_isBoundary (h c hc)).2.1

theorem Bounded.wordPart {behind : List Char} (h : Bounded behind) :
    ∀ c ∈ behind.head?, isIdentifierPart c = false ∧ c ≠ '.' := fun c hc =>
  ⟨(of_isBoundary (h c hc)).2.1, (of_isBoundary (h c hc)).2.2.2⟩

theorem Bounded.ne_quote {behind : List Char} (h : Bounded behind) :
    behind.head? ≠ some '\'' := fun hquote =>
  (of_isBoundary (h '\'' hquote)).2.2.1 rfl

/-! ### Lengths -/

/-- The run of a text ends where it ended before. -/
theorem runLength_append {p : Char → Bool} (cs : List Char) {behind : List Char}
    (h : ∀ c ∈ behind.head?, p c = false) :
    runLength p (cs.take (runLength p cs) ++ behind) = runLength p cs := by
  have hstarts : cs.take (runLength p cs) = cs.takeWhile p :=
    (List.prefix_iff_eq_take.mp (List.takeWhile_prefix p)).symm
  have hbehind : behind.takeWhile p = [] := by
    cases behind with
    | nil => rfl
    | cons c cs => simp [h c (by simp)]
  rw [hstarts]
  unfold runLength
  rw [List.takeWhile_append_of_pos fun c hc => List.mem_takeWhile_imp hc, hbehind,
    List.append_nil]

theorem runLength_le (p : Char → Bool) (cs : List Char) : runLength p cs ≤ cs.length :=
  (List.takeWhile_prefix p).length_le

theorem wordLength_le (cs : List Char) : wordLength cs ≤ cs.length := by
  induction cs with
  | nil => simp [wordLength]
  | cons c cs ih =>
    unfold wordLength
    split
    · simpa using ih
    · split
      · simpa using ih
      · exact Nat.zero_le _

/-- A word ends in front of a text that does not go on with it. -/
theorem wordLength_eq_zero {behind : List Char}
    (h : ∀ c ∈ behind.head?, isIdentifierPart c = false ∧ c ≠ '.') : wordLength behind = 0 := by
  cases behind with
  | nil => rfl
  | cons c cs =>
    obtain ⟨hpart, hdot⟩ := h c (by simp)
    simp [wordLength, hpart, hdot]

theorem wordLength_append (cs : List Char) {behind : List Char}
    (h : ∀ c ∈ behind.head?, isIdentifierPart c = false ∧ c ≠ '.') :
    wordLength (cs.take (wordLength cs) ++ behind) = wordLength cs := by
  induction cs with
  | nil => simpa [wordLength] using wordLength_eq_zero h
  | cons c cs ih =>
    by_cases hpart : isIdentifierPart c = true
    · rw [show wordLength (c :: cs) = wordLength cs + 1 by simp [wordLength, hpart]]
      rw [List.take_succ_cons, List.cons_append, wordLength, if_pos hpart, ih]
    · by_cases hdot : c = '.' ∧ (cs.head?.any isIdentifierStart) = true
      · rw [show wordLength (c :: cs) = wordLength cs + 1 by simp [wordLength, hdot]]
        rw [List.take_succ_cons, List.cons_append, wordLength, if_neg hpart, if_pos, ih]
        -- the identifier behind the dot belongs to the word, so it is still there
        refine ⟨hdot.1, ?_⟩
        cases cs with
        | nil => simp at hdot
        | cons d ds =>
          have hstart : isIdentifierStart d = true := by simpa using hdot.2
          have hd := isIdentifierPart_of_isIdentifierStart hstart
          simp [wordLength, hd, hstart]
      · have hzero : wordLength (c :: cs) = 0 := by simp [wordLength, hpart, hdot]
        rw [hzero]
        exact wordLength_eq_zero h

theorem quotedLength?_cons_of_ne {c : Char} (h : c ≠ '\'') (cs : List Char) :
    quotedLength? (c :: cs) = (quotedLength? cs).map (· + 1) := by
  rw [quotedLength?, if_neg h]
  exact fun _ hc => absurd hc h

/-- The quote that closes a text closes it still if no quote follows. -/
theorem quotedLength?_append {cs : List Char} {n : Nat} {behind : List Char}
    (hn : quotedLength? cs = some n) (h : behind.head? ≠ some '\'') :
    quotedLength? (cs.take n ++ behind) = some n ∧ n ≤ cs.length := by
  fun_induction quotedLength? cs generalizing n with
  | case1 => cases hn
  | case2 cs ih =>
    obtain ⟨m, hm, rfl⟩ := Option.map_eq_some_iff.mp hn
    obtain ⟨hlength, hle⟩ := ih hm
    simp only [List.take_succ_cons, List.cons_append, quotedLength?, hlength]
    simpa using hle
  | case3 cs hdouble =>
    cases hn
    simp only [List.take_succ_cons, List.take_zero, List.cons_append, List.nil_append]
    cases behind with
    | nil => simp [quotedLength?]
    | cons d ds =>
      have hd : d ≠ '\'' := by simpa using h
      simp [quotedLength?, hd]
  | case4 c cs hdouble hc ih =>
    obtain ⟨m, hm, rfl⟩ := Option.map_eq_some_iff.mp hn
    obtain ⟨hlength, hle⟩ := ih hm
    rw [List.take_succ_cons, List.cons_append, quotedLength?_cons_of_ne hc, hlength]
    simpa using hle

/-! ### Numbers -/

/-- A number is a literal, and it is as long as it can be. -/
theorem number?_eq_some {c : Char} {cs : List Char} {kind : TokenKind} {n : Nat}
    (h : number? c cs = some (kind, n)) : kind = .literal ∧ n = runLength isNumberPart cs := by
  unfold number? at h
  dsimp only at h
  split at h <;> cases h
  exact ⟨rfl, rfl⟩

theorem number?_append {c : Char} {cs behind : List Char} {kind : TokenKind} {n : Nat}
    (h : number? c cs = some (kind, n)) (hb : Bounded behind) :
    number? c (cs.take n ++ behind) = some (kind, n) ∧ n ≤ cs.length := by
  have hrun := runLength_append cs hb.numberPart
  have hle := runLength_le isNumberPart cs
  unfold number? at h
  dsimp only at h
  split at h
  · rename_i hinfer
    cases h
    have htake : (cs.take (runLength isNumberPart cs) ++ behind).take (runLength isNumberPart cs) =
        cs.take (runLength isNumberPart cs) :=
      List.take_left' (List.length_take_of_le hle)
    refine ⟨?_, hle⟩
    unfold number?
    dsimp only
    rw [hrun, htake, if_pos hinfer]
  · cases h

/-- What a minus belongs to a number for is part of that number. -/
theorem startsNumber_append {cs behind : List Char}
    (h : (cs.head?.any Char.isDigit) = true ∨ "INF".toList.isPrefixOf cs = true) :
    (((cs.take (runLength isNumberPart cs) ++ behind).head?.any Char.isDigit) = true ∨
      "INF".toList.isPrefixOf (cs.take (runLength isNumberPart cs) ++ behind) = true) := by
  rcases h with h | h
  · left
    cases cs with
    | nil => simp at h
    | cons d ds =>
      have hdigit : d.isDigit = true := by simpa using h
      have hpart : isNumberPart d = true := by simp [isNumberPart, Char.isAlphanum, hdigit]
      simp [runLength, hpart, hdigit]
  · right
    obtain ⟨rest, rfl⟩ := List.isPrefixOf_iff_prefix.mp h
    rw [List.isPrefixOf_iff_prefix]
    have hrun : runLength isNumberPart ("INF".toList ++ rest) =
        "INF".toList.length + runLength isNumberPart rest := by
      unfold runLength
      rw [List.takeWhile_append_of_pos (List.all_eq_true.mp (by decide)), List.length_append]
    rw [hrun, List.take_length_add_append, List.append_assoc]
    exact List.prefix_append _ _

/-! ### Words -/

/-- The shape of a hyphenated identifier. -/
theorem guid_shape {cs : List Char} (h : (Guid.parse? cs).isSome = true) :
    cs.length = 36 ∧ cs[8]? = some '-' ∧
      ∀ (i : Nat) (c : Char), cs[i]? = some c →
        c = '-' ∨ (Text.hexValue? c.toLower).isSome = true := by
  obtain ⟨g, hg⟩ := Option.isSome_iff_exists.mp h
  obtain ⟨hlength, hplace⟩ := Guid.isGuidChar_of_parse? hg
  refine ⟨hlength, ?_, fun i c hc => ?_⟩
  · have h8 : cs[8]? = some cs[8] := List.getElem?_eq_getElem (by omega)
    have hc := hplace 8 _ h8
    rw [h8, Option.some.injEq]
    exact Text.eq_of_toLower (by decide) (by simpa [isGuidChar] using hc)
  · have hc' := hplace i c hc
    unfold isGuidChar at hc'
    split at hc'
    · exact Or.inl (Text.eq_of_toLower (by decide) (by simpa using hc'))
    · exact Or.inr hc'

/-- Where a hyphen stands a word has ended, and what is behind the hyphen does not count. -/
theorem wordLength_hyphen {cs : List Char} {i : Nat} (h : cs[i]? = some '-') (behind : List Char) :
    wordLength (cs.take (i + 1) ++ behind) = wordLength cs ∧ wordLength cs ≤ i := by
  induction cs generalizing i with
  | nil => simp at h
  | cons c cs ih =>
    cases i with
    | zero =>
      obtain rfl : c = '-' := by simpa using h
      have hpart : isIdentifierPart '-' = false := by decide
      simp [wordLength, hpart]
    | succ i =>
      have hi : cs[i]? = some '-' := by simpa using h
      obtain ⟨heq, hle⟩ := ih hi
      have hhead : (cs.take (i + 1) ++ behind).head? = cs.head? := by
        cases cs with
        | nil => simp at hi
        | cons d ds => simp
      rw [List.take_succ_cons, List.cons_append]
      unfold wordLength
      rw [hhead, heq]
      constructor
      · rfl
      · split
        · omega
        · split <;> omega

theorem word?_quoted {c : Char} {cs rest : List Char} (h : cs.drop (wordLength cs) = '\'' :: rest) :
    word? c cs = (quotedLength? rest).bind fun m =>
      if quotedLiteralWords.contains (c :: cs.take (wordLength cs)) then
        some (.literal, wordLength cs + 1 + m)
      else if (c :: cs.take (wordLength cs)).contains '.' then
        some (.enumLiteral, wordLength cs + 1 + m)
      else none := by
  unfold word?
  simp only [h]

theorem word?_unquoted {c : Char} {cs : List Char}
    (h : (cs.drop (wordLength cs)).head? ≠ some '\'') :
    word? c cs =
      if literalWords.contains (c :: cs.take (wordLength cs)) then some (.literal, wordLength cs)
      else if (Guid.parse? (c :: cs.take 35)).isSome then some (.literal, 35)
      else some (.identifier, wordLength cs) := by
  unfold word?
  cases hdrop : cs.drop (wordLength cs) with
  | nil => simp [hdrop]
  | cons d ds =>
    have hd : d ≠ '\'' := by simpa [hdrop] using h
    simp [hdrop, hd]

/-- A word that stands in front of a boundary is no hyphenated identifier. -/
theorem not_guid_of_bounded {c : Char} {word behind : List Char}
    (hword : wordLength (word ++ behind) = word.length) (hb : Bounded behind) :
    (Guid.parse? (c :: (word ++ behind).take 35)).isSome = false := by
  by_contra h
  rw [Bool.not_eq_false] at h
  obtain ⟨hlength, hhyphen, hall⟩ := guid_shape h
  have hhyphen' : (word ++ behind)[7]? = some '-' := by
    rw [List.getElem?_cons_succ, List.getElem?_take_of_lt (by decide)] at hhyphen
    exact hhyphen
  have hshort : word.length ≤ 7 := by
    rw [← hword]
    exact (wordLength_hyphen hhyphen' []).2
  cases behind with
  | nil =>
    rw [List.append_nil, List.length_cons, List.length_take] at hlength
    omega
  | cons d ds =>
    have hd : (c :: (word ++ d :: ds).take 35)[word.length + 1]? = some d := by
      rw [List.getElem?_cons_succ, List.getElem?_take_of_lt (by omega)]
      simp
    have hboundary : ¬(d = '-' ∨ (Text.hexValue? d.toLower).isSome = true) := by
      rcases eq_of_isBoundary (hb d (by simp)) with rfl | rfl | rfl | rfl | rfl | rfl <;> decide
    exact hboundary (hall _ d hd)

/-- A quoted text behind a word, from its opening quote on. -/
theorem take_quoted {cs rest : List Char} {k m : Nat} (opens : cs.drop k = '\'' :: rest) :
    cs.take (k + 1 + m) = cs.take k ++ '\'' :: rest.take m := by
  rw [Nat.add_assoc, List.take_add, opens, Nat.add_comm 1 m, List.take_succ_cons]

/-- A word with a quoted text behind it. -/
theorem word?_quoted_append {c : Char} {word rest behind : List Char} {kind : TokenKind} {n : Nat}
    (hword : wordLength (word ++ '\'' :: rest) = word.length)
    (h : word? c (word ++ '\'' :: rest) = some (kind, n)) (hb : Bounded behind) :
    word? c ((word ++ '\'' :: rest).take n ++ behind) = some (kind, n) ∧
      n ≤ (word ++ '\'' :: rest).length := by
  have hdrop : (word ++ '\'' :: rest).drop (wordLength (word ++ '\'' :: rest)) = '\'' :: rest := by
    rw [hword, List.drop_left]
  rw [word?_quoted hdrop, hword, List.take_left] at h
  obtain ⟨m, hm, hresult⟩ := Option.bind_eq_some_iff.mp h
  obtain ⟨hquoted, hle⟩ := quotedLength?_append hm hb.ne_quote
  have htake : (word ++ '\'' :: rest).take (word.length + 1 + m) =
      word ++ '\'' :: rest.take m := by
    rw [take_quoted (by rw [List.drop_left]), List.take_left]
  have hquote : ∀ c ∈ ('\'' :: (rest.take m ++ behind)).head?,
      isIdentifierPart c = false ∧ c ≠ '.' := by simpa using by decide
  have hword' : wordLength (word ++ '\'' :: (rest.take m ++ behind)) = word.length := by
    have hagain := wordLength_append (word ++ '\'' :: rest) hquote
    rwa [hword, List.take_left] at hagain
  have hdrop' : (word ++ '\'' :: (rest.take m ++ behind)).drop
      (wordLength (word ++ '\'' :: (rest.take m ++ behind))) =
        '\'' :: (rest.take m ++ behind) := by
    rw [hword', List.drop_left]
  have hn : n = word.length + 1 + m := by
    split at hresult
    · cases hresult
      rfl
    · split at hresult <;> cases hresult
      rfl
  subst hn
  rw [htake, List.append_assoc, List.cons_append, word?_quoted hdrop', hword', List.take_left,
    hquoted, Option.bind_some]
  refine ⟨hresult, ?_⟩
  rw [List.length_append, List.length_cons]
  omega

/-- A unique identifier that starts with a letter is the same in front of anything. -/
theorem word?_guid_append {c : Char} {cs : List Char}
    (hquote : (cs.drop (wordLength cs)).head? ≠ some '\'')
    (hliteral : ¬literalWords.contains (c :: cs.take (wordLength cs)) = true)
    (hguid : (Guid.parse? (c :: cs.take 35)).isSome = true) (behind : List Char) :
    word? c (cs.take 35 ++ behind) = some (.literal, 35) ∧ 35 ≤ cs.length := by
  obtain ⟨hlength, hhyphen, -⟩ := guid_shape hguid
  rw [List.length_cons, List.length_take] at hlength
  rw [List.getElem?_cons_succ, List.getElem?_take_of_lt (by decide)] at hhyphen
  obtain ⟨-, hshort⟩ := wordLength_hyphen hhyphen []
  -- its first hyphen ends the word, and what stands behind that does not count
  have hsplit : cs.take 35 ++ behind = cs.take 8 ++ ((cs.take 35).drop 8 ++ behind) := by
    have hparts := List.take_append_drop 8 (cs.take 35)
    rw [List.take_take] at hparts
    rw [← List.append_assoc]
    exact congrArg (· ++ behind) hparts.symm
  have hword : wordLength (cs.take 35 ++ behind) = wordLength cs := by
    rw [hsplit]
    exact (wordLength_hyphen hhyphen _).1
  have h35 : (cs.take 35).length = 35 := List.length_take_of_le (by omega)
  have hquote' : ((cs.take 35 ++ behind).drop (wordLength cs)).head? ≠ some '\'' := by
    rw [List.head?_drop, List.getElem?_append_left (by omega),
      List.getElem?_take_of_lt (by omega), ← List.head?_drop]
    exact hquote
  have hsame : (cs.take 35 ++ behind).take (wordLength cs) = cs.take (wordLength cs) := by
    rw [List.take_append_of_le_length (by omega), List.take_take, Nat.min_eq_left (by omega)]
  refine ⟨?_, by omega⟩
  rw [word?_unquoted (by rw [hword]; exact hquote'), hword, hsame, if_neg hliteral,
    List.take_left' h35, if_pos hguid]

/-- A word without a quoted text behind it. -/
theorem word?_unquoted_append {c : Char} {cs behind : List Char} {kind : TokenKind} {n : Nat}
    (hquote : (cs.drop (wordLength cs)).head? ≠ some '\'')
    (h : word? c cs = some (kind, n)) (hb : Bounded behind) :
    word? c (cs.take n ++ behind) = some (kind, n) ∧ n ≤ cs.length := by
  have hle := wordLength_le cs
  have hword := wordLength_append cs hb.wordPart
  have htake := List.length_take_of_le hle
  have hdrop : (cs.take (wordLength cs) ++ behind).drop (wordLength cs) = behind :=
    List.drop_left' htake
  have hagain : (cs.take (wordLength cs) ++ behind).take (wordLength cs) =
      cs.take (wordLength cs) := List.take_left' htake
  have hquote' : ((cs.take (wordLength cs) ++ behind).drop
      (wordLength (cs.take (wordLength cs) ++ behind))).head? ≠ some '\'' := by
    rw [hword, hdrop]
    exact hb.ne_quote
  rw [word?_unquoted hquote] at h
  split at h
  · next hliteral =>
    cases h
    refine ⟨?_, hle⟩
    rw [word?_unquoted hquote', hword, hagain, if_pos hliteral]
  next hliteral =>
  split at h
  · next hguid =>
    cases h
    exact word?_guid_append hquote hliteral hguid behind
  · cases h
    refine ⟨?_, hle⟩
    rw [word?_unquoted hquote', hword, hagain, if_neg hliteral,
      not_guid_of_bounded (by rw [hword, htake]) hb]
    rfl

theorem word?_append {c : Char} {cs behind : List Char} {kind : TokenKind} {n : Nat}
    (h : word? c cs = some (kind, n)) (hb : Bounded behind) :
    word? c (cs.take n ++ behind) = some (kind, n) ∧ n ≤ cs.length := by
  by_cases hquote : (cs.drop (wordLength cs)).head? = some '\''
  · obtain ⟨rest, hrest⟩ := List.head?_eq_some_iff.mp hquote
    have hcs : cs.take (wordLength cs) ++ '\'' :: rest = cs := by
      rw [← hrest, List.take_append_drop]
    have hlength := List.length_take_of_le (wordLength_le cs)
    rw [← hcs] at h ⊢
    exact word?_quoted_append (by rw [hcs, hlength]) h hb
  · exact word?_unquoted_append hquote h hb

/-! ### Tokens -/

/-- No number starts with a boundary. -/
theorem Bounded.not_startsNumber {behind : List Char} (h : Bounded behind) :
    ¬((behind.head?.any Char.isDigit) = true ∨ "INF".toList.isPrefixOf behind = true) := by
  cases behind with
  | nil => decide
  | cons c cs =>
    have hc : isBoundary c = true := h c (by simp)
    rcases eq_of_isBoundary hc with rfl | rfl | rfl | rfl | rfl | rfl <;> simp [List.isPrefixOf]

/-- A token is the same in front of any boundary. -/
theorem lexeme?_stands {c : Char} {cs behind : List Char} {kind : TokenKind} {n : Nat}
    (h : lexeme? c cs = some (kind, n)) (hb : Bounded behind) :
    lexeme? c (cs.take n ++ behind) = some (kind, n) ∧ n ≤ cs.length := by
  unfold lexeme? at h ⊢
  cases hpunctuation : punctuation? c with
  | some k =>
    simp only [hpunctuation] at h ⊢
    cases h
    exact ⟨rfl, Nat.zero_le _⟩
  | none =>
    simp only [hpunctuation] at h ⊢
    by_cases hquote : c = '\''
    · rw [if_pos hquote] at h ⊢
      obtain ⟨m, hm, heq⟩ := Option.map_eq_some_iff.mp h
      cases heq
      obtain ⟨hquoted, hle⟩ := quotedLength?_append hm hb.ne_quote
      exact ⟨by rw [hquoted]; rfl, hle⟩
    rw [if_neg hquote] at h ⊢
    by_cases hsigil : c = '@' ∨ c = '$'
    · rw [if_pos hsigil] at h ⊢
      split at h
      · cases h
      · rename_i hne
        cases h
        rw [runLength_append cs hb.identifierPart, if_neg hne]
        exact ⟨rfl, runLength_le _ _⟩
    rw [if_neg hsigil] at h ⊢
    by_cases hminus : c = '-'
    · rw [if_pos hminus] at h ⊢
      split at h
      · rename_i hstarts
        obtain ⟨-, rfl⟩ := number?_eq_some h
        rw [if_pos (startsNumber_append hstarts)]
        exact number?_append h hb
      · cases h
        rw [List.take_zero, List.nil_append, if_neg hb.not_startsNumber]
        exact ⟨rfl, Nat.zero_le _⟩
    rw [if_neg hminus] at h ⊢
    by_cases hdigit : c.isDigit = true
    · rw [if_pos hdigit] at h ⊢
      exact number?_append h hb
    rw [if_neg hdigit] at h ⊢
    by_cases hstart : isIdentifierStart c = true
    · rw [if_pos hstart] at h ⊢
      exact word?_append h hb
    · rw [if_neg hstart] at h
      cases h

/-! ### The ways to find a token -/

/-- What a token that starts with a letter is, and how long. -/
inductive WordForm (c : Char) (cs : List Char) : TokenKind → Nat → Prop
  | quotedLiteral {rest : List Char} {m : Nat} (opens : cs.drop (wordLength cs) = '\'' :: rest)
      (closes : quotedLength? rest = some m)
      (known : c :: cs.take (wordLength cs) ∈ quotedLiteralWords) :
      WordForm c cs .literal (wordLength cs + 1 + m)
  | enumLiteral {rest : List Char} {m : Nat} (opens : cs.drop (wordLength cs) = '\'' :: rest)
      (closes : quotedLength? rest = some m) : WordForm c cs .enumLiteral (wordLength cs + 1 + m)
  | literal (known : c :: cs.take (wordLength cs) ∈ literalWords) :
      WordForm c cs .literal (wordLength cs)
  | guid (h : (Guid.parse? (c :: cs.take 35)).isSome = true) : WordForm c cs .literal 35
  | identifier : WordForm c cs .identifier (wordLength cs)

theorem wordForm {c : Char} {cs : List Char} {kind : TokenKind} {n : Nat}
    (h : word? c cs = some (kind, n)) : WordForm c cs kind n := by
  by_cases hquote : (cs.drop (wordLength cs)).head? = some '\''
  · obtain ⟨rest, opens⟩ := List.head?_eq_some_iff.mp hquote
    rw [word?_quoted opens] at h
    obtain ⟨m, closes, h⟩ := Option.bind_eq_some_iff.mp h
    split at h
    · next known =>
      cases h
      exact .quotedLiteral opens closes (List.contains_iff_mem.mp known)
    · split at h <;> cases h
      exact .enumLiteral opens closes
  · rw [word?_unquoted hquote] at h
    split at h
    · next known =>
      cases h
      exact .literal (List.contains_iff_mem.mp known)
    split at h
    · next hguid =>
      cases h
      exact .guid hguid
    · cases h
      exact .identifier

/-- What a token is, and how long, by the character that it starts with. -/
inductive LexemeForm (c : Char) (cs : List Char) : TokenKind → Nat → Prop
  | punctuation {kind : TokenKind} (h : punctuation? c = some kind) : LexemeForm c cs kind 0
  | quoted {n : Nat} (isQuote : c = '\'') (h : quotedLength? cs = some n) :
      LexemeForm c cs .literal n
  | parameterAlias (isSign : c = '@') :
      LexemeForm c cs .parameterAlias (runLength isIdentifierPart cs)
  | dollar (isSign : c = '$') : LexemeForm c cs .dollar (runLength isIdentifierPart cs)
  | minus (isMinus : c = '-') : LexemeForm c cs .minus 0
  | number {n : Nat} (starts : c = '-' ∨ c.isDigit = true)
      (h : number? c cs = some (.literal, n)) : LexemeForm c cs .literal n
  | word {kind : TokenKind} {n : Nat} (starts : isIdentifierStart c = true)
      (h : WordForm c cs kind n) : LexemeForm c cs kind n

theorem lexemeForm {c : Char} {cs : List Char} {kind : TokenKind} {n : Nat}
    (h : lexeme? c cs = some (kind, n)) : LexemeForm c cs kind n := by
  have hnumber (h : number? c cs = some (kind, n)) (starts : c = '-' ∨ c.isDigit = true) :
      LexemeForm c cs kind n := by
    obtain ⟨rfl, -⟩ := number?_eq_some h
    exact .number starts h
  unfold lexeme? at h
  split at h
  · next hpunctuation =>
    cases h
    exact .punctuation hpunctuation
  split at h
  · next isQuote =>
    obtain ⟨m, closes, heq⟩ := Option.map_eq_some_iff.mp h
    cases heq
    exact .quoted isQuote closes
  split at h
  · next isSign =>
    dsimp only at h
    split at h
    · cases h
    · split at h <;> cases h
      · next isAt => exact .parameterAlias isAt
      · next notAt => exact .dollar (isSign.resolve_left notAt)
  split at h
  · next isMinus =>
    split at h
    · exact hnumber h (Or.inl isMinus)
    · cases h
      exact .minus isMinus
  split at h
  · next isDigit => exact hnumber h (Or.inr isDigit)
  split at h
  · next starts => exact .word starts (wordForm h)
  · cases h

/-- The text of the tokens of a kind that all have the same one. -/
def fixedText? : TokenKind → Option (List Char)
  | .openParen => some ['(']
  | .closeParen => some [')']
  | .comma => some [',']
  | .slash => some ['/']
  | .equals => some ['=']
  | .semicolon => some [';']
  | .colon => some [':']
  | .star => some ['*']
  | .minus => some ['-']
  | _ => none

theorem punctuation?_text {c : Char} {kind : TokenKind} (h : punctuation? c = some kind) :
    fixedText? kind = some [c] := by
  unfold punctuation? at h
  split at h <;> cases h <;> rfl

theorem WordForm.fixedText? {c : Char} {cs : List Char} {kind : TokenKind} {n : Nat}
    (h : WordForm c cs kind n) : fixedText? kind = none := by
  cases h <;> rfl

/-- A token of a kind with a fixed text has this text. -/
theorem lexeme?_text {c : Char} {cs : List Char} {kind : TokenKind} {n : Nat} {text : List Char}
    (h : lexeme? c cs = some (kind, n)) (htext : fixedText? kind = some text) :
    c :: cs.take n = text := by
  cases lexemeForm h with
  | punctuation hmark =>
    rw [punctuation?_text hmark] at htext
    exact Option.some.inj htext
  | quoted | parameterAlias | dollar | number => cases htext
  | minus isMinus =>
    cases htext
    rw [isMinus, List.take_zero]
  | word _ hword =>
    rw [hword.fixedText?] at htext
    cases htext

/-- No token of a text is its end. -/
theorem lexeme?_kind_ne {c : Char} {cs : List Char} {kind : TokenKind} {n : Nat}
    (h : lexeme? c cs = some (kind, n)) : kind ≠ .endOfText := by
  rintro rfl
  cases lexemeForm h with
  | punctuation hmark => cases punctuation?_text hmark
  | word _ hword => cases hword

/-- Only an at sign starts an alias. -/
theorem lexeme?_alias {c : Char} {cs : List Char} {n : Nat}
    (h : lexeme? c cs = some (.parameterAlias, n)) : c = '@' := by
  cases lexemeForm h with
  | punctuation hmark => cases punctuation?_text hmark
  | parameterAlias isSign => exact isSign
  | word _ hword => cases hword

end Lexeme

end ODataRequest
