import ODataRequest.Proofs.Search.Reader

/-!
# ODataRequest.Proofs.Search.RoundTrip

The text of a search expression reads back as the expression. Three parts carry this:

* `derives_tokens`: the written tokens derive the expression, with as much nesting as writing them
  takes (`SearchExpression.depth`);
* `Derives.depth_le`: no derivation of an expression nests less, so the limit within which it has
  been read is enough to read its text;
* `Legible.tokens?_text`: the text has those tokens. Words come from a text and so hold nothing
  that would end them; a backslash in a phrase would be taken for an escape.

A phrase with a backslash in it is therefore never read back from its text (`parse_phrase_text`),
although there is a text for it.
-/

namespace ODataRequest.SearchExpression

/-! ### Written tokens -/

/-- Put parentheses around the tokens of an operand that binds less tight than its place asks. -/
def groupedTokens (e : SearchExpression) (least : Nat) (ts : List SearchToken) :
    List SearchToken :=
  if e.precedence < least then .opening :: ts ++ [.closing] else ts

/-- The tokens of the text of an expression. -/
def tokens : SearchExpression → List SearchToken
  | .term word => [.word word]
  | .phrase text => [.phrase text]
  | .not e => .not :: groupedTokens e 3 e.tokens
  | .and l r => groupedTokens l 2 l.tokens ++ .and :: groupedTokens r 3 r.tokens
  | .or l r => groupedTokens l 1 l.tokens ++ .or :: groupedTokens r 2 r.tokens

/-- Parentheses nest one deeper. -/
def groupedDepth (e : SearchExpression) (least depth : Nat) : Nat :=
  if e.precedence < least then depth + 1 else depth

/-- How deep negations and parentheses nest in the text of an expression. -/
def depth : SearchExpression → Nat
  | .term _ => 0
  | .phrase _ => 0
  | .not e => groupedDepth e 3 e.depth + 1
  | .and l r => max (groupedDepth l 2 l.depth) (groupedDepth r 3 r.depth)
  | .or l r => max (groupedDepth l 1 l.depth) (groupedDepth r 2 r.depth)

/-- The phrases in an expression. -/
def phrases : SearchExpression → List String
  | .term _ => []
  | .phrase text => [text]
  | .not e => e.phrases
  | .and l r => l.phrases ++ r.phrases
  | .or l r => l.phrases ++ r.phrases

/-- How tight the expressions bind that a part can be without parentheses. -/
def Part.precedence : Part → Nat
  | .disjunction => 1
  | .conjunction => 2
  | .negation => 3
  | .primary => 4

theorem groupedDepth_mono (e : SearchExpression) {least least' : Nat} (h : least ≤ least')
    (depth : Nat) : groupedDepth e least depth ≤ groupedDepth e least' depth := by
  unfold groupedDepth
  split <;> split <;> omega

theorem groupedDepth_le (e : SearchExpression) (least depth : Nat) :
    groupedDepth e least depth ≤ depth + 1 := by
  unfold groupedDepth
  split <;> omega

theorem groupedDepth_of_le {e : SearchExpression} {least : Nat} (h : least ≤ e.precedence)
    (depth : Nat) : groupedDepth e least depth = depth :=
  if_neg (by omega)

theorem precedence_pos (e : SearchExpression) : 1 ≤ e.precedence := by
  cases e <;> simp [precedence]

namespace Derives

variable {depth : Nat} {ts : List SearchToken} {e : SearchExpression}

/-- What can be a tight part can be any looser one. -/
theorem looser {tight loose : Part} (h : Derives tight depth ts e)
    (hle : loose.precedence ≤ tight.precedence) : Derives loose depth ts e := by
  cases tight <;> cases loose <;> first
    | exact h
    | exact absurd hle (by decide)
    | exact h.primary
    | exact h.negation
    | exact h.conjunction
    | exact h.primary.negation
    | exact h.negation.conjunction
    | exact h.primary.negation.conjunction

/-- With parentheses where they are written, an expression can stand in any place. -/
theorem grouped {part : Part} (h : Derives part depth ts e)
    (hpart : part.precedence = e.precedence) (place : Part) :
    Derives place (groupedDepth e place.precedence depth)
      (groupedTokens e place.precedence ts) e := by
  unfold groupedDepth groupedTokens
  split
  · next hlt =>
    have hin : Derives .disjunction depth ts e := h.looser (hpart ▸ e.precedence_pos)
    exact (group hin).looser (by cases place <;> decide)
  · next hle => exact h.looser (by omega)

end Derives

/-- The written tokens derive the expression, as the part that needs no parentheses for it. -/
theorem derives_tokens : (e : SearchExpression) →
    ∃ part : Part, part.precedence = e.precedence ∧ Derives part e.depth e.tokens e
  | .term word => ⟨.primary, rfl, .word word⟩
  | .phrase text => ⟨.primary, rfl, .phrase text⟩
  | .not e => by
    obtain ⟨part, hpart, h⟩ := derives_tokens e
    exact ⟨.negation, rfl, .not (h.grouped hpart .negation)⟩
  | .and l r => by
    obtain ⟨leftPart, hleft, left⟩ := derives_tokens l
    obtain ⟨rightPart, hright, right⟩ := derives_tokens r
    refine ⟨.conjunction, rfl, .and ?_ ?_⟩
    · exact (left.grouped hleft .conjunction).mono (Nat.le_max_left _ _)
    · exact (right.grouped hright .negation).mono (Nat.le_max_right _ _)
  | .or l r => by
    obtain ⟨leftPart, hleft, left⟩ := derives_tokens l
    obtain ⟨rightPart, hright, right⟩ := derives_tokens r
    refine ⟨.disjunction, rfl, .or ?_ ?_⟩
    · exact (left.grouped hleft .disjunction).mono (Nat.le_max_left _ _)
    · exact (right.grouped hright .conjunction).mono (Nat.le_max_right _ _)

/-- A derivation nests at least as deep as the written text does, parentheses that its place asks
for included. -/
theorem Derives.depth_le {part : Part} {depth : Nat} {ts : List SearchToken}
    {e : SearchExpression} (h : Derives part depth ts e) :
    groupedDepth e part.precedence e.depth ≤ depth := by
  induction h with
  | word | phrase => exact Nat.zero_le _
  | @group depth ts e _ ih =>
    -- inside the parentheses the expression needs none of its own
    have hin : e.depth ≤ depth := by
      rwa [Part.precedence, groupedDepth_of_le e.precedence_pos] at ih
    have := groupedDepth_le e Part.primary.precedence e.depth
    omega
  | primary _ ih => exact Nat.le_trans (groupedDepth_mono _ (by decide) _) ih
  | negation _ ih => exact Nat.le_trans (groupedDepth_mono _ (by decide) _) ih
  | conjunction _ ih => exact Nat.le_trans (groupedDepth_mono _ (by decide) _) ih
  | not _ ih =>
    rw [groupedDepth_of_le (Nat.le_refl 3)]
    exact Nat.succ_le_succ ih
  | and _ _ ihLeft ihRight =>
    rw [groupedDepth_of_le (Nat.le_refl 2)]
    exact Nat.max_le.2 ⟨ihLeft, ihRight⟩
  | beside _ _ ihLeft ihRight =>
    rw [groupedDepth_of_le (Nat.le_refl 2)]
    exact Nat.max_le.2 ⟨ihLeft, ihRight⟩
  | or _ _ ihLeft ihRight =>
    rw [groupedDepth_of_le (Nat.le_refl 1)]
    exact Nat.max_le.2 ⟨ihLeft, ihRight⟩

/-! ### Words and phrases of a text -/

end SearchExpression

namespace SearchToken

/-- A token as it comes from a text: words go on up to their end and are no operators, and no
phrase is empty. -/
def Genuine : SearchToken → Prop
  | .word text =>
    text.toList ≠ [] ∧ (∀ c ∈ text.toList, endsWord c = false) ∧ ofWord text.toList = .word text
  | .phrase text => text.toList ≠ []
  | .opening | .closing | .and | .or | .not => True

theorem genuine_ofWord {word : List Char} (hne : word ≠ [])
    (hword : ∀ c ∈ word, endsWord c = false) : (ofWord word).Genuine := by
  by_cases hoperator : ofWord word = .word (String.ofList word)
  · rw [hoperator]
    simpa only [Genuine, String.toList_ofList] using And.intro hne (And.intro hword hoperator)
  · unfold ofWord at hoperator ⊢
    split
    · trivial
    split
    · trivial
    split
    · trivial
    · simp_all

theorem genuine_of_tokens? {cs : List Char} {ts : List SearchToken} (h : tokens? cs = some ts) :
    ∀ t ∈ ts, t.Genuine := by
  fun_induction tokens? cs generalizing ts with
  | case1 =>
    cases h
    simp
  | case2 c cs _ ih => exact ih h
  | case3 cs _ ih =>
    obtain ⟨us, hus, rfl⟩ := Option.map_eq_some_iff.1 h
    exact List.forall_mem_cons.2 ⟨trivial, ih hus⟩
  | case4 cs _ _ ih =>
    obtain ⟨us, hus, rfl⟩ := Option.map_eq_some_iff.1 h
    exact List.forall_mem_cons.2 ⟨trivial, ih hus⟩
  | case5 | case6 => cases h
  | case7 cs text rest _ hempty _ _ _ ih =>
    obtain ⟨us, hus, rfl⟩ := Option.map_eq_some_iff.1 h
    refine List.forall_mem_cons.2 ⟨?_, ih hus⟩
    simpa [Genuine] using hempty
  | case8 c cs hblank hopening hclosing hquote =>
    rename_i ih
    obtain ⟨us, hus, rfl⟩ := Option.map_eq_some_iff.1 h
    refine List.forall_mem_cons.2 ⟨genuine_ofWord (List.cons_ne_nil _ _) ?_, ih hus⟩
    intro d hd
    rcases List.mem_cons.1 hd with rfl | hd
    · simp_all [endsWord]
    · simpa using List.all_eq_true.1 List.all_takeWhile d hd

/-! ### Reading words and phrases -/

/-- Behind the text a word is over. -/
def EndsWord (rest : List Char) : Prop :=
  ∀ c ∈ rest.head?, endsWord c = true

theorem endsWord_nil : EndsWord [] := by
  simp [EndsWord]

theorem endsWord_cons {c : Char} (h : endsWord c = true) (rest : List Char) :
    EndsWord (c :: rest) := by
  intro d hd
  cases hd
  exact h

/-- What the first character leads to. -/
theorem tokens?_cons (c : Char) (cs : List Char) :
    tokens? (c :: cs) =
      if Text.isBlank c then tokens? cs
      else if c = '(' then (tokens? cs).map (.opening :: ·)
      else if c = ')' then (tokens? cs).map (.closing :: ·)
      else if c = '"' then
        match phrase? cs with
        | none => none
        | some (text, rest) =>
          if text.isEmpty then none
          else (tokens? rest).map (.phrase (String.ofList text) :: ·)
      else
        (tokens? (cs.dropWhile (!endsWord ·))).map
          (ofWord (c :: cs.takeWhile (!endsWord ·)) :: ·) := by
  rw [tokens?.eq_def]
  dsimp only
  generalize phrase? cs = phrase
  cases phrase <;> rfl

theorem tokens?_blank (cs : List Char) : tokens? (' ' :: cs) = tokens? cs := by
  rw [tokens?_cons, if_pos (by decide)]

theorem tokens?_opening (cs : List Char) :
    tokens? ('(' :: cs) = (tokens? cs).map (.opening :: ·) := by
  rw [tokens?_cons, if_neg (by decide), if_pos rfl]

theorem tokens?_closing (cs : List Char) :
    tokens? (')' :: cs) = (tokens? cs).map (.closing :: ·) := by
  rw [tokens?_cons, if_neg (by decide), if_neg (by decide), if_pos rfl]

/-- What a quotation mark leads to. -/
theorem tokens?_quotation (cs : List Char) :
    tokens? ('"' :: cs) = (phrase? cs).bind fun r =>
      if r.1.isEmpty then none else (tokens? r.2).map (.phrase (String.ofList r.1) :: ·) := by
  rw [tokens?_cons, if_neg (by decide), if_neg (by decide), if_neg (by decide), if_pos rfl]
  cases phrase? cs with
  | none => rfl
  | some r => rfl

/-- A word ends where it is over, not before. -/
theorem tokens?_word {word rest : List Char} (hne : word ≠ [])
    (hword : ∀ c ∈ word, endsWord c = false) (hrest : EndsWord rest) :
    tokens? (word ++ rest) = (tokens? rest).map (ofWord word :: ·) := by
  obtain ⟨c, cs, rfl⟩ := List.exists_cons_of_ne_nil hne
  obtain ⟨hc, hcs⟩ := List.forall_mem_cons.1 hword
  have htake : (cs ++ rest).takeWhile (!endsWord ·) = cs := by
    rw [List.takeWhile_append_of_pos (by simpa using hcs)]
    cases rest with
    | nil => simp
    | cons d rest => simp [hrest d rfl]
  have hdrop : (cs ++ rest).dropWhile (!endsWord ·) = rest := by
    rw [List.dropWhile_append_of_pos (by simpa using hcs)]
    cases rest with
    | nil => simp
    | cons d rest => simp [hrest d rfl]
  simp only [endsWord, Bool.or_eq_false_iff, beq_eq_false_iff_ne] at hc
  obtain ⟨⟨⟨hblank, hopening⟩, hclosing⟩, hquote⟩ := hc
  rw [List.cons_append, tokens?_cons, if_neg (by simp [hblank]), if_neg hopening, if_neg hclosing,
    if_neg hquote, htake, hdrop]

/-- Without backslashes, a phrase that is written is read up to the quotation mark behind it. -/
theorem phrase?_escapeQuotes {text : List Char} (h : '\\' ∉ text) (rest : List Char) :
    phrase? (SearchExpression.escapeQuotes text ++ '"' :: rest) = some (text, rest) := by
  induction text with
  | nil => simp [SearchExpression.escapeQuotes, phrase?]
  | cons c cs ih =>
    obtain ⟨hc, hcs⟩ := not_or.1 (mt List.mem_cons.2 h)
    rw [SearchExpression.escapeQuotes]
    split
    · next hquote => simp [phrase?, ih hcs, hquote]
    · next hquote =>
      rw [List.cons_append, phrase?]
      · simp [hquote, ih hcs]
      · exact fun hx _ => hc hx.symm
      · exact fun d ds hx _ => hc hx.symm

theorem tokens?_phrase {text : List Char} (hne : text ≠ []) (h : '\\' ∉ text)
    (rest : List Char) :
    tokens? ('"' :: SearchExpression.escapeQuotes text ++ '"' :: rest) =
      (tokens? rest).map (.phrase (String.ofList text) :: ·) := by
  rw [List.cons_append, tokens?_quotation, phrase?_escapeQuotes h]
  exact if_neg (by simpa using hne)

/-- What is read as a phrase has been written with two characters for each quotation mark and each
backslash in it, and with one for every other character. -/
theorem length_add_count_of_phrase? {cs text rest : List Char} (h : phrase? cs = some (text, rest)) :
    text.length + text.count '"' + text.count '\\' + rest.length < cs.length := by
  fun_induction phrase? cs generalizing text rest with
  | case1 => simp at h
  | case2 => simp at h
  | case3 c cs ih =>
    obtain ⟨r, hr, heq⟩ := Option.map_eq_some_iff.mp h
    cases heq
    have hrest := ih hr
    -- no character is both a quotation mark and a backslash
    have hone : (if c == '"' then 1 else 0) + (if c == '\\' then 1 else 0) ≤ 1 := by
      by_cases hc : c = '"'
      · simp [hc]
      · simp [hc]
        split <;> omega
    simp only [List.length_cons, List.count_cons]
    omega
  | case4 cs =>
    cases h
    simp
  | case5 c cs hlast hpair hquote ih =>
    obtain ⟨r, hr, heq⟩ := Option.map_eq_some_iff.mp h
    cases heq
    have hrest := ih hr
    have hbackslash : c ≠ '\\' := by
      intro hc
      cases cs with
      | nil => exact hlast hc rfl
      | cons d ds => exact hpair d ds hc rfl
    simp only [List.length_cons, List.count_cons_of_ne hquote, List.count_cons_of_ne hbackslash]
    omega

theorem length_escapeQuotes (text : List Char) :
    (SearchExpression.escapeQuotes text).length = text.length + text.count '"' := by
  induction text with
  | nil => rfl
  | cons c cs ih =>
    by_cases hc : c = '"'
    · simp [SearchExpression.escapeQuotes, hc, ih]
      omega
    · simp [SearchExpression.escapeQuotes, hc, ih]
      omega

/-- A phrase that is read back from what is written for it has no backslash in it: a backslash is
written with one character and read from two. -/
theorem backslash_not_mem_of_phrase? {text rest : List Char}
    (h : phrase? (SearchExpression.escapeQuotes text ++ ['"']) = some (text, rest)) :
    '\\' ∉ text := by
  have hlength := length_add_count_of_phrase? h
  rw [List.length_append, length_escapeQuotes, List.length_singleton] at hlength
  rw [← List.count_eq_zero]
  omega

/-- A phrase with a backslash in front of every quotation mark and every backslash. -/
def escaped (text : List Char) : List Char :=
  text.flatMap fun c => if c = '"' ∨ c = '\\' then ['\\', c] else [c]

/-- With all that needs it escaped, every phrase is read up to the quotation mark behind it. -/
theorem phrase?_escaped (text rest : List Char) :
    phrase? (escaped text ++ '"' :: rest) = some (text, rest) := by
  induction text with
  | nil => rfl
  | cons c cs ih =>
    by_cases hc : c = '"' ∨ c = '\\'
    · have hcons : escaped (c :: cs) = '\\' :: c :: escaped cs := by simp [escaped, hc]
      simp [hcons, phrase?, ih]
    · have hcons : escaped (c :: cs) = c :: escaped cs := by simp [escaped, hc]
      rw [not_or] at hc
      simp [hcons, phrase?, hc, ih]

end SearchToken

namespace SearchExpression

open SearchToken

/-- Words and phrases are as they come from a text. -/
def Legible : SearchExpression → Prop
  | .term text => (SearchToken.word text).Genuine
  | .phrase text => (SearchToken.phrase text).Genuine
  | .not e => e.Legible
  | .and l r => l.Legible ∧ r.Legible
  | .or l r => l.Legible ∧ r.Legible

theorem Derives.legible {part : Part} {depth : Nat} {ts : List SearchToken}
    {e : SearchExpression} (h : Derives part depth ts e) (hts : ∀ t ∈ ts, t.Genuine) :
    e.Legible := by
  induction h with
  | word text => exact hts (.word text) (List.mem_singleton_self _)
  | phrase text => exact hts (.phrase text) (List.mem_singleton_self _)
  | group _ ih =>
    exact ih (List.forall_mem_append.1 (List.forall_mem_cons.1 hts).2).1
  | primary _ ih => exact ih hts
  | negation _ ih => exact ih hts
  | conjunction _ ih => exact ih hts
  | not _ ih => exact ih (List.forall_mem_cons.1 hts).2
  | beside _ _ ihLeft ihRight =>
    obtain ⟨hleft, hright⟩ := List.forall_mem_append.1 hts
    exact ⟨ihLeft hleft, ihRight hright⟩
  | and _ _ ihLeft ihRight =>
    obtain ⟨hleft, hright⟩ := List.forall_mem_append.1 hts
    exact ⟨ihLeft hleft, ihRight (List.forall_mem_cons.1 hright).2⟩
  | or _ _ ihLeft ihRight =>
    obtain ⟨hleft, hright⟩ := List.forall_mem_append.1 hts
    exact ⟨ihLeft hleft, ihRight (List.forall_mem_cons.1 hright).2⟩

/-- The characters have the tokens, in front of anything that ends a word. -/
def Lexes (cs : List Char) (ts : List SearchToken) : Prop :=
  ∀ rest, EndsWord rest → tokens? (cs ++ rest) = (tokens? rest).map (ts ++ ·)

theorem Lexes.grouped {cs : List Char} {ts : List SearchToken} (h : Lexes cs ts)
    (e : SearchExpression) (least : Nat) :
    Lexes (grouped e least cs) (groupedTokens e least ts) := by
  unfold SearchExpression.grouped groupedTokens
  split
  · intro rest _
    rw [List.append_assoc, List.cons_append, tokens?_opening, List.singleton_append,
      h _ (endsWord_cons (by decide) rest), tokens?_closing]
    simp [Option.map_map, Function.comp_def]
  · exact h

/-- A word in capitals and the blank behind it. -/
theorem tokens?_operator {word : List Char} (hne : word ≠ [])
    (hword : ∀ c ∈ word, endsWord c = false) (rest : List Char) :
    tokens? (word ++ ' ' :: rest) = (tokens? rest).map (ofWord word :: ·) := by
  rw [tokens?_word hne hword (endsWord_cons (by decide) rest), tokens?_blank]

theorem Lexes.prefixed (word : List Char) {cs : List Char} {ts : List SearchToken}
    (hne : word ≠ []) (hword : word.any endsWord = false) (h : Lexes cs ts) :
    Lexes (word ++ ' ' :: cs) (ofWord word :: ts) := by
  intro rest hrest
  have hword : ∀ c ∈ word, endsWord c = false := by simpa using hword
  rw [List.append_assoc, List.cons_append, tokens?_operator hne hword, h rest hrest]
  simp [Option.map_map, Function.comp_def]

theorem Lexes.infixed (word : List Char) {cs ds : List Char} {ts us : List SearchToken}
    (hne : word ≠ []) (hword : word.any endsWord = false) (left : Lexes cs ts)
    (right : Lexes ds us) :
    Lexes (cs ++ ' ' :: (word ++ ' ' :: ds)) (ts ++ ofWord word :: us) := by
  intro rest hrest
  rw [List.append_assoc, List.cons_append, left _ (endsWord_cons (by decide) _), tokens?_blank,
    right.prefixed word hne hword rest hrest]
  simp [Option.map_map, Function.comp_def]

/-- The text of a legible expression has the tokens that are to be written. -/
theorem Legible.lexes_chars : {e : SearchExpression} → e.Legible →
    (∀ p ∈ e.phrases, '\\' ∉ p.toList) → Lexes e.chars e.tokens
  | .term _, ⟨hne, hword, htoken⟩, _ => by
    intro rest hrest
    rw [chars, tokens?_word hne hword hrest, htoken]
    rfl
  | .phrase text, hne, hp => by
    intro rest _
    have hquoted := tokens?_phrase hne (hp text (List.mem_singleton_self text)) rest
    rw [String.ofList_toList] at hquoted
    rw [chars, List.append_assoc, List.singleton_append, hquoted]
    rfl
  | .not e, h, hp => by
    have hin : Lexes e.chars e.tokens := lexes_chars h hp
    exact (hin.grouped e 3).prefixed "NOT".toList (by decide) (by decide)
  | .and l r, ⟨hleft, hright⟩, hp => by
    obtain ⟨hl, hr⟩ := List.forall_mem_append.1 hp
    have left : Lexes l.chars l.tokens := lexes_chars hleft hl
    have right : Lexes r.chars r.tokens := lexes_chars hright hr
    have h := (left.grouped l 2).infixed "AND".toList (by decide) (by decide) (right.grouped r 3)
    simpa [chars, tokens, ofWord] using h
  | .or l r, ⟨hleft, hright⟩, hp => by
    obtain ⟨hl, hr⟩ := List.forall_mem_append.1 hp
    have left : Lexes l.chars l.tokens := lexes_chars hleft hl
    have right : Lexes r.chars r.tokens := lexes_chars hright hr
    have h := (left.grouped l 1).infixed "OR".toList (by decide) (by decide) (right.grouped r 2)
    simpa [chars, tokens, ofWord] using h

theorem Legible.tokens?_text {e : SearchExpression} (h : e.Legible)
    (hp : ∀ p ∈ e.phrases, '\\' ∉ p.toList) : tokens? e.text.toList = some e.tokens := by
  have hlexes := h.lexes_chars hp [] endsWord_nil
  rw [List.append_nil, tokens?, Option.map_some, List.append_nil] at hlexes
  rwa [text, String.toList_ofList]

/-- The text of an expression that has been read is read as the expression again, within the same
limit, when no phrase in it holds a backslash. -/
theorem parse_text {limit : Nat} {text : String} {e : SearchExpression}
    (h : parse limit text = .ok e) (hp : ∀ p ∈ e.phrases, '\\' ∉ p.toList) :
    parse limit e.text = .ok e := by
  obtain ⟨ts, hts, hderives⟩ := parse_eq_ok.1 h
  have hlegible : e.Legible := hderives.legible (genuine_of_tokens? hts)
  obtain ⟨part, hpart, hwritten⟩ := derives_tokens e
  -- at the top no parentheses are written, so the text nests as deep as `e.depth` says
  have hdepth : e.depth ≤ limit := by
    have hle := hderives.depth_le
    rwa [Part.precedence, groupedDepth_of_le e.precedence_pos] at hle
  have htop : Derives .disjunction e.depth e.tokens e :=
    hwritten.looser (hpart ▸ e.precedence_pos)
  exact parse_eq_ok.2 ⟨e.tokens, hlegible.tokens?_text hp, htop.mono hdepth⟩

/-- Parentheses are written where they are needed, and quotation marks in a phrase are escaped. -/
theorem parse_text_quoted :
    let text := "and (red OR (say \"\\\"hi\\\"\")) (NOT NOT x AND y)"
    let e : SearchExpression :=
      .and (.and (.term "and") (.or (.term "red") (.and (.term "say") (.phrase "\"hi\""))))
        (.and (.not (.not (.term "x"))) (.term "y"))
    e.text = "and AND (red OR say AND \"\\\"hi\\\"\") AND (NOT NOT x AND y)" ∧
      parse 3 text = .ok e ∧ parse 3 e.text = .ok e := by
  intro text e
  have hsome : (parse 3 text).toOption = some e := by decide +kernel
  have hread : parse 3 text = .ok e := by
    rcases hx : parse 3 text with error | e' <;> rw [hx] at hsome <;> cases hsome
    rfl
  exact ⟨by decide +kernel, hread, parse_text hread (by decide)⟩

/-! ### Phrases with backslashes -/

/-- Tokens that start with a phrase derive no other phrase. -/
theorem Derives.eq_of_phrase {part : Part} {depth : Nat} {ts : List SearchToken}
    {e : SearchExpression} (h : Derives part depth ts e) {text read : String}
    {rest : List SearchToken} (he : e = .phrase text) (hts : ts = .phrase read :: rest) :
    read = text := by
  induction h with
  | phrase => simp_all
  | primary _ ih | negation _ ih | conjunction _ ih => exact ih he hts
  | word | group | not | and | beside | or => simp_all

/-- A text that starts with a quotation mark is read as a phrase only if the phrase is what stands
behind this mark. -/
theorem phrase?_of_parse {limit : Nat} {cs : List Char} {text : String}
    (h : parse limit (String.ofList ('"' :: cs)) = .ok (.phrase text)) :
    text ≠ "" ∧ ∃ rest, phrase? cs = some (text.toList, rest) := by
  obtain ⟨ts, hts, hderives⟩ := parse_eq_ok.mp h
  rw [String.toList_ofList, tokens?_quotation] at hts
  obtain ⟨⟨read, rest⟩, hphrase, hts⟩ := Option.bind_eq_some_iff.mp hts
  split at hts
  · cases hts
  · next hne =>
    obtain ⟨us, -, hus⟩ := Option.map_eq_some_iff.mp hts
    have hread := hderives.eq_of_phrase rfl hus.symm
    subst hread
    refine ⟨?_, rest, by simpa using hphrase⟩
    simpa using hne

/-- What is read as a phrase up to the end of the text is a search expression of its own. -/
theorem parse_of_phrase? (limit : Nat) {cs : List Char} {text : String} (hne : text ≠ "")
    (h : phrase? cs = some (text.toList, [])) :
    parse limit (String.ofList ('"' :: cs)) = .ok (.phrase text) := by
  have htokens : tokens? ('"' :: cs) = some [.phrase text] := by
    simp [tokens?_quotation, h, hne, tokens?]
  have hderives : Derives .disjunction limit [.phrase text] (.phrase text) :=
    .conjunction (.negation (.primary (.phrase text)))
  exact parse_eq_ok.mpr ⟨_, by rwa [String.toList_ofList], hderives⟩

/-- A phrase is read back from its text exactly if it is not empty and has no backslash in it. From a
text that has its backslashes escaped like its quotation marks, every phrase but the empty one is
read. -/
theorem parse_phrase_text (limit : Nat) (p : String) :
    (parse limit (SearchExpression.phrase p).text = .ok (.phrase p) ↔
        p ≠ "" ∧ '\\' ∉ p.toList) ∧
      (parse limit (String.ofList ('"' :: (escaped p.toList ++ ['"']))) = .ok (.phrase p) ↔
        p ≠ "") := by
  have htext : (SearchExpression.phrase p).text =
      String.ofList ('"' :: (escapeQuotes p.toList ++ ['"'])) := rfl
  rw [htext]
  refine ⟨⟨?_, ?_⟩, ?_, ?_⟩
  · intro h
    obtain ⟨hne, rest, hphrase⟩ := phrase?_of_parse h
    exact ⟨hne, backslash_not_mem_of_phrase? hphrase⟩
  · intro h
    exact parse_of_phrase? limit h.1 (phrase?_escapeQuotes h.2 [])
  · intro h
    exact (phrase?_of_parse h).1
  · intro hne
    exact parse_of_phrase? limit hne (phrase?_escaped p.toList [])

/-- A backslash in a phrase is lost when the text of the phrase is read, or the text cannot be read at
all. -/
theorem parse_phrase_text_backslash :
    (¬∀ (limit : Nat) (p : String), p ≠ "" →
        parse limit (SearchExpression.phrase p).text = .ok (.phrase p)) ∧
      (parse 100 (SearchExpression.phrase "a\\b").text).toOption = some (.phrase "ab") ∧
      (parse 100 (SearchExpression.phrase "\\").text).toOption = none := by
  have hlost : (parse 100 (SearchExpression.phrase "a\\b").text).toOption =
      some (.phrase "ab") := by
    decide +kernel
  refine ⟨?_, hlost, by decide +kernel⟩
  intro h
  have hkept : (parse 100 (SearchExpression.phrase "a\\b").text).toOption =
      some (.phrase "a\\b") :=
    congrArg Except.toOption (h 100 "a\\b" (by decide))
  exact absurd (hlost.symm.trans hkept) (by decide)

end SearchExpression

end ODataRequest
