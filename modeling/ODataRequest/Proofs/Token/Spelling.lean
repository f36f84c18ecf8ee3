import ODataRequest.Proofs.Token.Lexeme

/-!
# ODataRequest.Proofs.Token.Spelling

Texts put together from tokens. A *word* is a token without its place; a *piece* is a word with or
without a space in front of it. The text of some pieces is cut into exactly these pieces again as
long as each word is lexed in front of what follows it (`tokenize_spelled`). Words that have been
tokens before are lexed in front of every boundary (`stands_of_mem_tokenize`).
-/

namespace ODataRequest

/-- A token without its place. -/
structure Word where
  kind : TokenKind
  text : String
deriving DecidableEq, Repr

/-- The word of a token. -/
def Token.word (t : Token) : Word :=
  ⟨t.kind, t.text⟩

/-- A word that may have a space in front of it. -/
structure Piece where
  word : Word
  spaced : Bool
deriving DecidableEq, Repr

/-- A token as a piece of its text. -/
def Token.piece (t : Token) : Piece :=
  ⟨t.word, t.spaceBefore⟩

/-- The text of a piece. -/
def Piece.chars (p : Piece) : List Char :=
  (if p.spaced then [' '] else []) ++ p.word.text.toList

/-- The text of some pieces. -/
def spelled (ps : List Piece) : List Char :=
  ps.flatMap Piece.chars

@[simp] theorem spelled_nil : spelled [] = [] := rfl

@[simp] theorem spelled_cons (p : Piece) (ps : List Piece) :
    spelled (p :: ps) = p.chars ++ spelled ps := rfl

@[simp] theorem spelled_append (ps qs : List Piece) :
    spelled (ps ++ qs) = spelled ps ++ spelled qs :=
  List.flatMap_append

namespace Word

open Lexeme

/-- The sign in front of a group, of a list, of arguments or of a key. -/
def openParen : Word := ⟨.openParen, "("⟩

/-- The sign behind a group, a list, arguments or a key. -/
def closeParen : Word := ⟨.closeParen, ")"⟩

/-- The sign between items. -/
def comma : Word := ⟨.comma, ","⟩

/-- The sign between a name and its value. -/
def equals : Word := ⟨.equals, "="⟩

/-- The sign of a negative number. -/
def minus : Word := ⟨.minus, "-"⟩

/-- The sign between the steps of a path. -/
def slash : Word := ⟨.slash, "/"⟩

/-- A name. -/
def identifier (text : String) : Word := ⟨.identifier, text⟩

/-- The word is the first token of itself and the text behind it. -/
def Lexes (w : Word) (behind : List Char) : Prop :=
  ∃ c cs, w.text.toList = c :: cs ∧ isSpace c = false ∧
    lexeme? c (cs ++ behind) = some (w.kind, cs.length)

/-- The word is lexed in front of every boundary. -/
def Stands (w : Word) : Prop :=
  ∀ behind, Bounded behind → w.Lexes behind

/-- A word that is a token by itself stands. -/
theorem stands_of_lexeme? {w : Word} {c : Char} {cs : List Char} (htext : w.text.toList = c :: cs)
    (hspace : isSpace c = false) (hlexeme : lexeme? c cs = some (w.kind, cs.length)) :
    w.Stands := by
  intro behind hbehind
  obtain ⟨hagain, -⟩ := lexeme?_stands hlexeme hbehind
  rw [List.take_length] at hagain
  exact ⟨c, cs, htext, hspace, hagain⟩

theorem lexes_openParen (behind : List Char) : openParen.Lexes behind :=
  ⟨'(', [], by decide, by decide, rfl⟩

theorem lexes_closeParen (behind : List Char) : closeParen.Lexes behind :=
  ⟨')', [], by decide, by decide, rfl⟩

theorem lexes_comma (behind : List Char) : comma.Lexes behind :=
  ⟨',', [], by decide, by decide, rfl⟩

theorem lexes_equals (behind : List Char) : equals.Lexes behind :=
  ⟨'=', [], by decide, by decide, rfl⟩

theorem lexes_slash (behind : List Char) : slash.Lexes behind :=
  ⟨'/', [], by decide, by decide, rfl⟩

theorem tokensFrom_of_lexes {w : Word} {behind : List Char} (h : w.Lexes behind) (offset : Nat)
    (spaced : Bool) : tokensFrom offset spaced (w.text.toList ++ behind) =
      (tokensFrom (offset + byteLength w.text.toList) false behind).map
        (⟨w.kind, w.text, offset, spaced⟩ :: ·) := by
  obtain ⟨c, cs, htext, hspace, hlexeme⟩ := h
  have hword : String.ofList (c :: cs) = w.text := by rw [← htext, String.ofList_toList]
  rw [htext, List.cons_append, tokensFrom]
  simp [hspace, hlexeme, hword]

end Word

/-- The first token of some pieces. -/
theorem exists_of_map_piece_cons {ts : List Token} {w : Word} {spaced : Bool} {ps : List Piece}
    (h : ts.map Token.piece = ⟨w, spaced⟩ :: ps) :
    ∃ t us, ts = t :: us ∧ t.kind = w.kind ∧ t.text = w.text ∧ t.spaceBefore = spaced ∧
      us.map Token.piece = ps := by
  cases ts with
  | nil => cases h
  | cons t us =>
    obtain ⟨kind, text, offset, space⟩ := t
    cases h
    exact ⟨_, us, rfl, rfl, rfl, rfl, rfl⟩

/-- Each word is lexed in front of what follows it. -/
def Lexed : List Piece → List Char → Prop
  | [], _ => True
  | p :: ps, behind => p.word.Lexes (spelled ps ++ behind) ∧ Lexed ps behind

theorem lexed_append {ps qs : List Piece} {behind : List Char} :
    Lexed (ps ++ qs) behind ↔ Lexed ps (spelled qs ++ behind) ∧ Lexed qs behind := by
  induction ps with
  | nil => simp [Lexed]
  | cons p ps ih => simp [Lexed, ih, and_assoc]

/-- A piece is cut off as one token. -/
theorem tokensFrom_piece {p : Piece} {behind : List Char} (h : p.word.Lexes behind) (offset : Nat) :
    ∃ t next, t.piece = p ∧ Lexeme.tokensFrom offset false (p.chars ++ behind) =
      (Lexeme.tokensFrom next false behind).map (t :: ·) := by
  obtain ⟨⟨kind, text⟩, spaced⟩ := p
  cases spaced with
  | false => exact ⟨⟨kind, text, offset, false⟩, _, rfl, Word.tokensFrom_of_lexes h offset false⟩
  | true =>
    have hcut := Word.tokensFrom_of_lexes h (offset + 1) true
    refine ⟨⟨kind, text, offset + 1, true⟩, _, rfl, Eq.trans ?_ hcut⟩
    show Lexeme.tokensFrom offset false (' ' :: (text.toList ++ behind)) = _
    rw [Lexeme.tokensFrom, if_pos (by decide)]

theorem tokensFrom_spelled {ps : List Piece} (h : Lexed ps []) (offset : Nat) :
    ∃ ts last, Lexeme.tokensFrom offset false (spelled ps) = some (ts ++ [last]) ∧
      ts.map Token.piece = ps ∧ last.kind = .endOfText ∧ last.spaceBefore = false := by
  induction ps generalizing offset with
  | nil => exact ⟨[], _, by rw [spelled_nil, Lexeme.tokensFrom, List.nil_append], rfl, rfl, rfl⟩
  | cons p ps ih =>
    obtain ⟨hword, hrest⟩ := h
    rw [List.append_nil] at hword
    obtain ⟨t, next, hpiece, hcut⟩ := tokensFrom_piece hword offset
    obtain ⟨ts, last, hts, hpieces, hlast⟩ := ih hrest next
    refine ⟨t :: ts, last, ?_, ?_, hlast⟩
    · rw [spelled_cons, hcut, hts]
      rfl
    · rw [List.map_cons, hpiece, hpieces]

/-- The text of pieces is cut into these pieces. -/
theorem tokenize_spelled {ps : List Piece} (h : Lexed ps []) :
    ∃ ts last, tokenize (String.ofList (spelled ps)) = .ok (ts ++ [last]) ∧
      ts.map Token.piece = ps ∧ last.kind = .endOfText ∧ last.spaceBefore = false := by
  obtain ⟨ts, last, hts, hpieces, hlast⟩ := tokensFrom_spelled h 0
  refine ⟨ts, last, ?_, hpieces, hlast⟩
  unfold tokenize
  rw [String.toList_ofList, hts]

/-- What a token of a text is: the end of the text, or what the lexer makes of some characters. -/
theorem lexeme?_of_mem_tokensFrom {cs : List Char} {offset : Nat} {spaced : Bool} {ts : List Token}
    (h : Lexeme.tokensFrom offset spaced cs = some ts) {t : Token} (ht : t ∈ ts) :
    t.kind = .endOfText ∨ ∃ c cs n, Lexeme.isSpace c = false ∧
      Lexeme.lexeme? c cs = some (t.kind, n) ∧ t.text = String.ofList (c :: cs.take n) := by
  fun_induction Lexeme.tokensFrom offset spaced cs generalizing ts with
  | case1 offset spaced =>
    cases h
    rw [List.mem_singleton] at ht
    subst ht
    exact Or.inl rfl
  | case2 offset spaced c cs hspace ih => exact ih h ht
  | case3 offset spaced c cs hspace hlexeme => cases h
  | case4 offset spaced c cs hspace kind n hlexeme text =>
    rename_i ih
    obtain ⟨us, hus, rfl⟩ := Option.map_eq_some_iff.mp h
    rcases List.mem_cons.mp ht with rfl | ht
    · exact Or.inr ⟨c, cs, n, by simpa using hspace, hlexeme, rfl⟩
    · exact ih hus ht

theorem lexeme?_of_mem_tokenize {text : String} {ts : List Token} (h : tokenize text = .ok ts)
    {t : Token} (ht : t ∈ ts) : t.kind = .endOfText ∨ ∃ c cs n, Lexeme.isSpace c = false ∧
      Lexeme.lexeme? c cs = some (t.kind, n) ∧ t.text = String.ofList (c :: cs.take n) := by
  unfold tokenize at h
  split at h
  · rename_i us hus
    cases h
    exact lexeme?_of_mem_tokensFrom hus ht
  · cases h

/-- The end of a text comes once, as its last token. -/
theorem tokensFrom_eq_append {cs : List Char} {offset : Nat} {spaced : Bool} {ts : List Token}
    (h : Lexeme.tokensFrom offset spaced cs = some ts) :
    ∃ us last, ts = us ++ [last] ∧ last.word = ⟨.endOfText, ""⟩ ∧
      ∀ t ∈ us, t.kind ≠ .endOfText := by
  fun_induction Lexeme.tokensFrom offset spaced cs generalizing ts with
  | case1 offset spaced =>
    cases h
    exact ⟨[], _, rfl, rfl, by simp⟩
  | case2 offset spaced c cs hspace ih => exact ih h
  | case3 offset spaced c cs hspace hlexeme => cases h
  | case4 offset spaced c cs hspace kind n hlexeme text =>
    rename_i ih
    obtain ⟨us, hus, rfl⟩ := Option.map_eq_some_iff.mp h
    obtain ⟨vs, last, rfl, hlast, hvs⟩ := ih hus
    refine ⟨_ :: vs, last, rfl, hlast, fun t ht => ?_⟩
    rcases List.mem_cons.mp ht with rfl | ht
    · exact Lexeme.lexeme?_kind_ne hlexeme
    · exact hvs t ht

theorem tokenize_eq_append {text : String} {ts : List Token} (h : tokenize text = .ok ts) :
    ∃ us last, ts = us ++ [last] ∧ last.word = ⟨.endOfText, ""⟩ ∧
      ∀ t ∈ us, t.kind ≠ .endOfText := by
  unfold tokenize at h
  split at h
  · rename_i us hus
    cases h
    exact tokensFrom_eq_append hus
  · cases h

/-- The tokens of a text stand in any other text. -/
theorem stands_of_mem_tokenize {text : String} {ts : List Token} (h : tokenize text = .ok ts)
    {t : Token} (ht : t ∈ ts) (hend : t.kind ≠ .endOfText) : t.word.Stands := by
  rcases lexeme?_of_mem_tokenize h ht with hkind | ⟨c, cs, n, hspace, hlexeme, htext⟩
  · exact absurd hkind hend
  · intro behind hbehind
    obtain ⟨hagain, hle⟩ := Lexeme.lexeme?_stands hlexeme hbehind
    refine ⟨c, cs.take n, by simp [Token.word, htext], hspace, ?_⟩
    rw [hagain, List.length_take_of_le hle]
    rfl

/-- The kinds of tokens that are told by where they end. -/
def Token.isOpenEnded (t : Token) : Prop :=
  t.kind = .literal ∨ t.kind = .identifier ∨ t.kind = .parameterAlias

/-- What the tokens of a text have in common: literals, identifiers and aliases stand in any other
text, and signs have their own texts. -/
structure Token.Genuine (t : Token) : Prop where
  stands : t.isOpenEnded → t.word.Stands
  fixed : ∀ text, Lexeme.fixedText? t.kind = some text → t.text = String.ofList text

theorem genuine_of_mem_tokenize {text : String} {ts : List Token} (h : tokenize text = .ok ts)
    {t : Token} (ht : t ∈ ts) : t.Genuine := by
  refine ⟨fun hkind => stands_of_mem_tokenize h ht ?_, fun fixed hfixed => ?_⟩
  · rcases hkind with hkind | hkind | hkind <;> simp [hkind]
  · rcases lexeme?_of_mem_tokenize h ht with hkind | ⟨c, cs, n, -, hlexeme, htext⟩
    · rw [hkind] at hfixed
      cases hfixed
    · rw [htext, Lexeme.lexeme?_text hlexeme hfixed]

end ODataRequest
