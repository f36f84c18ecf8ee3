import ODataRequest.Proofs.Text.Enclosed
import ODataRequest.Proofs.Token.Portable
import ODataRequest.Proofs.Token.Reader

/-!
# ODataRequest.Proofs.Token.Balanced

Readers that pass over whole groups. From some tokens to others everything is *balanced* if each
parenthesis in between is closed there and there is no semicolon; this composes, so what a reader
passes over is balanced when its parts are. The text of tokens that are balanced up to the end is
enclosed (`Balanced.enclosed_of_tokenize`).
-/

namespace ODataRequest

/-- A token that opens, closes and separates nothing. -/
structure Token.Plain (t : Token) : Prop where
  opening : t.kind ≠ .openParen
  closing : t.kind ≠ .closeParen
  semicolon : t.kind ≠ .semicolon
  ends : t.kind ≠ .endOfText

/-- Tokens are plain by their kind. -/
theorem Token.plain_of_kind {t : Token} {kind : TokenKind} (h : t.kind = kind)
    (hkind : kind ∉ [TokenKind.openParen, .closeParen, .semicolon, .endOfText]) : t.Plain := by
  simp only [List.mem_cons, List.not_mem_nil, or_false, not_or] at hkind
  obtain ⟨hopening, hclosing, hsemicolon, hends⟩ := hkind
  subst h
  exact ⟨hopening, hclosing, hsemicolon, hends⟩

/-- Between the tokens `ts` and the tokens `rest` every parenthesis is closed, and there is no
semicolon. -/
inductive Balanced : (ts rest : List Token) → Prop
  | refl (ts : List Token) : Balanced ts ts
  | token {t : Token} {ts rest : List Token} (plain : t.Plain) (others : Balanced ts rest) :
      Balanced (t :: ts) rest
  | group {opening closing : Token} {ts us rest : List Token} (opens : opening.kind = .openParen)
      (inside : Balanced ts (closing :: us)) (closes : closing.kind = .closeParen)
      (others : Balanced us rest) : Balanced (opening :: ts) rest

namespace Balanced

variable {ts us rest : List Token}

theorem trans (h : Balanced ts us) (h' : Balanced us rest) : Balanced ts rest := by
  induction h with
  | refl => exact h'
  | token plain _ ih => exact .token plain (ih h')
  | group opens inside closes _ _ ih => exact .group opens inside closes (ih h')

/-- What is left is the end of what there was. -/
theorem isSuffix (h : Balanced ts rest) : rest <:+ ts := by
  induction h with
  | refl => exact List.suffix_refl _
  | token _ _ ih => exact ih.trans (List.suffix_cons _ _)
  | group _ _ _ _ ihInside ihOthers =>
    exact ihOthers.trans ((List.suffix_cons _ _).trans (ihInside.trans (List.suffix_cons _ _)))

/-- One token of a kind that opens, closes and separates nothing. -/
theorem single {t : Token} {kind : TokenKind} (h : t.kind = kind)
    (hkind : kind ∉ [TokenKind.openParen, .closeParen, .semicolon, .endOfText]) :
    Balanced (t :: ts) ts :=
  .token (t.plain_of_kind h hkind) (.refl ts)

/-- A group in parentheses. -/
theorem parens {opening closing : Token} (opens : opening.kind = .openParen)
    (inside : Balanced ts (closing :: rest)) (closes : closing.kind = .closeParen) :
    Balanced (opening :: ts) rest :=
  .group opens inside closes (.refl rest)

/-- Plain tokens, one behind the other. -/
theorem of_plain (h : ∀ t ∈ us, t.Plain) (rest : List Token) : Balanced (us ++ rest) rest := by
  induction us with
  | nil => exact .refl rest
  | cons t us ih =>
    obtain ⟨ht, hus⟩ := List.forall_mem_cons.mp h
    exact .token ht (ih hus)

/-- Items with commas between them. -/
theorem items {answers : Answers} {α : Type} {item : TokenReader α} {source : String} {as : List α}
    (hitem : ∀ ⦃ts rest : List Token⦄ ⦃a : α⦄,
      TokenReader.Reads answers item source ts a rest → Balanced ts rest)
    (h : TokenReader.ReadsItems answers item source ts as rest) : Balanced ts rest := by
  induction h with
  | last h => exact hitem h
  | more h comma _ ih => exact (hitem h).trans (.token (Token.plain_of_kind comma (by decide)) ih)

end Balanced

/-- Each item is read from an end of the tokens. -/
theorem TokenReader.ReadsItems.exists_isSuffix_of_mem {answers : Answers} {α : Type}
    {item : TokenReader α} {source : String} {ts rest : List Token} {as : List α}
    (h : ReadsItems answers item source ts as rest)
    (hitem : ∀ ⦃ts rest : List Token⦄ ⦃a : α⦄, Reads answers item source ts a rest → Balanced ts rest)
    {a : α} (ha : a ∈ as) : ∃ us vs, us <:+ ts ∧ Reads answers item source us a vs := by
  induction h with
  | last h =>
    rw [List.mem_singleton] at ha
    subst ha
    exact ⟨_, _, List.suffix_refl _, h⟩
  | more h _ _ ih =>
    obtain rfl | ha := List.mem_cons.mp ha
    · exact ⟨_, _, List.suffix_refl _, h⟩
    · obtain ⟨us, vs, hus, hread⟩ := ih ha
      exact ⟨us, vs, hus.trans ((List.suffix_cons _ _).trans (hitem h).isSuffix), hread⟩

/-! ### Texts -/

namespace Lexeme

/-- The first token of a text stands behind blank space, and what follows it are the tokens of what
is left of the text. -/
theorem tokensFrom_eq_cons {cs : List Char} {offset : Nat} {spaced : Bool} {t : Token}
    {ts : List Token} (h : tokensFrom offset spaced cs = some (t :: ts))
    (hend : t.kind ≠ .endOfText) :
    ∃ gap c behind n offset', cs = gap ++ (c :: behind.take n ++ behind.drop n) ∧
      (∀ x ∈ gap, isSpace x = true) ∧ lexeme? c behind = some (t.kind, n) ∧
      tokensFrom offset' false (behind.drop n) = some ts := by
  fun_induction tokensFrom offset spaced cs with
  | case1 =>
    cases h
    exact absurd rfl hend
  | case2 offset spaced c cs hspace ih =>
    obtain ⟨gap, d, behind, n, offset', rfl, hgap, hlexeme, hrest⟩ := ih h
    refine ⟨c :: gap, d, behind, n, offset', rfl, ?_, hlexeme, hrest⟩
    exact List.forall_mem_cons.mpr ⟨hspace, hgap⟩
  | case3 => cases h
  | case4 offset spaced c cs hspace kind n hlexeme =>
    obtain ⟨us, hus, heq⟩ := Option.map_eq_some_iff.mp h
    cases heq
    exact ⟨[], c, cs, n, _, by simp, by simp, hlexeme, hus⟩

/-- In front of the end of a text there is only blank space. -/
theorem isSpace_of_tokensFrom {cs : List Char} {offset : Nat} {spaced : Bool} {ts : List Token}
    (h : tokensFrom offset spaced cs = some ts) (hend : (firstToken ts).kind = .endOfText) :
    ∀ c ∈ cs, isSpace c = true := by
  fun_induction tokensFrom offset spaced cs generalizing ts with
  | case1 => simp
  | case2 offset spaced c cs hspace ih => exact List.forall_mem_cons.mpr ⟨hspace, ih h hend⟩
  | case3 => cases h
  | case4 offset spaced c cs hspace kind n hlexeme =>
    obtain ⟨us, -, rfl⟩ := Option.map_eq_some_iff.mp h
    exact absurd hend (lexeme?_kind_ne hlexeme)

theorem calm_spaces {gap : List Char} (h : ∀ c ∈ gap, isSpace c = true) : Text.Calm gap := by
  have hquiet : IsQuiet isSpace := by
    unfold IsQuiet
    decide
  exact hquiet.calm h

end Lexeme

namespace Balanced

open Text Lexeme

/-- The characters of balanced tokens are enclosed. -/
theorem enclosed {ts rest : List Token} (h : Balanced ts rest) {cs : List Char} {offset : Nat}
    {spaced : Bool} (htokens : tokensFrom offset spaced cs = some ts) :
    ∃ as bs offset' spaced', cs = as ++ bs ∧ Enclosed as ∧
      tokensFrom offset' spaced' bs = some rest := by
  induction h generalizing cs offset spaced with
  | refl ts => exact ⟨[], cs, offset, spaced, rfl, .nil, htokens⟩
  | @token t ts rest plain _ ih =>
    obtain ⟨gap, c, behind, n, offset₁, rfl, hgap, hlexeme, hrest⟩ :=
      tokensFrom_eq_cons htokens plain.ends
    obtain ⟨as, bs, offset', spaced', hsplit, has, hbs⟩ := ih hrest
    have htoken : Calm (c :: behind.take n) :=
      lexeme?_calm hlexeme ⟨plain.opening, plain.closing, plain.semicolon⟩
    refine ⟨gap ++ (c :: behind.take n ++ as), bs, offset', spaced', ?_, ?_, hbs⟩
    · simp [hsplit]
    · exact .calm (calm_spaces hgap) (.calm htoken has)
  | @group opening closing ts us rest opens _ closes _ ihInside ihOthers =>
    -- the group takes up the text to its closing parenthesis, the others what is behind it
    obtain ⟨gap, c, behind, n, offset₁, rfl, hgap, hlexeme, hrest⟩ :=
      tokensFrom_eq_cons htokens (by rw [opens]; decide)
    have hopening : c :: behind.take n = ['('] := lexeme?_text hlexeme (by rw [opens]; rfl)
    obtain ⟨as, bs, offset₂, spaced₂, hsplit, has, hbs⟩ := ihInside hrest
    obtain ⟨gap', c', behind', n', offset₃, rfl, hgap', hlexeme', hrest'⟩ :=
      tokensFrom_eq_cons hbs (by rw [closes]; decide)
    have hclosing : c' :: behind'.take n' = [')'] := lexeme?_text hlexeme' (by rw [closes]; rfl)
    obtain ⟨as', bs', offset', spaced', hsplit', has', hbs'⟩ := ihOthers hrest'
    refine ⟨gap ++ '(' :: ((as ++ gap') ++ ')' :: as'), bs', offset', spaced', ?_, ?_, hbs'⟩
    · rw [hopening, hsplit, hclosing, hsplit']
      simp
    · exact .calm (calm_spaces hgap)
        (.group (has.append (calm_spaces hgap').enclosed) has')

/-- A text whose tokens are balanced up to the end is enclosed. -/
theorem enclosed_of_tokenize {text : String} {ts rest : List Token} (h : Balanced ts rest)
    (htokens : tokenize text = .ok ts) (hend : (firstToken rest).kind = .endOfText) :
    Enclosed text.toList := by
  unfold tokenize at htokens
  split at htokens
  · next us hus =>
    cases htokens
    obtain ⟨as, bs, offset, spaced, hsplit, has, hbs⟩ := h.enclosed hus
    rw [hsplit]
    exact has.append (calm_spaces (isSpace_of_tokensFrom hbs hend)).enclosed
  · cases htokens

end Balanced

end ODataRequest
