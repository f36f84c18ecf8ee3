import ODataRequest.Expression.Text
import ODataRequest.Proofs.Path.KeyReader
import ODataRequest.Proofs.Token.Portable

/-!
# ODataRequest.Proofs.Path.Group

Groups in parentheses, as they stand behind the name of a segment: arguments, a key, or both. What
stands in a group is a single value or `name=value,...` (`pairPieces`); groups that are written from
portable words are lexed into these words, and no slash in them ends the segment.
-/

namespace ODataRequest

open Text Lexeme

/-! ### Groups -/

/-- Pieces that may stand between parentheses. -/
structure Inner (ps : List Piece) : Prop where
  lexed : ∀ behind, Bounded behind → Lexed ps behind
  calm : Calm (spelled ps)

/-- The pieces in parentheses. -/
def group (ps : List Piece) : List Piece :=
  ⟨Word.openParen, false⟩ :: (ps ++ [⟨Word.closeParen, false⟩])

theorem spelled_group (ps : List Piece) : spelled (group ps) = '(' :: (spelled ps ++ [')']) := by
  simp [group, Piece.chars, Word.openParen, Word.closeParen]

/-- Groups, one behind the other. -/
inductive Groups : List Piece → Prop
  | nil : Groups []
  | cons {inner others : List Piece} (first : Inner inner) (rest : Groups others) :
      Groups (group inner ++ others)

namespace Groups

variable {ps : List Piece}

theorem bounded (h : Groups ps) {behind : List Char} (hbehind : Bounded behind) :
    Bounded (spelled ps ++ behind) := by
  cases h with
  | nil => exact hbehind
  | cons =>
    rw [spelled_append, spelled_group]
    exact bounded_cons (by decide)

theorem lexed (h : Groups ps) (behind : List Char) : Lexed ps behind := by
  induction h with
  | nil => trivial
  | @cons inner others first rest ih =>
    have hclosing : Bounded (spelled [⟨Word.closeParen, false⟩] ++ (spelled others ++ behind)) :=
      bounded_cons (by decide)
    rw [lexed_append]
    refine ⟨⟨Word.lexes_openParen _, ?_⟩, ih⟩
    rw [lexed_append]
    exact ⟨first.lexed _ hclosing, Word.lexes_closeParen _, trivial⟩

/-- Nothing in groups separates, and all of them are closed. -/
theorem isPart (h : Groups ps) (sep : Char) : IsPart sep (spelled ps) := by
  induction h with
  | nil => exact ⟨trivial, rfl⟩
  | cons first _ ih =>
    rw [spelled_append, spelled_group]
    exact first.calm.isPart_group.append ih

end Groups

/-! ### Values -/

theorem chars_unspaced (w : Word) : Piece.chars ⟨w, false⟩ = w.text.toList := by
  simp [Piece.chars]

theorem inner_nil : Inner [] :=
  ⟨fun _ _ => trivial, .nil⟩

theorem inner_single {w : Word} (h : w.Portable) : Inner [⟨w, false⟩] where
  lexed behind hbehind := ⟨h.stands behind hbehind, trivial⟩
  calm := by simpa [chars_unspaced] using h.calm

/-- The pieces of `name=value,...`. -/
def pairPieces : List (String × Word) → List Piece
  | [] => []
  | (name, value) :: pairs =>
    ⟨Word.identifier name, false⟩ :: ⟨Word.equals, false⟩ :: ⟨value, false⟩ ::
      match pairs with
      | [] => []
      | _ :: _ => ⟨Word.comma, false⟩ :: pairPieces pairs

/-- The text of `name=value`. -/
def pairText (pair : String × Word) : String :=
  pair.1 ++ "=" ++ pair.2.text

theorem spelled_pairPieces (pairs : List (String × Word)) :
    spelled (pairPieces pairs) = (commaJoined (pairs.map pairText)).toList := by
  induction pairs with
  | nil => simp [pairPieces, commaJoined]
  | cons pair pairs ih =>
    obtain ⟨name, value⟩ := pair
    cases pairs with
    | nil =>
      simp [pairPieces, commaJoined, pairText, chars_unspaced, Word.identifier, Word.equals]
    | cons next pairs =>
      have hjoin : commaJoined (((name, value) :: next :: pairs).map pairText) =
          pairText (name, value) ++ "," ++ commaJoined ((next :: pairs).map pairText) :=
        commaJoined_cons_cons _ _ _
      rw [hjoin, pairPieces]
      simp only [spelled_cons, chars_unspaced, ih, String.toList_append]
      simp [pairText, Word.identifier, Word.equals, Word.comma]

theorem inner_pairPieces {pairs : List (String × Word)}
    (h : ∀ pair ∈ pairs, (Word.identifier pair.1).Portable ∧ pair.2.Portable) :
    Inner (pairPieces pairs) := by
  induction pairs with
  | nil => exact inner_nil
  | cons pair pairs ih =>
    obtain ⟨name, value⟩ := pair
    obtain ⟨hname, hvalue⟩ := h _ List.mem_cons_self
    have ih := ih fun pair hpair => h pair (List.mem_cons_of_mem _ hpair)
    have hsign : Calm Word.equals.text.toList ∧ Calm Word.comma.text.toList := by
      constructor <;> exact .plain (by decide) (by decide) (by decide) (by decide) .nil
    constructor
    · intro behind hbehind
      refine ⟨hname.stands _ (bounded_cons (by decide)), Word.lexes_equals _,
        hvalue.stands _ ?_, ?_⟩
      · cases pairs with
        | nil => exact hbehind
        | cons next pairs => exact bounded_cons (by decide)
      · cases pairs with
        | nil => trivial
        | cons next pairs => exact ⟨Word.lexes_comma _, ih.lexed behind hbehind⟩
    · have hpair : Calm ((Word.identifier name).text.toList ++ (Word.equals.text.toList ++
          value.text.toList)) := hname.calm.append (hsign.1.append hvalue.calm)
      cases pairs with
      | nil => simpa [pairPieces, chars_unspaced] using hpair
      | cons next pairs =>
        simpa [pairPieces, chars_unspaced] using hpair.append (hsign.2.append ih.calm)

/-- Tokens that are the pieces of named values are named values. -/
theorem namedValues_of_pairPieces {pairs : List (String × Word)} (hne : pairs ≠ [])
    {ts : List Token} (h : ts.map Token.piece = pairPieces pairs) : NamedValues ts pairs := by
  induction pairs generalizing ts with
  | nil => exact absurd rfl hne
  | cons pair pairs ih =>
    obtain ⟨name, value⟩ := pair
    obtain ⟨t, us, rfl, hname, htext, -, hus⟩ := exists_of_map_piece_cons h
    obtain ⟨sign, vs, rfl, hsign, -, -, hvs⟩ := exists_of_map_piece_cons hus
    obtain ⟨v, ws, rfl, hkind, hvalue, -, hws⟩ := exists_of_map_piece_cons hvs
    have hpair : (name, value) = (t.text, v.word) := by
      rw [htext, Token.word, hkind, hvalue]
      rfl
    rw [hpair]
    cases pairs with
    | nil =>
      rw [List.map_eq_nil_iff] at hws
      subst hws
      exact .last hname hsign
    | cons next pairs =>
      obtain ⟨comma, xs, rfl, hcomma, -, -, hxs⟩ := exists_of_map_piece_cons hws
      exact .more hname hsign hcomma (ih (List.cons_ne_nil _ _) hxs)

/-- Tokens that are the pieces of groups start with the first group. -/
theorem exists_of_map_piece_group {inner others : List Piece} {ts : List Token}
    (h : ts.map Token.piece = group inner ++ others) :
    ∃ opening us closing rest, ts = opening :: us ++ closing :: rest ∧
      opening.kind = .openParen ∧ closing.kind = .closeParen ∧ us.map Token.piece = inner ∧
      rest.map Token.piece = others := by
  rw [group, List.cons_append, List.append_assoc, List.singleton_append] at h
  obtain ⟨opening, us, rfl, hopening, -, -, hus⟩ := exists_of_map_piece_cons h
  obtain ⟨vs, ws, rfl, hvs, hws⟩ := List.map_eq_append_iff.mp hus
  obtain ⟨closing, rest, rfl, hclosing, -, -, hrest⟩ := exists_of_map_piece_cons hws
  exact ⟨opening, vs, closing, rest, rfl, hopening, hclosing, hvs, hrest⟩

end ODataRequest
