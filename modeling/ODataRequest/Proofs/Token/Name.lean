import ODataRequest.Proofs.Text.Cut
import ODataRequest.Proofs.Token.Literal

/-!
# ODataRequest.Proofs.Token.Name

Names of the model as words. The text of a qualified name is read back as this name
(`QualifiedName.ofString?_text`), and it is one token in front of every boundary: its dots hold the
identifiers together, and no literal has a dot in it (`isName_qualifiedName`).
-/

namespace ODataRequest

open Text Lexeme

/-! ### Dotted texts -/

/-- The characters of an identifier. -/
theorem Identifier.chars (id : Identifier) : ∃ c cs, id.text.toList = c :: cs ∧
    isIdentifierStart c = true ∧ ∀ x ∈ c :: cs, isIdentifierPart x = true := by
  have hform := id.wellFormed
  cases hchars : id.text.toList with
  | nil => simp [hchars, isIdentifier] at hform
  | cons c cs =>
    simp only [hchars, isIdentifier, Bool.and_eq_true, List.all_eq_true] at hform
    exact ⟨c, cs, rfl, hform.1,
      List.forall_mem_cons.mpr ⟨isIdentifierPart_of_isIdentifierStart hform.1, hform.2⟩⟩

/-- The text of an identifier, or of several with dots between them: it starts as an identifier, and
a word that starts with it does not end inside. -/
structure IsDotted (cs : List Char) : Prop where
  start : ∃ c rest, cs = c :: rest ∧ isIdentifierStart c = true
  inside : ∀ behind, wordLength (cs ++ behind) = cs.length + wordLength behind

namespace IsDotted

theorem identifier (id : Identifier) : IsDotted id.text.toList := by
  obtain ⟨c, cs, hchars, hstart, hparts⟩ := id.chars
  rw [hchars]
  refine ⟨⟨c, cs, rfl, hstart⟩, fun behind => ?_⟩
  generalize c :: cs = word at hparts
  induction word with
  | nil => simp
  | cons x word ih =>
    have ih := ih fun y hy => hparts y (List.mem_cons_of_mem x hy)
    rw [List.cons_append, wordLength, if_pos (hparts x List.mem_cons_self), ih, List.length_cons]
    omega

/-- A dot holds two dotted texts together. -/
theorem dot {as bs : List Char} (ha : IsDotted as) (hb : IsDotted bs) :
    IsDotted (as ++ '.' :: bs) := by
  refine ⟨?_, fun behind => ?_⟩
  · obtain ⟨c, rest, rfl, hc⟩ := ha.start
    exact ⟨c, _, rfl, hc⟩
  have hdot : wordLength ('.' :: (bs ++ behind)) = wordLength (bs ++ behind) + 1 := by
    obtain ⟨d, ds, rfl, hd⟩ := hb.start
    have hpart : isIdentifierPart '.' = false := by decide
    rw [wordLength, hpart]
    simp [hd]
  rw [List.append_assoc, List.cons_append, ha.inside, hdot, hb.inside]
  simp only [List.length_append, List.length_cons]
  omega

theorem joined {ids : List Identifier} (h : ids ≠ []) :
    IsDotted (Text.joined '.' (ids.map fun id => id.text.toList)) := by
  induction ids with
  | nil => exact absurd rfl h
  | cons id ids ih =>
    cases ids with
    | nil => exact identifier id
    | cons next ids => exact (identifier id).dot (ih (List.cons_ne_nil _ _))

/-- A dotted text is a word of its own. -/
theorem wordLength_eq {c : Char} {cs : List Char} (h : IsDotted (c :: cs)) :
    isIdentifierStart c = true ∧ wordLength cs = cs.length := by
  obtain ⟨c', rest, heq, hc⟩ := h.start
  cases heq
  have hinside : wordLength (c :: cs ++ []) = (c :: cs).length + 0 := h.inside []
  have hpart := isIdentifierPart_of_isIdentifierStart hc
  exact ⟨hc, by simpa [wordLength, hpart] using hinside⟩

/-- A dotted text that is no literal is one token in front of every boundary. -/
theorem stands {text : String} (h : IsDotted text.toList) (hword : text.toList ∉ literalWords) :
    (Word.identifier text).Stands := by
  obtain ⟨c, cs, hchars, -⟩ := h.start
  rw [hchars] at h hword
  obtain ⟨hstart, hlength⟩ := h.wordLength_eq
  exact word_stands hchars hstart hlength hword

end IsDotted

/-- The name is written at the start of a segment: it is a single token there, and does not look
like anything else. -/
structure IsName (name : String) : Prop where
  stands : (Word.identifier name).Stands
  dotted : IsDotted name.toList

/-! ### Qualified names -/

namespace QualifiedName

/-- The identifiers of a qualified name, its own one at the end. -/
def identifiers (q : QualifiedName) : List Identifier :=
  q.space.identifiers ++ [q.name]

theorem toList_text (q : QualifiedName) :
    q.text.toList = joined '.' (q.identifiers.map fun id => id.text.toList) := by
  have hspace : q.space.text.toList =
      joined '.' (q.space.identifiers.map fun id => id.text.toList) := by
    unfold Namespace.text
    rw [toList_intercalate rfl, List.map_map]
    rfl
  have hne : q.space.identifiers.map (fun id => id.text.toList) ≠ [] := by
    simp [Namespace.identifiers]
  unfold text identifiers
  rw [String.toList_append, String.toList_append, hspace, List.map_append, List.map_singleton,
    joined_concat hne]
  simp

/-- The text of a qualified name is cut into its identifiers. -/
theorem pieces_text (q : QualifiedName) :
    pieces '.' q.text.toList = q.identifiers.map fun id => id.text.toList := by
  rw [toList_text]
  refine pieces_joined ?_ (by simp [identifiers])
  intro part hpart
  obtain ⟨id, -, rfl⟩ := List.mem_map.mp hpart
  obtain ⟨c, cs, hchars, -, hparts⟩ := id.chars
  rw [hchars]
  exact not_mem_of_forall hparts (by decide)

theorem ofIdentifiers?_identifiers (q : QualifiedName) : ofIdentifiers? q.identifiers = some q := by
  obtain ⟨⟨first, rest⟩, name⟩ := q
  cases rest with
  | nil => rfl
  | cons second rest =>
    have hfront : (second :: rest ++ [name]).dropLast = second :: rest := List.dropLast_concat
    have hlast : (second :: rest ++ [name]).getLast (by simp) = name := List.getLast_concat
    show some (QualifiedName.mk ⟨first, (second :: rest ++ [name]).dropLast⟩
      ((second :: rest ++ [name]).getLast (by simp))) = _
    rw [hfront, hlast]

/-- The text of a qualified name is read back. -/
theorem ofString?_text (q : QualifiedName) : ofString? q.text = some q := by
  have hread (ids : List Identifier) : (ids.map fun id => id.text.toList).mapM
      (fun piece => Identifier.ofString? (String.ofList piece)) = some ids := by
    induction ids with
    | nil => rfl
    | cons id ids ih => simp [ih, Identifier.ofString?_text]
  unfold ofString?
  rw [pieces_text, hread]
  exact ofIdentifiers?_identifiers q

theorem identifiers_of_ofIdentifiers? {ids : List Identifier} {q : QualifiedName}
    (h : ofIdentifiers? ids = some q) : q.identifiers = ids := by
  match ids with
  | [] => cases h
  | [_] => cases h
  | first :: second :: rest =>
    cases h
    show first :: (second :: rest).dropLast ++ [(second :: rest).getLast _] = _
    rw [List.cons_append, List.dropLast_concat_getLast]

/-- A text that is read as a qualified name is the text of this name. -/
theorem text_of_ofString? {text : String} {q : QualifiedName} (h : ofString? text = some q) :
    q.text = text := by
  have hread {piece : List Char} {id : Identifier}
      (h : Identifier.ofString? (String.ofList piece) = some id) : id.text.toList = piece := by
    rw [Identifier.text_of_ofString? h, String.toList_ofList]
  have hreads {pieces : List (List Char)} {ids : List Identifier}
      (h : pieces.mapM (fun piece => Identifier.ofString? (String.ofList piece)) = some ids) :
      ids.map (fun id => id.text.toList) = pieces := by
    induction pieces generalizing ids with
    | nil =>
      cases h
      rfl
    | cons piece pieces ih =>
      simp only [List.mapM_cons, Option.bind_eq_bind, Option.bind_eq_some_iff, Option.pure_def,
        Option.some.injEq] at h
      obtain ⟨id, hid, ids, hids, rfl⟩ := h
      rw [List.map_cons, hread hid, ih hids]
  unfold ofString? at h
  obtain ⟨ids, hids, hq⟩ := Option.bind_eq_some_iff.mp h
  apply String.toList_inj.mp
  rw [toList_text, identifiers_of_ofIdentifiers? hq, hreads hids, joined_pieces]

theorem isDotted_text (q : QualifiedName) : IsDotted q.text.toList := by
  rw [toList_text]
  exact .joined (by simp [identifiers])

theorem dot_mem_text (q : QualifiedName) : '.' ∈ q.text.toList := by
  unfold text
  simp

end QualifiedName

theorem isName_qualifiedName (q : QualifiedName) : IsName q.text where
  dotted := q.isDotted_text
  stands := by
    have hliterals : literalWords.all (fun word => !word.contains '.') = true := by decide
    refine q.isDotted_text.stands fun hmem => ?_
    have hword := List.all_eq_true.mp hliterals _ hmem
    simp [q.dot_mem_text] at hword

end ODataRequest
