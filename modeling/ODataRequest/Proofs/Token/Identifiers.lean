import ODataRequest.Proofs.Query.SelectText
import ODataRequest.Proofs.Token.Bytes
import ODataRequest.Proofs.Token.Canonical

/-!
# ODataRequest.Proofs.Token.Identifiers

Names and identifier tokens are the same texts (`tokens_agree_with_names`). Names are read by cutting
a text at its dots, and tokens by going on as long as a character may belong to an identifier or a dot
is followed by one. A text that is a name as a whole is one token, the literals without dots aside;
and the text of an identifier token is a name as a whole (`exists_identifiers`), a qualified one if
there is a dot in it.
-/

namespace ODataRequest

open Text Lexeme

/-- The tokens of a text that is a single token. -/
def wholeToken (kind : TokenKind) (text : String) : List Token :=
  [⟨kind, text, 0, false⟩, ⟨.endOfText, "", text.utf8ByteSize, false⟩]

theorem Word.tokenize_whole {w : Word} (h : w.Stands) :
    tokenize w.text = .ok (wholeToken w.kind w.text) := by
  rw [Word.tokenize_of_stands h, byteLength_toList]
  rfl

/-! ### Names are written as they are read -/

namespace Identifier

theorem parse_eq_ok_iff {text : String} {id : Identifier} :
    parse text = .ok id ↔ id.text = text := by
  unfold parse
  constructor
  · intro h
    split at h
    · next hread =>
      cases h
      exact text_of_ofString? hread
    · cases h
  · rintro rfl
    rw [ofString?_text]

theorem dot_not_mem (id : Identifier) : '.' ∉ id.text.toList := by
  obtain ⟨c, cs, hchars, -, hparts⟩ := id.chars
  rw [hchars]
  exact not_mem_of_forall hparts (by decide)

/-- A literal that looks like an identifier. -/
theorem literal_stands {text : String} (h : text.toList ∈ literalWords) :
    (Word.mk .literal text).Stands := by
  simp only [literalWords, List.mem_cons, List.not_mem_nil, or_false, String.toList_inj] at h
  rcases h with rfl | rfl | rfl | rfl | rfl
  all_goals exact Word.stands_of_lexeme? rfl (by decide) (by decide +kernel)

end Identifier

namespace Namespace

theorem toList_text (space : Namespace) :
    space.text.toList = joined '.' (space.identifiers.map fun id => id.text.toList) := by
  unfold text
  rw [toList_intercalate rfl, List.map_map]
  rfl

/-- A text is read as a namespace if it is the text of this namespace. -/
theorem parse_eq_ok_iff {text : String} {space : Namespace} :
    parse text = .ok space ↔ space.text = text := by
  refine ⟨text_of_parse, ?_⟩
  rintro rfl
  have hpieces : pieces '.' space.text.toList = space.identifiers.map fun id => id.text.toList := by
    rw [toList_text]
    refine pieces_joined ?_ (by simp [identifiers])
    intro part hpart
    obtain ⟨id, -, rfl⟩ := List.mem_map.mp hpart
    exact id.dot_not_mem
  have hread (ids : List Identifier) : (ids.map fun id => id.text.toList).mapM
      (fun piece => Identifier.parse (String.ofList piece)) = .ok ids := by
    induction ids with
    | nil => rfl
    | cons id ids ih =>
      have hid : Identifier.parse (String.ofList id.text.toList) = .ok id :=
        Identifier.parse_eq_ok_iff.mpr String.ofList_toList.symm
      rw [List.map_cons, List.mapM_cons, hid, ih]
      rfl
  unfold parse
  rw [hpieces, hread]
  rfl

end Namespace

namespace QualifiedName

/-- A text is read as a qualified name if it is the text of this name. -/
theorem parse_eq_ok_iff {text : String} {q : QualifiedName} :
    parse text = .ok q ↔ q.text = text := by
  unfold parse
  constructor
  · intro h
    split at h
    · next hread =>
      cases h
      exact text_of_ofString? hread
    · cases h
  · rintro rfl
    rw [ofString?_text]

/-- A text is cut at its last dot in one way. -/
theorem cut_at_last_dot {as bs cs ds : List Char} (hbs : '.' ∉ bs) (hds : '.' ∉ ds)
    (h : as ++ '.' :: bs = cs ++ '.' :: ds) : as = cs ∧ bs = ds := by
  have hcut {front back : List Char} (hback : '.' ∉ back) :
      cutAt? '.' (front ++ '.' :: back).reverse = some (back.reverse, front.reverse) := by
    rw [List.reverse_append, List.reverse_cons, List.append_assoc, List.singleton_append]
    exact cutAt?_append (by rwa [List.mem_reverse]) _
  have hsame := (hcut hbs).symm.trans ((congrArg (cutAt? '.' ·.reverse) h).trans (hcut hds))
  simp only [Option.some.injEq, Prod.mk.injEq, List.reverse_inj] at hsame
  exact ⟨hsame.2, hsame.1⟩

/-- A name is read in two parts if it is read as a whole with a dot between them, and the second part
has no dot of its own. -/
theorem ofParts_eq_ok_iff {space name : String} {q : QualifiedName} :
    ofParts space name = .ok q ↔
      parse (space ++ "." ++ name) = .ok q ∧ '.' ∉ name.toList := by
  have hparts : ofParts space name = .ok q ↔ q.space.text = space ∧ q.name.text = name := by
    rw [← Namespace.parse_eq_ok_iff, ← Identifier.parse_eq_ok_iff]
    unfold ofParts
    simp only [except_bind_eq_ok]
    constructor
    · rintro ⟨ns, hns, id, hid, hq⟩
      cases hq
      exact ⟨hns, hid⟩
    · rintro ⟨hns, hid⟩
      exact ⟨_, hns, _, hid, rfl⟩
  rw [hparts, parse_eq_ok_iff]
  constructor
  · rintro ⟨rfl, rfl⟩
    exact ⟨rfl, q.name.dot_not_mem⟩
  · rintro ⟨htext, hdot⟩
    have hchars : q.space.text.toList ++ '.' :: q.name.text.toList =
        space.toList ++ '.' :: name.toList := by
      simpa [text] using congrArg String.toList htext
    obtain ⟨hspace, hname⟩ := cut_at_last_dot q.name.dot_not_mem hdot hchars
    exact ⟨String.toList_inj.mp hspace, String.toList_inj.mp hname⟩

end QualifiedName

/-- A text that is read as a type reference is the text of this reference. -/
theorem TypeReference.text_of_parse {text : String} {t : TypeReference}
    (h : TypeReference.parse text = .ok t) : t.text = text := by
  have hread : ofString? text = some t := by
    unfold parse at h
    split at h
    · next hread =>
      cases h
      exact hread
    · cases h
  unfold ofString? at hread
  dsimp only at hread
  split at hread
  · next inner hinner =>
    obtain ⟨name, hname, rfl⟩ := Option.map_eq_some_iff.mp hread
    obtain ⟨rest, hbehind, hbefore⟩ := Option.bind_eq_some_iff.mp hinner
    have htext : text.toList = "Collection(".toList ++ (inner ++ [')']) := by
      rw [eq_append_of_behind? hbehind, eq_append_of_before? hbefore]
    rw [← String.toList_inj, htext, TypeReference.text, if_pos rfl,
      QualifiedName.text_of_ofString? hname]
    simp
  · obtain ⟨name, hname, rfl⟩ := Option.map_eq_some_iff.mp hread
    exact QualifiedName.text_of_ofString? hname

/-! ### Words are names -/

/-- Where a text does not go on as an identifier, an identifier has been read. -/
theorem exists_identifier {front cs : List Char} (hparts : ∀ c ∈ front, isIdentifierPart c = true)
    (hstart : ((front ++ cs).head?.any isIdentifierStart) = true)
    (hend : ∀ c ∈ cs.head?, isIdentifierPart c = false) :
    ∃ id : Identifier, id.text.toList = front := by
  cases front with
  | nil =>
    cases cs with
    | nil => cases hstart
    | cons c cs =>
      have hpart := isIdentifierPart_of_isIdentifierStart (by simpa using hstart)
      rw [hend c rfl] at hpart
      cases hpart
  | cons c front =>
    have hhead : isIdentifierStart c = true := by simpa using hstart
    have hrest : front.all isIdentifierPart = true :=
      List.all_eq_true.mpr fun x hx => hparts x (List.mem_cons_of_mem c hx)
    have hform : isIdentifier (c :: front) = true := by rw [isIdentifier, hhead, hrest]; rfl
    exact ⟨⟨String.ofList (c :: front), by rwa [String.toList_ofList]⟩, String.toList_ofList⟩

/-- A word is made of identifiers with dots between them. A part of the first one may have been read
already (`front`), so that the induction can go on inside of it. -/
theorem exists_identifiers (front : List Char) {cs : List Char}
    (hparts : ∀ c ∈ front, isIdentifierPart c = true)
    (hstart : ((front ++ cs).head?.any isIdentifierStart) = true) :
    ∃ ids : List Identifier, ids ≠ [] ∧
      front ++ cs.take (wordLength cs) = joined '.' (ids.map fun id => id.text.toList) := by
  induction cs generalizing front with
  | nil =>
    obtain ⟨id, rfl⟩ := exists_identifier hparts hstart (by simp)
    exact ⟨[id], List.cons_ne_nil _ _, by simp [joined]⟩
  | cons c cs ih =>
    by_cases hpart : isIdentifierPart c = true
    · have hparts' : ∀ x ∈ front ++ [c], isIdentifierPart x = true :=
        List.forall_mem_append.mpr ⟨hparts, by simpa using hpart⟩
      obtain ⟨ids, hne, hids⟩ := ih _ hparts' (by rwa [List.append_assoc, List.singleton_append])
      rw [List.append_assoc, List.singleton_append] at hids
      exact ⟨ids, hne, by rw [wordLength, if_pos hpart, List.take_succ_cons, hids]⟩
    · obtain ⟨id, rfl⟩ := exists_identifier hparts hstart (by simpa using hpart)
      by_cases hdot : c = '.' ∧ (cs.head?.any isIdentifierStart) = true
      · obtain ⟨rfl, hnext⟩ := hdot
        obtain ⟨ids, hne, hids⟩ := ih [] (by simp) hnext
        obtain ⟨next, ids, rfl⟩ := List.exists_cons_of_ne_nil hne
        refine ⟨id :: next :: ids, List.cons_ne_nil _ _, ?_⟩
        rw [wordLength, if_neg hpart, if_pos ⟨rfl, hnext⟩, List.take_succ_cons]
        exact congrArg (id.text.toList ++ '.' :: ·) hids
      · refine ⟨[id], List.cons_ne_nil _ _, ?_⟩
        rw [wordLength, if_neg hpart, if_neg hdot]
        simp [joined]

/-- The identifiers of an identifier token. -/
theorem identifiers_of_tokenize {text : String} {ts : List Token} (h : tokenize text = .ok ts)
    {t : Token} (ht : t ∈ ts) (hkind : t.kind = .identifier) :
    ∃ ids : List Identifier, ids ≠ [] ∧
      t.text.toList = joined '.' (ids.map fun id => id.text.toList) := by
  obtain hend | ⟨c, cs, n, -, hlexeme, htext⟩ := lexeme?_of_mem_tokenize h ht
  · rw [hkind] at hend
    cases hend
  · rw [hkind] at hlexeme
    rw [htext, String.toList_ofList]
    cases lexemeForm hlexeme with
    | punctuation hmark => cases punctuation?_text hmark
    | word starts hword =>
      cases hword with
      | identifier =>
        exact exists_identifiers [c]
          (by simpa using isIdentifierPart_of_isIdentifierStart starts) (by simpa using starts)

/-- The text of an identifier token is an identifier, or a qualified name if there is a dot in it. -/
theorem name_of_tokenize {text : String} {ts : List Token} (h : tokenize text = .ok ts)
    {t : Token} (ht : t ∈ ts) (hkind : t.kind = .identifier) :
    ('.' ∉ t.text.toList ∧ ∃ id : Identifier, id.text = t.text) ∨
      ('.' ∈ t.text.toList ∧ ∃ q : QualifiedName, q.text = t.text) := by
  obtain ⟨ids, hne, htext⟩ := identifiers_of_tokenize h ht hkind
  match ids with
  | [] => exact absurd rfl hne
  | [id] =>
    have hid : id.text = t.text := String.toList_inj.mp htext.symm
    exact Or.inl ⟨hid ▸ id.dot_not_mem, id, hid⟩
  | first :: second :: rest =>
    obtain ⟨q, hq⟩ : ∃ q, QualifiedName.ofIdentifiers? (first :: second :: rest) = some q :=
      ⟨_, rfl⟩
    have hname : q.text = t.text := by
      rw [← String.toList_inj, q.toList_text, QualifiedName.identifiers_of_ofIdentifiers? hq, htext]
    exact Or.inr ⟨hname ▸ q.dot_mem_text, q, hname⟩

/-- Readers of names and the reader of tokens agree. A text that is read as a qualified name is one
identifier token as a whole, and so is a text that is read as an identifier, unless it is one of the
literal words, which are one literal token each. Every identifier token of any text is read as an
identifier, or as a qualified name if there is a dot in it. What has been read is written as the text
that it has been read from, and a qualified name of two parts is read from the parts joined by a dot. -/
theorem tokens_agree_with_names :
    (∀ text q, QualifiedName.parse text = .ok q →
      tokenize text = .ok (wholeToken .identifier text)) ∧
    (∀ text id, Identifier.parse text = .ok id →
      tokenize text = .ok (wholeToken
        (if text ∈ ["true", "false", "null", "INF", "NaN"] then .literal else .identifier) text)) ∧
    (∀ text ts, tokenize text = .ok ts → ∀ t ∈ ts, t.kind = .identifier →
      ('.' ∉ t.text.toList → ∃ id, Identifier.parse t.text = .ok id) ∧
      ('.' ∈ t.text.toList → ∃ q, QualifiedName.parse t.text = .ok q ∧
        requireName t.text = .done q)) ∧
    (∀ text,
      (∀ id, Identifier.parse text = .ok id → id.text = text) ∧
      (∀ space, Namespace.parse text = .ok space → space.text = text) ∧
      (∀ q, QualifiedName.parse text = .ok q → q.text = text) ∧
      ∀ t, TypeReference.parse text = .ok t → t.text = text) ∧
    ∀ space name q, QualifiedName.ofParts space name = .ok q ↔
      QualifiedName.parse (space ++ "." ++ name) = .ok q ∧ '.' ∉ name.toList := by
  refine ⟨?qualified, ?simple, ?token, ?written, fun _ _ _ => QualifiedName.ofParts_eq_ok_iff⟩
  case qualified =>
    intro text q h
    obtain rfl := QualifiedName.parse_eq_ok_iff.mp h
    have hwhole := Word.tokenize_whole (isName_qualifiedName q).stands
    exact hwhole
  case simple =>
    intro text id h
    obtain rfl := Identifier.parse_eq_ok_iff.mp h
    have hwords : id.text ∈ ["true", "false", "null", "INF", "NaN"] ↔
        id.text.toList ∈ literalWords := by
      simp only [literalWords, List.mem_cons, List.not_mem_nil, or_false, String.toList_inj]
    split
    · next hword => exact Word.tokenize_whole (Identifier.literal_stands (hwords.mp hword))
    · next hword =>
      refine Word.tokenize_whole (identifier_stands ?_)
      simpa [isSimpleName, id.wellFormed] using mt hwords.mpr hword
  case token =>
    intro text ts h t ht hkind
    obtain ⟨hdot, id, hid⟩ | ⟨hdot, q, hq⟩ := name_of_tokenize h ht hkind
    · exact ⟨fun _ => ⟨id, Identifier.parse_eq_ok_iff.mpr hid⟩, fun h => absurd h hdot⟩
    · refine ⟨fun h => absurd hdot h, fun _ => ⟨q, QualifiedName.parse_eq_ok_iff.mpr hq, ?_⟩⟩
      rw [requireName, ← hq, QualifiedName.ofString?_text]
      rfl
  case written =>
    exact fun text => ⟨fun _ => Identifier.parse_eq_ok_iff.mp, fun _ => Namespace.text_of_parse,
      fun _ => QualifiedName.parse_eq_ok_iff.mp, fun _ => TypeReference.text_of_parse⟩

/-- Letters of more than one byte, and a word that is no identifier for the reader of tokens. -/
theorem tokens_agree_with_names_umlauts : ∃ q id word t,
    QualifiedName.parse "Größe._x.Maß1" = .ok q ∧ Identifier.parse "Maß1" = .ok id ∧
      Identifier.parse "INF" = .ok word ∧ TypeReference.parse "Collection(Größe._x.Maß1)" = .ok t ∧
      tokenize "Größe._x.Maß1" = .ok (wholeToken .identifier "Größe._x.Maß1") ∧
      tokenize "Maß1" = .ok (wholeToken .identifier "Maß1") ∧
      tokenize "INF" = .ok (wholeToken .literal "INF") ∧
      (∃ name, QualifiedName.parse "Größe._x.Maß1" = .ok name ∧
        requireName "Größe._x.Maß1" = .done name) ∧
      t.text = "Collection(Größe._x.Maß1)" ∧ QualifiedName.ofParts "Größe._x" "Maß1" = .ok q := by
  have hread {α : Type} {x : Except NameError α} (h : x.isOk = true) : ∃ a, x = .ok a := by
    cases x with
    | error e => cases h
    | ok a => exact ⟨a, rfl⟩
  have hnames : (QualifiedName.parse "Größe._x.Maß1").isOk = true ∧
      (Identifier.parse "Maß1").isOk = true ∧ (Identifier.parse "INF").isOk = true ∧
      (TypeReference.parse "Collection(Größe._x.Maß1)").isOk = true := by decide +kernel
  obtain ⟨hq, hid, hword, ht⟩ := hnames
  obtain ⟨q, hq⟩ := hread hq
  obtain ⟨id, hid⟩ := hread hid
  obtain ⟨word, hword⟩ := hread hword
  obtain ⟨t, ht⟩ := hread ht
  obtain ⟨qualified, simple, token, written, parts⟩ := tokens_agree_with_names
  have htokens := qualified _ q hq
  exact ⟨q, id, word, t, hq, hid, hword, ht, htokens, simple _ id hid, simple _ word hword,
    (token _ _ htokens _ List.mem_cons_self rfl).2 (by decide), (written _).2.2.2 t ht,
    (parts _ _ q).mpr ⟨hq, by decide⟩⟩

end ODataRequest
