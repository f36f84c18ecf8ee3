import ODataRequest.Proofs.Path.Group
import ODataRequest.Proofs.Token.Literal

/-!
# ODataRequest.Proofs.Path.Key

Keys are read back. The pieces of a key (`keyPieces`) are the values of the key properties, with
their names if there are several; reading them gives one predicate for each key property, in the
order of the declaration (`reads_key`). What is read as a key is known already (`reads_key_of_namedValues`,
`reads_key_of_value`), so only the tokens and their predicates are to be told.
-/

namespace ODataRequest

open TokenReader

/-- The predicate that gives a key property a value by its literal. -/
def KeyProperty.predicate (k : KeyProperty) (value : PrimitiveValue) : KeyPredicate where
  path := k.pathText
  aliasName := if k.name = k.pathText then none else some k.name
  value := .literal value.literal value

/-- Two key properties that no name can confuse. -/
def KeyProperty.Apart (k l : KeyProperty) : Prop :=
  k.name ≠ l.name ∧ k.name ≠ l.pathText ∧ k.pathText ≠ l.name ∧ k.pathText ≠ l.pathText

/-! ### Pieces -/

/-- The pieces of the values of key properties, with their names in front. -/
def namedKeyPieces (value : KeyProperty → PrimitiveValue) : List KeyProperty → List Piece
  | [] => []
  | k :: ks =>
    ⟨Word.identifier k.name, false⟩ :: ⟨Word.equals, false⟩ ::
      ⟨⟨.literal, (value k).literal⟩, false⟩ ::
      match ks with
      | [] => []
      | _ :: _ => ⟨Word.comma, false⟩ :: namedKeyPieces value ks

/-- The pieces of a key without its parentheses. -/
def keyPieces (value : KeyProperty → PrimitiveValue) (keys : List KeyProperty) : List Piece :=
  match keys with
  | [k] => [⟨⟨.literal, (value k).literal⟩, false⟩]
  | ks => namedKeyPieces value ks

variable {answers : Answers} {aliases : AliasTable} {source : String}
variable {value : KeyProperty → PrimitiveValue} {keys : List KeyProperty}

/-- The value is one of the exact type of the key property. -/
def KeyProperty.Fits (answers : Answers) (k : KeyProperty) (value : PrimitiveValue) : Prop :=
  ∃ kind, (keyKind k).Gives answers kind ∧ value.kind? = some kind ∧ kind.isExact = true

namespace KeyProperty.Fits

theorem stands {k : KeyProperty} {v : PrimitiveValue} (h : k.Fits answers v) :
    (Word.mk .literal v.literal).Stands := by
  obtain ⟨kind, -, hkind, hexact⟩ := h
  exact v.literal_stands hkind hexact

/-- The literal is read as the value. -/
theorem givesValue (aliases : AliasTable) {k : KeyProperty} {v : PrimitiveValue}
    (h : k.Fits answers v) : ∃ kind, (keyKind k).Gives answers kind ∧
      GivesValue aliases kind ⟨.literal, v.literal⟩ (.literal v.literal v) := by
  obtain ⟨kind, hgives, hvalue, hexact⟩ := h
  refine ⟨kind, hgives, .literal (Or.inl rfl) (v.validate_literal hvalue hexact) ?_⟩
  rintro rfl
  cases hvalue

end KeyProperty.Fits

/-! ### Lexing -/

theorem lexed_namedKeyPieces (names : ∀ k ∈ keys, isSimpleName k.name = true)
    (fits : ∀ k ∈ keys, k.Fits answers (value k)) {behind : List Char}
    (hb : Lexeme.Bounded behind) : Lexed (namedKeyPieces value keys) behind := by
  induction keys with
  | nil => trivial
  | cons k ks ih =>
    have hname := identifier_stands (names k List.mem_cons_self)
    have hvalue := (fits k List.mem_cons_self).stands
    have ih := ih (fun x hx => names x (List.mem_cons_of_mem k hx))
      fun x hx => fits x (List.mem_cons_of_mem k hx)
    refine ⟨hname _ (Lexeme.bounded_cons (by decide)), Word.lexes_equals _, hvalue _ ?_, ?_⟩
    · cases ks with
      | nil => exact hb
      | cons l ls => exact Lexeme.bounded_cons (by decide)
    · cases ks with
      | nil => trivial
      | cons l ls => exact ⟨Word.lexes_comma _, ih⟩

theorem lexed_keyPieces (names : 1 < keys.length → ∀ k ∈ keys, isSimpleName k.name = true)
    (fits : ∀ k ∈ keys, k.Fits answers (value k)) {behind : List Char}
    (hb : Lexeme.Bounded behind) : Lexed (keyPieces value keys) behind := by
  match keys, names, fits with
  | [], _, _ => trivial
  | [k], _, fits => exact ⟨(fits k List.mem_cons_self).stands _ hb, trivial⟩
  | _ :: _ :: _, names, fits => exact lexed_namedKeyPieces (names (by simp)) fits hb

/-! ### Key properties that are apart -/

theorem nodup_pathText_of_apart (apart : keys.Pairwise KeyProperty.Apart) :
    (keys.map KeyProperty.pathText).Nodup := by
  rw [List.nodup_iff_pairwise_ne, List.pairwise_map]
  exact apart.imp fun h => h.2.2.2

/-- A key property is found by its name. -/
theorem keyNamed?_of_apart (apart : keys.Pairwise KeyProperty.Apart) {k : KeyProperty}
    (hk : k ∈ keys) : keyNamed? keys k.name = some k := by
  obtain ⟨done, ks, rfl⟩ := List.append_of_mem hk
  unfold keyNamed?
  rw [List.find?_eq_some_iff_append]
  refine ⟨by simp, done, ks, rfl, fun l hl => ?_⟩
  obtain ⟨hname, -, hpath, -⟩ := (List.pairwise_append.mp apart).2.2 l hl k List.mem_cons_self
  simp [hname, hpath]

/-! ### Order -/

theorem eraseDups_of_nodup {names : List String} (h : names.Nodup) : names.eraseDups = names := by
  induction names with
  | nil => rfl
  | cons name names ih =>
    obtain ⟨hname, hnames⟩ := List.nodup_cons.mp h
    have hfilter : names.filter (fun other => !other == name) = names := by
      rw [List.filter_eq_self]
      intro other hother
      have hne : other ≠ name := by
        rintro rfl
        exact hname hother
      simpa using hne
    rw [List.eraseDups_cons, hfilter, ih hnames]

/-- Predicates that stand in the order of the declaration stay as they are. -/
theorem inDeclaredOrder_self {ps : List KeyPredicate}
    (distinct : (keys.map KeyProperty.pathText).Nodup)
    (h : ps.map (·.path) = keys.map KeyProperty.pathText) : inDeclaredOrder keys ps = ps := by
  unfold inDeclaredOrder
  rw [eraseDups_of_nodup distinct]
  rw [← h] at distinct ⊢
  rw [List.filterMap_map]
  calc ps.filterMap _
      = ps.filterMap some :=
        List.filterMap_congr fun p hp => (find?_key_eq_some distinct).mpr ⟨hp, rfl⟩
    _ = ps := List.filterMap_some

/-! ### Reading -/

/-- The name of a key property and the literal of its value. -/
def namedLiteral (value : KeyProperty → PrimitiveValue) (k : KeyProperty) : String × Word :=
  (k.name, ⟨.literal, (value k).literal⟩)

theorem namedKeyPieces_eq (keys : List KeyProperty) :
    namedKeyPieces value keys = pairPieces (keys.map (namedLiteral value)) := by
  induction keys with
  | nil => rfl
  | cons k ks ih =>
    cases ks with
    | nil => rfl
    | cons l ls =>
      rw [namedKeyPieces, ih]
      rfl

/-- The literals are predicates of the key properties, one for each path. -/
theorem arePredicates_namedLiteral (apart : keys.Pairwise KeyProperty.Apart)
    (fits : ∀ k ∈ keys, k.Fits answers (value k)) :
    ArePredicates answers aliases keys (keys.map (namedLiteral value))
      (keys.map fun k => k.predicate (value k)) where
  each := by
    rw [List.forall₂_map_left_iff, List.forall₂_map_right_iff, List.forall₂_same]
    intro k hk
    obtain ⟨kind, hkind, hvalue⟩ := (fits k hk).givesValue aliases
    exact ⟨k, kind, _, keyNamed?_of_apart apart hk, hkind, hvalue, rfl⟩
  distinct := by
    rw [List.map_map]
    exact nodup_pathText_of_apart apart

/-- A key is read back: one predicate for each key property, in the order of the declaration. -/
theorem reads_key {type : EntityType} (nonempty : type.keys ≠ [])
    (apart : type.keys.Pairwise KeyProperty.Apart)
    (fits : ∀ k ∈ type.keys, k.Fits answers (value k)) {opening closing : Token}
    {ts rest : List Token} (hopening : opening.kind = .openParen)
    (hpieces : ts.map Token.piece = keyPieces value type.keys)
    (hclosing : closing.kind = .closeParen) :
    Reads answers (key aliases type) source (opening :: ts ++ closing :: rest)
      (type.keys.map fun k => k.predicate (value k)) rest := by
  match hkeys : type.keys with
  | [] => exact absurd hkeys nonempty
  | [k] =>
    rw [hkeys] at hpieces fits
    obtain ⟨literal, us, rfl, hliteral, hvalue, -, hus⟩ := exists_of_map_piece_cons hpieces
    rw [List.map_eq_nil_iff] at hus
    subst hus
    have hword : literal.word = ⟨.literal, (value k).literal⟩ := by rw [Token.word, hliteral, hvalue]
    obtain ⟨kind, hkind, hgives⟩ := (fits k List.mem_cons_self).givesValue aliases
    rw [← hword] at hgives
    exact reads_key_of_value hopening hclosing hkeys
      (gives_keyPredicate_iff.mpr ⟨kind, _, hkind, hgives, rfl⟩)
  | k :: l :: ks =>
    have hpairs : ts.map Token.piece = pairPieces (type.keys.map (namedLiteral value)) := by
      rw [← namedKeyPieces_eq, hkeys]
      rw [hkeys] at hpieces
      exact hpieces
    have hordered : inDeclaredOrder type.keys (type.keys.map fun k => k.predicate (value k)) =
        type.keys.map fun k => k.predicate (value k) :=
      inDeclaredOrder_self (nodup_pathText_of_apart apart) (by rw [List.map_map]; rfl)
    rw [← hkeys, ← hordered]
    exact reads_key_of_namedValues hopening hclosing
      (namedValues_of_pairPieces (by simpa using nonempty) hpairs)
      (arePredicates_namedLiteral apart fits) fun k hk => ⟨_, List.mem_map_of_mem hk, rfl⟩

end ODataRequest
