import ODataRequest.Proofs.Directory.ActualNames
import ODataRequest.Proofs.Path.KeyText

/-!
# ODataRequest.Proofs.Path.DeclaredKeys

Keys as they are declared. If the key references of each declared entity type can be told apart by
their names and paths, and their aliases are simple names, the same holds of the keys of all entity
types that a directory finds, inherited or not (`plainKeys_of_entityType`).
-/

namespace ODataRequest

open InDirectory

variable {s : Source}

/-- The name of a key reference: its alias or, without one, the path of the property. -/
def Csdl.KeyReference.name (key : Csdl.KeyReference) : String :=
  key.aliasName.getD key.path

/-- The declared keys of each entity type can be told apart: no name or path of a key is the one of
another key of the type. Aliases are identifiers and no literals. -/
structure Source.PlainKeys (s : Source) : Prop where
  apart : ∀ schema ∈ s.schemas, ∀ type ∈ schema.entityTypes, type.key.Pairwise fun k l =>
    k.name ≠ l.name ∧ k.name ≠ l.path ∧ k.path ≠ l.name ∧ k.path ≠ l.path
  aliases : ∀ schema ∈ s.schemas, ∀ type ∈ schema.entityTypes, ∀ key ∈ type.key,
    ∀ name ∈ key.aliasName, isSimpleName name = true

/-! ### Resolved keys -/

theorem map_text_of_mapM_parse {pieces : List (List Char)} {ids : List Identifier}
    (h : pieces.mapM (fun piece => Identifier.parse (String.ofList piece)) = .ok ids) :
    ids.map (fun id => id.text.toList) = pieces := by
  induction pieces generalizing ids with
  | nil =>
    cases h
    rfl
  | cons piece pieces ih =>
    rw [List.mapM_cons] at h
    obtain ⟨id, hid, h⟩ := except_bind_eq_ok.mp h
    obtain ⟨others, hothers, h⟩ := except_bind_eq_ok.mp h
    cases h
    have htext : id.text = String.ofList piece := by
      unfold Identifier.parse at hid
      split at hid
      · rename_i found hfound
        cases hid
        exact Identifier.text_of_ofString? hfound
      · cases hid
    rw [List.map_cons, ih hothers, htext, String.toList_ofList]

/-- The identifiers of a path are joined to the path again. -/
theorem text_of_pathIdentifiers {path : String} {ids : List Identifier}
    (h : pathIdentifiers path = .ok ids) : "/".intercalate (ids.map Identifier.text) = path := by
  refine String.toList_injective ?_
  have hpieces := map_text_of_mapM_parse h
  rw [Text.toList_intercalate rfl, List.map_map]
  show Text.joined '/' (ids.map fun id => id.text.toList) = path.toList
  rw [hpieces, Text.joined_pieces]

/-- A resolved key property has the name and the path of its reference. -/
theorem resolveKey_ensures (t : StructuredType) (key : Csdl.KeyReference) :
    Ensures (resolveKey t key) fun k => (k.name, k.pathText) = (key.name, key.path) := by
  unfold resolveKey
  split
  · exact .throw _
  · exact .throw _
  · rename_i first rest hids
    split
    · exact .throw _
    · refine .after fun property => .pure ?_
      rw [KeyProperty.pathText, text_of_pathIdentifiers hids]
      rfl

/-- What holds of each result of a traversal can be said of all results together. -/
theorem InDirectory.Ensures.mapM_map {α β γ : Type} {f : α → InDirectory β} {g : β → γ}
    {expected : α → γ}
    (hf : ∀ a, Ensures (f a) fun b => g b = expected a) (as : List α) :
    Ensures (as.mapM f) fun bs => bs.map g = as.map expected := by
  induction as with
  | nil => exact .pure rfl
  | cons a as ih =>
    rw [List.mapM_cons]
    refine (hf a).bind fun b hb => ih.bind fun bs hbs => .pure ?_
    rw [List.map_cons, hb, hbs, List.map_cons]

/-- An entity type has the keys that it declares, or else those of its base type. -/
theorem keys_of_completeEntityType (name : QualifiedName) (declared : Csdl.EntityType)
    (base : Option EntityType) : Ensures (completeEntityType name declared base) fun t =>
      t.keys = (base.map (·.keys)).getD [] ∨
        t.keys.map (fun k => (k.name, k.pathText)) =
          declared.key.map fun key => (key.name, key.path) := by
  refine .after fun own => ?_
  by_cases hkey : declared.key.isEmpty = true
  · simp only [hkey, if_true]
    exact .bind (.pure rfl) fun keys hkeys => .pure (Or.inl hkeys.symm)
  · simp only [hkey]
    exact .bind (Ensures.mapM_map (resolveKey_ensures _) _) fun keys hkeys => .pure (Or.inr hkeys)

theorem plainKeys_of_map {keys : List KeyProperty} {declared : List Csdl.KeyReference}
    (h : keys.map (fun k => (k.name, k.pathText)) = declared.map fun key => (key.name, key.path))
    (apart : declared.Pairwise fun k l =>
      k.name ≠ l.name ∧ k.name ≠ l.path ∧ k.path ≠ l.name ∧ k.path ≠ l.path)
    (aliases : ∀ key ∈ declared, ∀ name ∈ key.aliasName, isSimpleName name = true) :
    PlainKeys keys where
  apart := by
    have hpairs : (keys.map fun k => (k.name, k.pathText)).Pairwise fun a b =>
        a.1 ≠ b.1 ∧ a.1 ≠ b.2 ∧ a.2 ≠ b.1 ∧ a.2 ≠ b.2 := by
      rw [h, List.pairwise_map]
      exact apart
    rwa [List.pairwise_map] at hpairs
  names := by
    intro k hk
    have hmem : (k.name, k.pathText) ∈ declared.map fun key => (key.name, key.path) := by
      rw [← h]
      exact List.mem_map.mpr ⟨k, hk, rfl⟩
    obtain ⟨key, hkey, heq⟩ := List.mem_map.mp hmem
    obtain ⟨hname, hpath⟩ := Prod.mk.inj heq
    rw [← hname, ← hpath]
    unfold Csdl.KeyReference.name
    cases halias : key.aliasName with
    | none => exact Or.inl rfl
    | some name => exact Or.inr (aliases key hkey name halias)

/-! ### Chains of base types -/

/-- Keys are declared by one of the types of a chain, or there are none. -/
theorem plainKeys_of_chain (plain : s.PlainKeys) {n : Nat} {name : QualifiedName} {t : EntityType}
    (h : entityTypeFamily.Chain s n name t) : PlainKeys t.keys := by
  have hdeclared : ∀ {name : QualifiedName} {declared : Csdl.EntityType},
      (entityTypeFamily.declared name).result s = .ok (some declared) →
      ∀ {keys : List KeyProperty}, keys.map (fun k => (k.name, k.pathText)) =
        declared.key.map (fun key => (key.name, key.path)) → PlainKeys keys := by
    intro name declared found keys hkeys
    have hfind : s.find? (·.entityTypes) (·.name) name = some declared := by
      rw [show entityTypeFamily.declared name = askSource (.entityType name) from rfl,
        (askSource_settles _).result_eq] at found
      exact Except.ok.inj found
    obtain ⟨schema, hschema, htype, -⟩ := Source.mem_of_find? hfind
    exact plainKeys_of_map hkeys (plain.apart schema hschema declared htype)
      (plain.aliases schema hschema declared htype)
  induction h with
  | root found _ completed =>
    rcases keys_of_completeEntityType _ _ _ _ _ completed with hkeys | hkeys
    · rw [hkeys]
      exact ⟨List.Pairwise.nil, by simp⟩
    · exact hdeclared found hkeys
  | derived found _ _ completed ih =>
    rcases keys_of_completeEntityType _ _ _ _ _ completed with hkeys | hkeys
    · rw [hkeys]
      exact ih
    · exact hdeclared found hkeys

theorem plainKeys_of_entityType (plain : s.PlainKeys) {name : QualifiedName}
    {t : EntityType} (h : (entityType name).result s = .ok (some t)) : PlainKeys t.keys := by
  have hresolve := (TypeFamily.resolve_settled (entityTypeFamily_lawful s) name).2 t
  obtain ⟨n, chain⟩ := hresolve.mp h
  exact plainKeys_of_chain plain chain

/-- The entity types that are found have plain keys. -/
structure Answers.TellPlainKeys (answers : Answers) : Prop where
  entityType : ∀ {name type}, answers (.entityType name) (some type) → PlainKeys type.keys
  type : ∀ {name type}, answers (.type name) (some (.entity type)) → PlainKeys type.keys

theorem answers_tellPlainKeys (plain : s.PlainKeys) : s.answers.TellPlainKeys where
  entityType h := plainKeys_of_entityType plain h
  type := by
    intro name type h
    have hfound : resolvedType s (s.actualName name) = .ok (some (.entity type)) := by
      rw [← (resolveType_settles name).result_eq]
      exact h
    exact plainKeys_of_entityType plain (eq_of_resolvedType hfound)

end ODataRequest
