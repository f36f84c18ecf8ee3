import ODataRequest.Link
import ODataRequest.Proofs.CallHistory
import ODataRequest.Proofs.Directory.Answers
import ODataRequest.Proofs.Except
import ODataRequest.Proofs.Path.Key
import ODataRequest.Proofs.Path.Resolved
import ODataRequest.Proofs.Path.SegmentText
import ODataRequest.Proofs.Text.Cut
import ODataRequest.Proofs.Text.Percent

/-!
# ODataRequest.Proofs.Link

Canonical URLs lead back to the entity they are built for. The URL of an entity is the percent
encoding of the pieces of a path segment: the name of the entity set and the key in parentheses
(`canonicalUrl_of_linkable`). Reading the segment gives the entity set with one literal predicate
for each key property (`readEntityId_of_linkable`), whatever the directory has been asked before and
with any service root in front of the URL.
-/

namespace ODataRequest

open TokenReader

/-! ### Entities that can be linked to -/

/-- The value of a key property. -/
def EntityKey.value (key : EntityKey) (k : KeyProperty) : PrimitiveValue :=
  (key.lookup k.name).getD .null

/-- An entity of a source that can be linked to: the default container has the entity set under its
name, the entity type can be resolved and has a key, and the values of the key are of exactly the
types of the key properties. Names that stand in the URL are no literals, and no name or path of a
key property is also that of another one. -/
structure Linkable (s : Source) (set : EntitySet) (type : EntityType) (key : EntityKey) : Prop where
  found : ∃ c, ((container none).runOn (.ofSource s)).1 = .ok (some c) ∧
    c.entitySet? set.name.text = some set
  typed : ((entityType set.entityType).runOn (.ofSource s)).1 = .ok (some type)
  keyed : type.keys ≠ []
  fits : ∀ k ∈ type.keys, ∃ kind, ((keyKind k).runOn (.ofSource s)).1 = .ok kind ∧
    (key.value k).kind? = some kind ∧ kind.isExact = true
  setName : isSimpleName set.name.text = true
  keyNames : 1 < type.keys.length → ∀ k ∈ type.keys, isSimpleName k.name = true
  apart : type.keys.Pairwise KeyProperty.Apart

variable {s : Source} {set : EntitySet} {type : EntityType} {key : EntityKey} {k : KeyProperty}

/-! ### Writing -/

/-- The pieces of the only segment of a canonical URL. -/
def canonicalPieces (set : EntitySet) (type : EntityType) (key : EntityKey) : List Piece :=
  ⟨Word.identifier set.name.text, false⟩ :: ⟨Word.openParen, false⟩ ::
    (keyPieces key.value type.keys ++ [⟨Word.closeParen, false⟩])

/-- The percent encoding of pieces. -/
def encoded (ps : List Piece) : String :=
  Text.percentEncode (String.ofList (spelled ps))

@[simp] theorem encoded_nil : encoded [] = "" := rfl

@[simp] theorem encoded_cons (w : Word) (ps : List Piece) :
    encoded (⟨w, false⟩ :: ps) = Text.percentEncode w.text ++ encoded ps := by
  unfold encoded
  rw [spelled_cons, String.ofList_append, Text.percentEncode_append]
  simp [Piece.chars]

@[simp] theorem encoded_append (ps qs : List Piece) :
    encoded (ps ++ qs) = encoded ps ++ encoded qs := by
  unfold encoded
  rw [spelled_append, String.ofList_append, Text.percentEncode_append]

/-- The part of a canonical URL that gives a value to a key property. -/
def linkPart (value : KeyProperty → PrimitiveValue) (named : Bool) (k : KeyProperty) : String :=
  let text := Text.percentEncode (value k).literal
  if named then Text.percentEncode k.name ++ "=" ++ text else text

theorem encoded_namedKeyPieces (value : KeyProperty → PrimitiveValue) (keys : List KeyProperty) :
    encoded (namedKeyPieces value keys) = commaJoined (keys.map (linkPart value true)) := by
  have hequals : Text.percentEncode Word.equals.text = "=" := by decide
  have hcomma : Text.percentEncode Word.comma.text = "," := by decide
  induction keys with
  | nil => rfl
  | cons k ks ih =>
    cases ks with
    | nil =>
      simp [namedKeyPieces, linkPart, commaJoined, Word.identifier, hequals, String.append_assoc]
    | cons l ls =>
      rw [List.map_cons, List.map_cons, commaJoined_cons_cons, ← List.map_cons, ← ih]
      simp [namedKeyPieces, linkPart, Word.identifier, hequals, hcomma, String.append_assoc]

theorem encoded_keyPieces (value : KeyProperty → PrimitiveValue) (keys : List KeyProperty) :
    encoded (keyPieces value keys) =
      commaJoined (keys.map (linkPart value (decide (keys.length > 1)))) := by
  match keys with
  | [] => rfl
  | [k] => simp [keyPieces, linkPart, commaJoined]
  | k :: l :: ks => exact encoded_namedKeyPieces value (k :: l :: ks)

/-- A part of the key is written. -/
theorem keyPart_eq (h : (key.value k).kind?.isSome = true) (named : Bool) :
    keyPart key named k = .ok (linkPart key.value named k) := by
  unfold keyPart
  unfold EntityKey.value at h
  cases hlookup : key.lookup k.name with
  | none =>
    rw [hlookup] at h
    cases h
  | some value => simp [linkPart, EntityKey.value, hlookup]

theorem mapM_keyPart {keys : List KeyProperty}
    (h : ∀ k ∈ keys, (key.value k).kind?.isSome = true) (named : Bool) :
    keys.mapM (keyPart key named) = .ok (keys.map (linkPart key.value named)) := by
  induction keys with
  | nil => rfl
  | cons k ks ih =>
    rw [List.mapM_cons, keyPart_eq (h k List.mem_cons_self),
      ih fun x hx => h x (List.mem_cons_of_mem k hx)]
    rfl

/-- The canonical URL is the encoding of its pieces. -/
theorem keyPredicateText_of_linkable (h : Linkable s set type key) :
    keyPredicateText type key = .ok (encoded (keyPieces key.value type.keys)) := by
  have hvalues : ∀ k ∈ type.keys, (key.value k).kind?.isSome = true := by
    intro k hk
    obtain ⟨kind, -, hkind, -⟩ := h.fits k hk
    rw [hkind]
    rfl
  unfold keyPredicateText
  rw [mapM_keyPart hvalues, encoded_keyPieces]
  rfl

/-- A computation on a directory with a wider error, and what follows it. -/
theorem run_adapt_bind {ε α β : Type} (context : DirectoryError → ε) (x : InDirectory α)
    (f : α → ExceptT ε (StateM Directory) β) (d : Directory) :
    (ExceptT.adapt context x >>= f).run.run d =
      match x.runOn d with
      | (.ok a, d) => (f a).run.run d
      | (.error e, d) => (.error (context e), d) := by
  unfold InDirectory.runOn
  simp only [ExceptT.run_bind, StateT.run_bind, ExceptT.run_adapt, StateT.run_map]
  rcases StateT.run (ExceptT.run x) d with ⟨r, d'⟩
  cases r <;> rfl

theorem canonicalUrl_of_linkable (h : Linkable s set type key) {d : Directory}
    (hd : d.Consistent s) :
    ((canonicalUrl set key).run.run d).1 = .ok (encoded (canonicalPieces set type key)) := by
  have htype : ((entityType set.entityType).runOn d).1 = .ok (some type) :=
    (entityType_settled set.entityType d hd).1.trans h.typed
  have hurl : encoded (canonicalPieces set type key) =
      Text.percentEncode set.name.text ++ "(" ++ encoded (keyPieces key.value type.keys) ++
        ")" := by
    have hopen : Text.percentEncode Word.openParen.text = "(" := by decide
    have hclose : Text.percentEncode Word.closeParen.text = ")" := by decide
    simp [canonicalPieces, Word.identifier, hopen, hclose, String.append_assoc]
  unfold canonicalUrl
  rw [run_adapt_bind]
  rcases hrun : (entityType set.entityType).runOn d with ⟨r, d'⟩
  rw [hrun] at htype
  have hr : r = .ok (some type) := htype
  subst hr
  simp only [keyPredicateText_of_linkable h, hurl]
  rfl

/-! ### Reading -/

theorem dropWhile_slash_encoded (ps : List Piece) :
    (encoded ps).toList.dropWhile (· == '/') = (encoded ps).toList := by
  have hnot : '/' ∉ (encoded ps).toList := Text.slash_not_mem_percentEncode _
  cases hchars : (encoded ps).toList with
  | nil => rfl
  | cons c cs =>
    rw [hchars, List.mem_cons, not_or] at hnot
    rw [List.dropWhile_cons_of_neg (by simpa using fun heq => hnot.1 heq.symm)]

/-- The path of an entity id is the URL, with and without a service root in front of it. -/
theorem entityIdPath_encoded (ps : List Piece) (root : String) :
    entityIdPath none (encoded ps) = encoded ps ∧
      entityIdPath (some root) (root ++ encoded ps) = encoded ps := by
  constructor
  · simp [entityIdPath, dropWhile_slash_encoded]
  · simp [entityIdPath, Text.behind?_append, dropWhile_slash_encoded]

/-- The encoding of pieces is one segment of a path. -/
theorem pathSegments_encoded (ps : List Piece) :
    pathSegments (encoded ps) = .ok [String.ofList (spelled ps)] := by
  have hnot : '/' ∉ (encoded ps).toList := Text.slash_not_mem_percentEncode _
  have hdecoded : decoded (encoded ps) = .ok (String.ofList (spelled ps)) := by
    unfold decoded encoded
    rw [Text.percentDecode?_percentEncode]
  unfold pathSegments Text.splitTopLevel
  rw [dropWhile_slash_encoded, Text.splitFrom_unbroken (Text.unbroken_of_not_mem hnot)]
  simp [hdecoded]

/-- The segment of a canonical URL starts with the name of the entity set. -/
theorem exists_spelled_canonicalPieces (h : Linkable s set type key) :
    ∃ c cs, spelled (canonicalPieces set type key) = c :: cs ∧ isIdentifierStart c = true := by
  have hname := h.setName
  simp only [isSimpleName, Bool.and_eq_true] at hname
  unfold canonicalPieces Word.identifier
  rw [spelled_cons]
  cases hchars : set.name.text.toList with
  | nil => simp [hchars, isIdentifier] at hname
  | cons c cs =>
    simp only [hchars, isIdentifier, Bool.and_eq_true] at hname
    rw [Piece.chars, hchars]
    exact ⟨c, _, rfl, hname.1.1⟩

/-- The resource that a canonical URL leads to: the entity set without a cast, and a literal for
each key property. -/
def linkTarget (set : EntitySet) (type : EntityType) (key : EntityKey) : Resource :=
  .entitySet set type (type.keys.map fun k => k.predicate (key.value k)) Casts.none

theorem Linkable.fits_answers (names : s.WellNamed) (h : Linkable s set type key) :
    ∀ k ∈ type.keys, k.Fits s.answers (key.value k) := by
  intro k hk
  obtain ⟨kind, hkind, hvalue, hexact⟩ := h.fits k hk
  exact ⟨kind, Resolution.gives_answers_of_runOn names (.ofSource s) hkind, hvalue, hexact⟩

theorem lexed_canonicalPieces (names : s.WellNamed) (h : Linkable s set type key) :
    Lexed (canonicalPieces set type key) [] := by
  have hkey : Lexed (keyPieces key.value type.keys) (spelled [⟨Word.closeParen, false⟩] ++ []) :=
    lexed_keyPieces h.keyNames (h.fits_answers names) (Lexeme.bounded_cons (by decide))
  exact ⟨identifier_stands h.setName _ (Lexeme.bounded_cons (by decide)), Word.lexes_openParen _,
    lexed_append.mpr ⟨hkey, Word.lexes_closeParen _, trivial⟩⟩

/-- An entity set with the key behind it is read. -/
theorem reads_entitySetResource (names : s.WellNamed) (h : Linkable s set type key)
    {source : String} {opening closing : Token} {ts rest : List Token}
    (hopening : opening.kind = .openParen)
    (hts : ts.map Token.piece = keyPieces key.value type.keys)
    (hclosing : closing.kind = .closeParen) :
    Reads s.answers (entitySetResource [] set) source (opening :: ts ++ closing :: rest)
      (linkTarget set type key) rest := by
  have htype : s.answers (.entityType set.entityType) (some type) := h.typed
  have hkey : Reads s.answers (ODataRequest.key [] type) source (opening :: ts ++ closing :: rest)
      (type.keys.map fun k => k.predicate (key.value k)) rest :=
    reads_key h.keyed h.apart (h.fits_answers names) hopening hts hclosing
  exact reads_entitySetResource_iff.mpr ⟨type, htype, .withKey rfl hkey⟩

/-- The segment of a canonical URL is read. -/
theorem gives_firstSegment (names : s.WellNamed) (h : Linkable s set type key) :
    (readAll (firstSegment []) (String.ofList (spelled (canonicalPieces set type key)))).Gives
      s.answers (linkTarget set type key) := by
  obtain ⟨c, hcontainer, hset⟩ := h.found
  obtain ⟨ts, last, htokens, hpieces, hlast, -⟩ := tokenize_spelled (lexed_canonicalPieces names h)
  obtain ⟨name, us, rfl, hname, htext, -, hus⟩ := exists_of_map_piece_cons hpieces
  obtain ⟨opening, vs, rfl, hopening, -, -, hvs⟩ := exists_of_map_piece_cons hus
  obtain ⟨ws, xs, rfl, hws, hxs⟩ := List.map_eq_append_iff.mp hvs
  obtain ⟨closing, ys, rfl, hclosing, -, -, hys⟩ := exists_of_map_piece_cons hxs
  rw [List.map_eq_nil_iff] at hys
  subst hys
  have hset' : c.entitySet? name.text = some set := by rw [htext]; exact hset
  have hqualified : isQualified name.text = false := by
    rw [htext]
    exact isQualified_of_isSimpleName h.setName
  refine gives_readAll.mpr ⟨_, [last], htokens, ?_, hlast⟩
  refine reads_firstSegment_iff.mpr ⟨name, _, rfl, hname, Or.inr ⟨hqualified, c, hcontainer, ?_⟩⟩
  unfold containerResource
  simp only [hset']
  have htail : opening :: (ws ++ [closing]) ++ [last] = opening :: ws ++ closing :: [last] := by
    simp
  change Reads s.answers _ _ (opening :: (ws ++ [closing]) ++ [last]) _ _
  rw [htail]
  exact reads_entitySetResource names h hopening hws hclosing

/-- The canonical URL is read as a request for its target. -/
theorem gives_read (names : s.WellNamed) (h : Linkable s set type key) :
    (Request.read .standard (encoded (canonicalPieces set type key)) none none).Gives s.answers
      ⟨.resource [linkTarget set type key], none, [], [], []⟩ := by
  obtain ⟨c, cs, hspelled, hstart⟩ := exists_spelled_canonicalPieces h
  have hpath : (resourcePath [] (String.ofList (spelled (canonicalPieces set type key))) []).Gives
      s.answers [linkTarget set type key] :=
    Resolution.gives_bind.mpr ⟨_, gives_firstSegment names h, .done _⟩
  have haddress : (addressOf [] [String.ofList (spelled (canonicalPieces set type key))]).Gives
      s.answers (.resource [linkTarget set type key]) := by
    rw [hspelled] at hpath ⊢
    rw [addressOf_identifier (String.toList_ofList) hstart]
    exact Resolution.gives_bind.mpr ⟨_, hpath, .done _⟩
  have hquery : QueryParts.ofQuery .standard ((none : Option String).getD "") = .ok .empty := rfl
  have hsorted : ascendingByName QueryParts.empty.aliases = [] := List.mergeSort_nil
  have hsegments := pathSegments_encoded (canonicalPieces set type key)
  unfold Request.read
  rw [hquery, hsegments]
  simp only [Resolution.gives_bind, Resolution.gives_ofGrammar]
  refine ⟨.empty, rfl, _, rfl, .resource [linkTarget set type key], ?_, [], .done [], (), ?_, ?_⟩
  · rw [hsorted]
    exact haddress
  · rfl
  · rw [hsorted]
    exact Resolution.gives_pure.mpr rfl

/-- A change of the directory, and what follows it. -/
theorem run_modifyGet_bind {ε α β : Type} (g : Directory → α × Directory)
    (f : α → ExceptT ε (StateM Directory) β) (d : Directory) :
    ((modifyGet g : ExceptT ε (StateM Directory) α) >>= f).run.run d =
      (f (g d).1).run.run (g d).2 := rfl

/-- An entity id with the canonical URL as its path leads to the target. -/
theorem readEntityId_of_linkable (names : s.WellNamed) (h : Linkable s set type key) {d : Directory}
    (hd : d.Consistent s) {root : Option String} {id : String}
    (hpath : entityIdPath root id = encoded (canonicalPieces set type key)) :
    ((readEntityId root id).run.run d).1 = .ok (linkTarget set type key) := by
  have hread := Resolution.runOn_of_gives_answers names (gives_read names h) hd
  unfold readEntityId
  rw [hpath, run_modifyGet_bind, hread]
  rfl

/-- A canonical URL leads back to the entity: it can be built, and reading it gives the entity set
without a cast and a literal for each key property, in the order of the declaration, whatever the
directory has been asked before and with any service root in front of the URL. -/
theorem canonicalUrl_roundTrip (names : s.WellNamed) (h : Linkable s set type key) :
    ∃ url, ∀ calls : List DirectoryCall,
      let d := DirectoryCall.after calls (.ofSource s)
      ((canonicalUrl set key).run.run d).1 = .ok url ∧
        ((readEntityId none url).run.run d).1 = .ok (linkTarget set type key) ∧
        ∀ root, ((readEntityId (some root) (root ++ url)).run.run d).1 =
          .ok (linkTarget set type key) := by
  refine ⟨encoded (canonicalPieces set type key), fun calls => ?_⟩
  have hd := DirectoryCall.after_consistent names calls (.ofSource s)
  have hpaths := entityIdPath_encoded (canonicalPieces set type key)
  exact ⟨canonicalUrl_of_linkable h hd, readEntityId_of_linkable names h hd (hpaths "").1,
    fun root => readEntityId_of_linkable names h hd (hpaths root).2⟩

section Shop

private def shopSpace : Namespace := ⟨⟨"Shop", by decide⟩, []⟩
private def lineName : Identifier := ⟨"Line", by decide⟩
private def linesName : Identifier := ⟨"Lines", by decide⟩
private def orderName : Identifier := ⟨"Order", by decide⟩
private def positionName : Identifier := ⟨"Position", by decide⟩

private def orderProperty : Csdl.Property :=
  ⟨orderName, ⟨PrimitiveKind.string.qualifiedName, false⟩, false, none, none, none, none⟩

private def positionProperty : Csdl.Property :=
  ⟨positionName, ⟨(PrimitiveKind.integer .int32).qualifiedName, false⟩, false, none, none, none,
    none⟩

/-- A model with lines of orders. A line has the text of its order and its position as its key. -/
def shop : Source :=
  { basicOnly := false
    schemas :=
      [{ space := shopSpace
         aliasName := none
         entityTypes :=
           [{ name := lineName, baseType := none, isAbstract := false, isOpen := false,
              properties := [orderProperty, positionProperty], navigationProperties := [],
              hasStream := false, key := [⟨"Order", none⟩, ⟨"Position", some "At"⟩] }]
         complexTypes := []
         enumTypes := []
         typeDefinitions := []
         actions := []
         functions := []
         terms := []
         container := some
           { name := shopSpace.first
             entitySets := [⟨linesName, ⟨shopSpace, lineName⟩, [], true⟩]
             singletons := []
             actionImports := []
             functionImports := [] }
         annotations := [] }] }

/-- The entity set of all lines. -/
def shopLines : EntitySet :=
  { name := linesName
    entityType := ⟨shopSpace, lineName⟩
    bindings := []
    inServiceDocument := true
    container := ⟨shopSpace, shopSpace.first⟩ }

/-- The type of a line. -/
def shopLine : EntityType :=
  { own := ⟨⟨shopSpace, lineName⟩, false, false, false, [orderProperty, positionProperty], []⟩
    bases := []
    keys := [⟨"Order", [orderName], orderProperty⟩, ⟨"At", [positionName], positionProperty⟩] }

/-- A line whose order has all kinds of characters in its text. -/
def shopKey : EntityKey :=
  [("At", .integer .int32 ⟨-7, by decide, by decide⟩), ("Order", .string "5%2F (o'clock)/ü")]

theorem container_shop : ((container none).runOn (.ofSource shop)).1 =
    .ok (some ⟨⟨shopSpace, shopSpace.first⟩, [shopLines], [], [], []⟩) := by
  rfl

theorem fits_shop : ∀ k ∈ shopLine.keys, ∃ kind, ((keyKind k).runOn (.ofSource shop)).1 = .ok kind ∧
    (shopKey.value k).kind? = some kind ∧ kind.isExact = true := by
  intro k hk
  simp only [shopLine, List.mem_cons, List.not_mem_nil, or_false] at hk
  rcases hk with rfl | rfl
  · exact ⟨.string, rfl, rfl, rfl⟩
  · exact ⟨.integer .int32, rfl, rfl, rfl⟩

theorem apart_shop : shopLine.keys.Pairwise KeyProperty.Apart := by
  simp only [shopLine, List.pairwise_cons, List.mem_singleton, forall_eq]
  exact ⟨⟨by decide, by decide, by decide, by decide⟩, by simp⟩

theorem linkable_shop : Linkable shop shopLines shopLine shopKey where
  found := ⟨_, container_shop, rfl⟩
  typed := rfl
  keyed := List.cons_ne_nil _ _
  fits := fits_shop
  setName := by decide
  keyNames := by
    intro _
    decide
  apart := apart_shop

/-- A line of an order is found again by its URL. -/
theorem canonicalUrl_roundTrip_shop :
    shop.WellNamed ∧ Linkable shop shopLines shopLine shopKey ∧
      ∃ url, ∀ calls : List DirectoryCall,
        let d := DirectoryCall.after calls (.ofSource shop)
        ((canonicalUrl shopLines shopKey).run.run d).1 = .ok url ∧
          ((readEntityId none url).run.run d).1 = .ok (linkTarget shopLines shopLine shopKey) ∧
          ∀ root, ((readEntityId (some root) (root ++ url)).run.run d).1 =
            .ok (linkTarget shopLines shopLine shopKey) := by
  have names : shop.WellNamed := ⟨by decide, by decide⟩
  exact ⟨names, linkable_shop, canonicalUrl_roundTrip names linkable_shop⟩

example : ((canonicalUrl shopLines shopKey).run.run (.ofSource shop)).1 =
    .ok "Lines(Order='5%252F%20(o''clock)%2F%C3%BC',At=-7)" := by
  rfl

end Shop

end ODataRequest
