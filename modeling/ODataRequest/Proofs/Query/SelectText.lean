import ODataRequest.Proofs.Directory.ActualNames
import ODataRequest.Proofs.Query.Nested
import ODataRequest.Proofs.Request.ExpandTree

/-!
# ODataRequest.Proofs.Query.SelectText

Selections are read back. Every segment of a selected path is a single name, and each step of the path
has a name of its own: that of a property, the full name of an operation, or the full name of the type
of a cast (`Position.written`). Following the segments of a path one by one, the names of the steps
reached so far lead to the same position (`propertyPath_written`): a segment with an alias in it is
replaced by the full name, for which a directory answers the same.

A selection written with these names is read back (`selectItems_nameText`). The text of a step is made
for paths of every kind and puts parentheses behind a function, which no segment of a selection may
have; without functions it consists of the names (`SelectItem.text_eq_nameText`).
-/

namespace ODataRequest

open Text Lexeme InDirectory

/-! ### Written names -/

/-- The names that a step of a selected path is written with: its own and that of its cast. -/
def Resource.written (r : Resource) : List String :=
  r.segment :: (r.casts.onCollection.toList ++ r.casts.onEntry.toList).map ModelType.text

/-- The names that a position is reached by. -/
def Position.written (p : Position) : List String :=
  p.start.toList.map ModelType.text ++ p.path.flatMap Resource.written

/-- The text of a selected item, with nothing but names in its path. -/
def SelectItem.nameText : SelectItem → String
  | .path start steps => "/".intercalate (Position.written ⟨start, steps.reverse⟩)
  | i => i.text

namespace Position

theorem written_push (p : Position) (r : Resource) : (p.push r).written = p.written ++ r.written := by
  simp [written, path, push]

theorem written_cons (start : Option ModelType) (r : Resource) (earlier : List Resource) :
    (⟨start, r :: earlier⟩ : Position).written =
      (⟨start, earlier⟩ : Position).written ++ r.written := by
  simp [written, path]

end Position

/-- A step of a selected path: it has no key, and a collection is not cast as a single value. -/
structure Resource.IsSelected (r : Resource) : Prop where
  text : r.text = r.plainText
  keys : r.keys = []
  uncast : r.isCollection = true → r.casts.onEntry = none

namespace Resource

variable {r r' : Resource} {type : ModelType}

theorem written_of_casts (h : r.casts = Casts.none) : r.written = [r.segment] := by
  rw [written, h]
  rfl

/-- A cast adds its name to those of what it narrows. -/
theorem IsSelected.cast (h : r.IsSelected) (hcast : r.cast type = .ok r') :
    r'.IsSelected ∧ r'.written = r.written ++ [type.text] := by
  obtain ⟨rfl, htakes, hslot, -⟩ := cast_eq_ok hcast
  have hcasts := casts_withCasts_add htakes type
  refine ⟨⟨text_eq (takesCast_withCasts htakes _), ?_, fun hcollection => ?_⟩, ?_⟩
  · rw [keys_withCasts, h.keys]
  · rw [isCollection_withCasts] at hcollection
    rw [hcasts, hcollection]
    exact h.uncast hcollection
  · rw [written, hcasts, segment_withCasts, written]
    cases hcollection : r.isCollection with
    | true =>
      have hentry := h.uncast hcollection
      rw [hcollection] at hslot
      have hslot : r.casts.onCollection = none := hslot
      simp [Casts.add, hentry, hslot]
    | false =>
      rw [hcollection] at hslot
      have hslot : r.casts.onEntry = none := hslot
      simp [Casts.add, hslot]

/-- Without arguments, the text of a step consists of its names. -/
theorem IsSelected.text_eq_written (h : r.IsSelected) (hcall : r.callText = "") :
    r.text = "/".intercalate r.written := by
  rw [h.text, plainText_eq, hcall, h.keys, written]
  cases r.casts.onCollection <;> cases r.casts.onEntry <;>
    simp [castText, keyText, String.intercalate_cons_cons, String.append_assoc]

end Resource

/-! ### Segments -/

variable {s : Source} {target : ModelType}

/-- What a segment is read as is a name by itself. -/
theorem stands_of_gives_segmentName {answers : Answers} {segment name : String}
    (h : (TokenReader.readAll segmentName segment).Gives answers name) :
    (Word.identifier name).Stands := by
  obtain ⟨tokens, rest, htokens, hread, -⟩ := TokenReader.gives_readAll.mp h
  obtain ⟨t, hread, htext⟩ := TokenReader.reads_bind_pure.mp hread
  obtain ⟨rfl, hkind⟩ := (TokenReader.reads_expect (by decide)).mp hread
  have hstands : t.word.Stands :=
    stands_of_mem_tokenize htokens List.mem_cons_self (by simp [hkind])
  rw [htext]
  rwa [Token.word, hkind] at hstands

/-- How a cast is written makes no difference to what it does. -/
theorem castProperty_name {p p' : Position} {name : String} {type : ModelType}
    (h : castProperty p target name type = .ok p') (name' : String) :
    castProperty p target name' type = .ok p' := by
  unfold castProperty at h ⊢
  obtain ⟨start, steps⟩ := p
  cases steps with
  | cons => exact h
  | nil =>
    dsimp only at h ⊢
    split at h
    · cases h
    · next hstart =>
      obtain ⟨hderives, -, rfl⟩ := castStart_eq_ok h
      rw [if_neg hstart, Position.castStart, hderives]
      simp [hstart]

/-- A cast adds the name of its type. -/
theorem castProperty_written {p p' : Position} {name : String} {type : ModelType}
    (hp : ∀ r ∈ p.steps, r.IsSelected) (h : castProperty p target name type = .ok p') :
    (∀ r ∈ p'.steps, r.IsSelected) ∧ p'.written = p.written ++ [type.text] := by
  unfold castProperty at h
  obtain ⟨start, steps⟩ := p
  cases steps with
  | nil =>
    dsimp only at h
    split at h
    · cases h
    · obtain ⟨-, hstart, rfl⟩ := castStart_eq_ok h
      have hstart : start = none := hstart
      subst hstart
      exact ⟨by simp, rfl⟩
  | cons last earlier =>
    obtain ⟨narrowed, hnarrowed, hp'⟩ := except_bind_eq_ok.mp h
    cases hp'
    obtain ⟨hlast, hearlier⟩ := List.forall_mem_cons.mp hp
    obtain ⟨hselected, hwritten⟩ := hlast.cast hnarrowed
    refine ⟨List.forall_mem_cons.mpr ⟨hselected, hearlier⟩, ?_⟩
    rw [Position.written_cons, Position.written_cons, hwritten, List.append_assoc]

/-- A name and its actual name stand for the same actions. -/
theorem answers_boundAction_actualName (names : s.WellNamed) {name : QualifiedName}
    {binding : Binding} {found : Option Action}
    (h : s.answers (.boundAction name binding) found) :
    s.answers (.boundAction (s.actualName name) binding) found := by
  have h : (boundAction name binding).result s = .ok found := h
  show (boundAction (s.actualName name) binding).result s = .ok found
  rw [(boundAction_settles name binding).result_eq] at h
  rw [(boundAction_settles _ binding).result_eq, names.actualName_actualName, h]

/-- An operation is found by its full name too. -/
theorem boundProperty_written (names : s.WellNamed) {owner : ModelType} {text : String}
    {name : QualifiedName} {r : Resource}
    (h : (boundProperty owner text name).Gives s.answers r) :
    r.IsSelected ∧ r.written = [(s.actualName name).text] ∧
      (boundProperty owner (s.actualName name).text (s.actualName name)).Gives s.answers r := by
  have named := answers_namedBy names
  unfold boundProperty at h ⊢
  obtain ⟨action, haction, h⟩ := Resolution.gives_bind.mp h
  have haction := Resolution.gives_answerTo.mp haction
  cases action with
  | some a =>
    obtain ⟨hactual, hname⟩ := named.boundAction haction
    have hsegment : a.name.text = (s.actualName name).text := congrArg QualifiedName.text hname
    have hread : (boundProperty owner (s.actualName name).text (s.actualName name)).Gives
        s.answers r := Resolution.gives_bind.mpr ⟨some a, Resolution.gives_answerTo.mpr hactual, h⟩
    dsimp only at h
    split at h
    · cases Resolution.gives_pure.mp h
      exact ⟨⟨by simp only [Resource.text], rfl, fun _ => rfl⟩, by rw [← hsegment]; rfl, hread⟩
    · obtain ⟨_, -, h⟩ := Resolution.gives_bind.mp h
      cases Resolution.gives_pure.mp h
      exact ⟨⟨by simp only [Resource.text], rfl, fun _ => rfl⟩, by rw [← hsegment]; rfl, hread⟩
  | none =>
    have hactual := answers_boundAction_actualName names haction
    obtain ⟨function, hfunction, h⟩ := Resolution.gives_bind.mp h
    have hfunction := Resolution.gives_answerTo.mp hfunction
    cases function with
    | none => exact absurd h Resolution.not_gives_reject
    | some f =>
      obtain ⟨hfound, hname⟩ := named.boundFunction hfunction
      have hsegment : f.name.text = (s.actualName name).text := congrArg QualifiedName.text hname
      obtain ⟨found, htype, h⟩ := Resolution.gives_bind.mp h
      obtain ⟨returnType, hreturn, h⟩ := Resolution.gives_bind.mp h
      have hrequired : found = some returnType := Resolution.gives_require.mp hreturn
      cases Resolution.gives_pure.mp h
      refine ⟨⟨by simp only [Resource.text], rfl, fun _ => rfl⟩, by rw [← hsegment]; rfl, ?_⟩
      exact Resolution.gives_bind.mpr ⟨none, Resolution.gives_answerTo.mpr hactual,
        Resolution.gives_bind.mpr ⟨some f, Resolution.gives_answerTo.mpr hfound,
          Resolution.gives_bind.mpr ⟨found, htype,
            Resolution.gives_bind.mpr ⟨returnType, Resolution.gives_require.mpr hrequired,
              Resolution.gives_pure.mpr rfl⟩⟩⟩⟩

section Steps

variable {answers : Answers} {p p' : Position} {owner type : ModelType} {name : QualifiedName}
variable {r : Resource}

/-- A full name is a cast if it is the name of a type. -/
theorem gives_propertyStep_cast (howner : (p.owner target).Gives answers owner)
    (htype : answers (.type name) (some type))
    (hcast : castProperty p target name.text type = .ok p') :
    (propertyStep target p name.text).Gives answers p' := by
  unfold propertyStep
  refine Resolution.gives_bind.mpr
    ⟨name.text, gives_segmentName (isName_qualifiedName name).stands, ?_⟩
  refine Resolution.gives_bind.mpr ⟨owner, howner, ?_⟩
  dsimp only
  rw [if_pos (isQualified_text name)]
  refine Resolution.gives_bind.mpr
    ⟨name, Resolution.gives_requireName.mpr name.ofString?_text, ?_⟩
  exact Resolution.gives_bind.mpr
    ⟨some type, Resolution.gives_answerTo.mpr htype, Resolution.gives_ofSemantic.mpr hcast⟩

/-- A full name that is not the name of a type is an operation. -/
theorem gives_propertyStep_operation (howner : (p.owner target).Gives answers owner)
    (htype : answers (.type name) none) (hr : (boundProperty owner name.text name).Gives answers r) :
    (propertyStep target p name.text).Gives answers (p.push r) := by
  unfold propertyStep
  refine Resolution.gives_bind.mpr
    ⟨name.text, gives_segmentName (isName_qualifiedName name).stands, ?_⟩
  refine Resolution.gives_bind.mpr ⟨owner, howner, ?_⟩
  dsimp only
  rw [if_pos (isQualified_text name)]
  refine Resolution.gives_bind.mpr
    ⟨name, Resolution.gives_requireName.mpr name.ofString?_text, ?_⟩
  exact Resolution.gives_bind.mpr ⟨none, Resolution.gives_answerTo.mpr htype,
    Resolution.gives_bind.mpr ⟨r, hr, Resolution.gives_pure.mpr rfl⟩⟩

/-- A name without dots is a property. -/
theorem gives_propertyStep_property {id : Identifier} {structured : StructuredType}
    (hstands : (Word.identifier id.text).Stands) (howner : (p.owner target).Gives answers owner)
    (hstructured : owner.structured? = some structured)
    (hproperty : (propertyResource structured id.text).Gives answers (some r)) :
    (propertyStep target p id.text).Gives answers (p.push r) := by
  unfold propertyStep
  refine Resolution.gives_bind.mpr ⟨id.text, gives_segmentName hstands, ?_⟩
  refine Resolution.gives_bind.mpr ⟨owner, howner, ?_⟩
  dsimp only
  rw [if_neg (by rw [id.isQualified_text]; decide)]
  refine Resolution.gives_bind.mpr ⟨structured, Resolution.gives_require.mpr hstructured, ?_⟩
  exact Resolution.gives_bind.mpr ⟨some r, hproperty,
    Resolution.gives_bind.mpr ⟨r, Resolution.gives_require.mpr rfl, Resolution.gives_pure.mpr rfl⟩⟩

end Steps

/-- A property has no key and no cast, and its name is what it has been found by. -/
theorem isSelected_of_propertyResource {answers : Answers} {owner : StructuredType} {name : String}
    {r : Resource} (h : (propertyResource owner name).Gives answers (some r)) :
    r.IsSelected ∧ r.casts = Casts.none ∧ ∃ id : Identifier, id.text = name ∧ r.segment = name := by
  rcases gives_propertyResource h with ⟨p, type, rfl, hp⟩ | ⟨p, target, rfl, hp, -⟩
  · exact ⟨⟨by simp only [Resource.text], rfl, fun _ => rfl⟩, rfl, p.name, property?_name hp,
      property?_name hp⟩
  · exact ⟨⟨by simp only [Resource.text], rfl, fun _ => rfl⟩, rfl, p.name,
      navigationProperty?_name hp, navigationProperty?_name hp⟩

/-- A segment that is read adds one name, which is read as the same segment. -/
theorem propertyStep_written (names : s.WellNamed) {p p' : Position} {segment : String}
    (hp : ∀ r ∈ p.steps, r.IsSelected) (h : (propertyStep target p segment).Gives s.answers p') :
    (∀ r ∈ p'.steps, r.IsSelected) ∧ ∃ name, IsName name ∧ p'.written = p.written ++ [name] ∧
      (propertyStep target p name).Gives s.answers p' := by
  have hpush {r : Resource} (hr : r.IsSelected) : ∀ r' ∈ (p.push r).steps, r'.IsSelected :=
    List.forall_mem_cons.mpr ⟨hr, hp⟩
  unfold propertyStep at h
  obtain ⟨text, htext, h⟩ := Resolution.gives_bind.mp h
  obtain ⟨owner, howner, h⟩ := Resolution.gives_bind.mp h
  dsimp only at h
  split at h
  · obtain ⟨name, -, h⟩ := Resolution.gives_bind.mp h
    obtain ⟨found, hfound, h⟩ := Resolution.gives_bind.mp h
    obtain ⟨hactual, hnames⟩ := (answers_namedBy names).type (Resolution.gives_answerTo.mp hfound)
    have hname := isName_qualifiedName (s.actualName name)
    cases found with
    | some type =>
      have hcast := Resolution.gives_ofSemantic.mp h
      obtain ⟨hselected, hwritten⟩ := castProperty_written hp hcast
      have htype : type.text = (s.actualName name).text :=
        congrArg QualifiedName.text (hnames type rfl)
      rw [htype] at hwritten
      exact ⟨hselected, _, hname, hwritten,
        gives_propertyStep_cast howner hactual (castProperty_name hcast _)⟩
    | none =>
      obtain ⟨r, hr, h⟩ := Resolution.gives_bind.mp h
      cases Resolution.gives_pure.mp h
      obtain ⟨hselected, hwritten, hread⟩ := boundProperty_written names hr
      exact ⟨hpush hselected, _, hname, by rw [Position.written_push, hwritten],
        gives_propertyStep_operation howner hactual hread⟩
  · simp only [Resolution.gives_bind, Resolution.gives_require, Resolution.gives_pure] at h
    obtain ⟨structured, hstructured, _, hproperty, r, rfl, rfl⟩ := h
    obtain ⟨hselected, hcasts, id, rfl, hsegment⟩ := isSelected_of_propertyResource hproperty
    have hstands := stands_of_gives_segmentName htext
    exact ⟨hpush hselected, id.text, ⟨hstands, .identifier id⟩,
      by rw [Position.written_push, Resource.written_of_casts hcasts, hsegment],
      gives_propertyStep_property hstands howner hstructured hproperty⟩

/-! ### Paths -/

/-- A position is reached by its names, and all steps to it are selected ones. -/
structure Position.Written (s : Source) (target : ModelType) (p : Position) : Prop where
  steps : ∀ r ∈ p.steps, r.IsSelected
  names : ∀ name ∈ p.written, IsName name
  leads : (propertyPath target p.written).Gives s.answers p

/-- A position is reached by its names alone. -/
theorem propertyPath_written (names : s.WellNamed) {segments : List String} {p : Position}
    (h : (propertyPath target segments).Gives s.answers p) : p.Written s target := by
  refine h.foldlM_rule (Position.Written s target) ?_ ⟨by simp [Position.origin], by
    simp [Position.written, Position.origin, Position.path], Resolution.gives_pure.mpr rfl⟩
  intro q segment q' hq hstep
  obtain ⟨hsteps, name, hname, hwritten, hread⟩ := propertyStep_written names hq.steps hstep
  refine ⟨hsteps, ?_, ?_⟩
  · rw [hwritten]
    exact List.forall_mem_append.mpr ⟨hq.names, List.forall_mem_singleton.mpr hname⟩
  · rw [hwritten, propertyPath, List.foldlM_append, Resolution.gives_bind]
    refine ⟨q, hq.leads, ?_⟩
    rw [List.foldlM_cons]
    exact Resolution.gives_bind.mpr ⟨q', hread, Resolution.gives_pure.mpr rfl⟩

/-! ### Items -/

/-- A character of a selected item that consists of names. -/
def isItemPart (c : Char) : Bool :=
  isWordPart c || c == '/' || c == '*'

theorem isQuiet_isItemPart : IsQuiet isItemPart := by
  unfold IsQuiet
  decide

theorem isBlank_of_isItemPart {c : Char} (h : isItemPart c = true) : isBlank c = false := by
  simp only [isItemPart, Bool.or_eq_true, beq_iff_eq] at h
  rcases h with (h | rfl) | rfl
  · exact isBlank_of_isWordPart h
  · decide
  · decide

theorem isItemPart_of_isWordPart {c : Char} (h : isWordPart c = true) : isItemPart c = true := by
  simp [isItemPart, h]

/-- The text of a namespace is the text that it has been read from. -/
theorem Namespace.text_of_parse {text : String} {space : Namespace}
    (h : Namespace.parse text = .ok space) : space.text = text := by
  unfold Namespace.parse at h
  obtain ⟨ids, hids, h⟩ := except_bind_eq_ok.mp h
  rw [← String.toList_inj, Namespace.text, toList_intercalate rfl, List.map_map,
    ← joined_pieces '.' text.toList, ← map_text_of_mapM_parse hids]
  cases ids with
  | nil => cases h
  | cons id ids =>
    cases h
    rfl

/-- The characters of joined parts. -/
theorem mem_of_mem_joined {sep c : Char} {parts : List (List Char)} (h : c ∈ joined sep parts) :
    c = sep ∨ ∃ part ∈ parts, c ∈ part := by
  induction parts with
  | nil => cases h
  | cons part parts ih =>
    cases parts with
    | nil => exact .inr ⟨part, List.mem_cons_self, h⟩
    | cons next parts =>
      rw [joined_cons_cons, List.mem_append, List.mem_cons] at h
      rcases h with h | rfl | h
      · exact .inr ⟨part, List.mem_cons_self, h⟩
      · exact .inl rfl
      · exact (ih h).imp_right fun ⟨part', hpart', hc⟩ =>
          ⟨part', List.mem_cons_of_mem part hpart', hc⟩

section Names

variable {path : List String} (h : ∀ name ∈ path, IsName name)
include h

theorem isWordPart_of_names :
    ∀ c ∈ ("/".intercalate path).toList, isWordPart c = true ∨ c = '/' := by
  intro c hc
  rw [toList_intercalate rfl] at hc
  rcases mem_of_mem_joined hc with hsep | ⟨part, hpart, hc⟩
  · exact .inr hsep
  · obtain ⟨name, hname, rfl⟩ := List.mem_map.mp hpart
    exact .inl ((h name hname).dotted.isWordPart c hc)

/-- The segments of names with slashes between them. -/
theorem parts_names (hne : path ≠ []) : parts '/' ("/".intercalate path) = path := by
  have hslash : ∀ part ∈ path.map String.toList, '/' ∉ part := by
    intro part hpart
    obtain ⟨name, hname, rfl⟩ := List.mem_map.mp hpart
    exact (h name hname).slash_not_mem
  have hchars : ("/".intercalate path).toList = joined '/' (path.map String.toList) :=
    toList_intercalate rfl path
  rw [parts, hchars, pieces_joined hslash (by simpa using hne), List.map_map]
  exact List.map_id'' (fun text => String.ofList_toList) path

end Names

/-- A path of names is read as an item. -/
theorem gives_selectItem_names {answers : Answers} {owner : ModelType} {path : List String}
    {p : Position} (hnames : ∀ name ∈ path, IsName name) (hne : path ≠ [])
    (h : (propertyPath owner path).Gives answers p) :
    (selectItem (some owner) ("/".intercalate path)).Gives answers (.path p.start p.path) := by
  have hstar : '*' ∉ ("/".intercalate path).toList := by
    intro hmem
    rcases isWordPart_of_names hnames _ hmem with hword | hslash
    · exact absurd hword (by decide)
    · exact absurd hslash (by decide)
  have hnotStar : "/".intercalate path ≠ "*" := fun heq => hstar (heq ▸ by decide)
  have hnotSpace : before? ".*".toList ("/".intercalate path).toList = none := by
    rw [Option.eq_none_iff_forall_ne_some]
    intro front hfront
    exact hstar (eq_append_of_before? hfront ▸ by simp)
  unfold selectItem
  rw [if_neg hnotStar, hnotSpace]
  dsimp only
  rw [parts_names hnames hne]
  exact Resolution.gives_bind.mpr ⟨owner, Resolution.gives_require.mpr rfl,
    Resolution.gives_bind.mpr ⟨p, h, Resolution.gives_pure.mpr rfl⟩⟩

/-- A selected item is read from its names as it has been. -/
theorem selectItem_nameText (names : s.WellNamed) {type : Option ModelType} {item : String}
    {i : SelectItem} (h : (selectItem type item).Gives s.answers i) :
    (selectItem type i.nameText).Gives s.answers i ∧
      (∀ c ∈ i.nameText.toList, isItemPart c = true) := by
  obtain ⟨rfl, rfl⟩ | ⟨front, space, htext, hspace, rfl⟩ | ⟨owner, p, rfl, hpath, rfl⟩ :=
    selectItem_cases h
  · exact ⟨h, List.all_eq_true.mp (by decide)⟩
  · have hchars : (SelectItem.operations space).nameText.toList = front ++ ".*".toList := by
      show (space.text ++ ".*").toList = _
      rw [Namespace.text_of_parse hspace, String.toList_append, String.toList_ofList]
    have htext : item = (SelectItem.operations space).nameText := by
      rw [← String.toList_inj, hchars, htext]
    refine ⟨htext ▸ h, ?_⟩
    have hfront := (isDotted_of_parse hspace).isWordPart
    rw [String.toList_ofList] at hfront
    rw [hchars]
    exact List.forall_mem_append.mpr
      ⟨fun c hc => isItemPart_of_isWordPart (hfront c hc), List.all_eq_true.mp (by decide)⟩
  · have hwritten := propertyPath_written names hpath
    have hp : (⟨p.start, p.path.reverse⟩ : Position) = p := by simp [Position.path]
    have hne : p.written ≠ [] := by
      intro hnil
      obtain ⟨hstart, hsteps⟩ := List.append_eq_nil_iff.mp hnil
      refine goesOn_of_gives_propertyPath (by simp [parts, pieces_ne_nil]) hpath ?_ ?_
      · rw [List.flatMap_eq_nil_iff] at hsteps
        exact List.eq_nil_iff_forall_not_mem.mpr fun r hr => List.cons_ne_nil _ _ (hsteps r hr)
      · simpa using hstart
    show (selectItem (some owner) ("/".intercalate (Position.written ⟨p.start, _⟩))).Gives _ _ ∧
      ∀ c ∈ ("/".intercalate (Position.written ⟨p.start, _⟩)).toList, _
    rw [hp]
    refine ⟨gives_selectItem_names hwritten.names hne hwritten.leads, fun c hc => ?_⟩
    rcases isWordPart_of_names hwritten.names c hc with hword | rfl
    · exact isItemPart_of_isWordPart hword
    · decide

/-! ### Selections -/

/-- Is the resource a function? -/
def Resource.isFunction : Resource → Bool
  | .function _ _ _ _ _ _ => true
  | _ => false

/-- Does the item go through a function? -/
def SelectItem.callsFunction : SelectItem → Bool
  | .path _ steps => steps.any Resource.isFunction
  | _ => false

/-- Groups of texts may be joined one by one. -/
theorem intercalate_groups {sep : String} {groups : List (List String)}
    (h : ∀ g ∈ groups, g ≠ []) :
    sep.intercalate (groups.map sep.intercalate) = sep.intercalate groups.flatten := by
  induction groups with
  | nil => rfl
  | cons g groups ih =>
    obtain ⟨hg, hgroups⟩ := List.forall_mem_cons.mp h
    cases groups with
    | nil => simp
    | cons g' groups =>
      have hne : (g' :: groups).flatten ≠ [] := by
        have hg' := hgroups g' List.mem_cons_self
        simp [hg']
      rw [List.flatten_cons, String.intercalate_append_of_ne_nil hg hne, ← ih hgroups, List.map_cons,
        List.map_cons, String.intercalate_cons_cons]

theorem Resource.texts_eq_map (rs : List Resource) : Resource.texts rs = rs.map Resource.text := by
  induction rs with
  | nil => rfl
  | cons r rs ih => rw [Resource.texts, ih, List.map_cons]

/-- The text of a path without functions consists of its names. -/
theorem pathText_eq_written {start : Option ModelType} {steps : List Resource}
    (hsteps : ∀ r ∈ steps, r.IsSelected) (hcalls : ∀ r ∈ steps, r.isFunction = false) :
    pathText start (Resource.texts steps) = (SelectItem.path start steps).nameText := by
  have htexts : Resource.texts steps = steps.map fun r => "/".intercalate r.written := by
    rw [Resource.texts_eq_map]
    refine List.map_congr_left fun r hr => ?_
    have hcall : r.callText = "" := by
      have hfunction := hcalls r hr
      cases r <;> first | rfl | cases hfunction
    exact (hsteps r hr).text_eq_written hcall
  have hgroups : ∀ g ∈ start.toList.map (fun type => [type.text]) ++ steps.map Resource.written,
      g ≠ [] := by
    intro g hg
    rcases List.mem_append.mp hg with hg | hg
    · obtain ⟨type, -, rfl⟩ := List.mem_map.mp hg
      exact List.cons_ne_nil _ _
    · obtain ⟨r, -, rfl⟩ := List.mem_map.mp hg
      exact List.cons_ne_nil _ _
  have hjoined : "/".intercalate _ = "/".intercalate _ := intercalate_groups hgroups
  have hwritten : (⟨start, steps.reverse⟩ : Position).written =
      (start.toList.map (fun type => [type.text]) ++ steps.map Resource.written).flatten := by
    cases start <;> simp [Position.written, Position.path, List.flatMap_def]
  rw [SelectItem.nameText, hwritten, ← hjoined, pathText, htexts]
  cases start <;> simp [Function.comp_def]

/-- Without functions, the text of a selected item consists of the names. -/
theorem SelectItem.text_eq_nameText (names : s.WellNamed) {type : Option ModelType} {item : String}
    {i : SelectItem} (h : (selectItem type item).Gives s.answers i)
    (hcalls : i.callsFunction = false) : i.text = i.nameText := by
  obtain ⟨-, rfl⟩ | ⟨_, _, -, -, rfl⟩ | ⟨owner, p, -, hpath, rfl⟩ := selectItem_cases h
  · rfl
  · rfl
  · have hselected := (propertyPath_written names hpath).steps
    exact pathText_eq_written (fun r hr => hselected r (List.mem_reverse.mp hr))
      (by simpa [callsFunction] using hcalls)

/-- The selected items are read back from their names. -/
theorem selectItems_nameText (names : s.WellNamed) {type : Option ModelType} {text : String}
    {items : List SelectItem} (h : (selectItems type text).Gives s.answers items) :
    (selectItems type (commaJoined (items.map SelectItem.nameText))).Gives s.answers items := by
  have hitems := Resolution.gives_mapM.mp h
  have hread : ∀ i ∈ items, (selectItem type i.nameText).Gives s.answers i ∧
      ∀ c ∈ i.nameText.toList, isItemPart c = true := by
    intro i hi
    obtain ⟨part, -, hpart⟩ := exists_left_of_forall₂ hitems hi
    exact selectItem_nameText names hpart
  have hne : items ≠ [] := by
    rintro rfl
    rw [List.forall₂_nil_right_iff, topLevelParts, List.map_eq_nil_iff] at hitems
    exact splitFrom_ne_nil _ _ _ hitems
  have hparts : topLevelParts ',' (commaJoined (items.map SelectItem.nameText)) =
      items.map SelectItem.nameText := by
    refine topLevelParts_intercalate rfl (by decide) (by simpa using hne) fun part hpart => ?_
    obtain ⟨i, hi, rfl⟩ := List.mem_map.mp hpart
    have hchars := (hread i hi).2
    exact (isQuiet_isItemPart.calm hchars).isPart_of_not_mem (not_mem_of_forall hchars (by decide))
  rw [selectItems, hparts, Resolution.gives_mapM, List.forall₂_map_left_iff, List.forall₂_same]
  intro i hi
  obtain ⟨hgives, hchars⟩ := hread i hi
  rw [trimmed, trim_of_forall fun c hc => isBlank_of_isItemPart (hchars c hc), String.ofList_toList]
  exact hgives

/-- Without functions, the texts of the selected items consist of their names. -/
theorem texts_eq_nameTexts (names : s.WellNamed) {type : Option ModelType} {text : String}
    {items : List SelectItem} (h : (selectItems type text).Gives s.answers items)
    (hcalls : ∀ i ∈ items, i.callsFunction = false) :
    items.map SelectItem.text = items.map SelectItem.nameText := by
  refine List.map_congr_left fun i hi => ?_
  obtain ⟨part, -, hpart⟩ := exists_left_of_forall₂ (Resolution.gives_mapM.mp h) hi
  exact SelectItem.text_eq_nameText names hpart (hcalls i hi)

theorem SystemOption.valueText_of_select {o : SystemOption} {items : List SelectItem}
    (h : o.value = .select items) : o.valueText = commaJoined (items.map SelectItem.text) := by
  obtain ⟨raw, value⟩ := o
  have h : value = .select items := h
  rw [h, SystemOption.valueText, OptionValue.text]

end ODataRequest
