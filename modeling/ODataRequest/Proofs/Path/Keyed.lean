import ODataRequest.Proofs.Path.ArgumentText
import ODataRequest.Proofs.Path.DeclaredKeys
import ODataRequest.Proofs.Path.Segments

/-!
# ODataRequest.Proofs.Path.Keyed

Resources that may have a key. The readers of entity sets, calls, casts and navigation properties
end in the same way, with the key of the resource if one follows (`Keyed`); its text is read as the
same key again, whatever stands in front of it (`Keyed.rewritten`).
-/

namespace ODataRequest

open TokenReader

variable {answers : Answers} {aliases : AliasTable} {source : String} {ts rest : List Token}

/-! ### Texts of resources -/

namespace Resource

variable {r : Resource}

/-- The text of the arguments of a resource. -/
def callText : Resource → String
  | .function _ _ arguments _ _ _ => argumentText arguments
  | _ => ""

theorem plainText_eq (r : Resource) : r.plainText = r.segment ++ r.callText ++
    castText r.casts.onCollection ++ keyText r.keys ++ castText r.casts.onEntry := rfl

theorem text_eq (h : r.takesCast = true) : r.text = r.plainText := by
  cases r with
  | entitySet | singleton | navigation | property | function => simp only [Resource.text]
  | _ => cases h

@[simp] theorem segment_withKeys (keys : List KeyPredicate) :
    (r.withKeys keys).segment = r.segment := by
  cases r <;> rfl

@[simp] theorem callText_withKeys (keys : List KeyPredicate) :
    (r.withKeys keys).callText = r.callText := by
  cases r <;> rfl

@[simp] theorem casts_withKeys (keys : List KeyPredicate) :
    (r.withKeys keys).casts = r.casts := by
  cases r <;> rfl

@[simp] theorem takesCast_withKeys (keys : List KeyPredicate) :
    (r.withKeys keys).takesCast = r.takesCast := by
  cases r <;> rfl

theorem keys_withKeys (h : r.takesKey = true) (keys : List KeyPredicate) :
    (r.withKeys keys).keys = keys := by
  cases r <;> first | rfl | cases h

theorem takesCast_of_takesKey (h : r.takesKey = true) : r.takesCast = true := by
  cases r <;> first | rfl | cases h

@[simp] theorem segment_withCasts (casts : Casts) : (r.withCasts casts).segment = r.segment := by
  cases r <;> rfl

@[simp] theorem callText_withCasts (casts : Casts) : (r.withCasts casts).callText = r.callText := by
  cases r <;> rfl

theorem takesCast_withCasts (h : r.takesCast = true) (casts : Casts) :
    (r.withCasts casts).takesCast = true := by
  cases r with
  | property p type => cases type <;> first | rfl | cases h
  | _ => first | rfl | cases h

theorem takesKey_withCasts (casts : Casts) : (r.withCasts casts).takesKey = r.takesKey := by
  cases r <;> rfl

theorem casts_withCasts_add (h : r.takesCast = true) (type : ModelType) :
    (r.withCasts (r.casts.add r.isCollection type)).casts = r.casts.add r.isCollection type := by
  cases r <;> first | rfl | cases h

/-- A collection has no key. -/
theorem keys_eq_nil (h : r.isCollection = true) : r.keys = [] := by
  by_contra hkeys
  rw [isCollection_of_keys_ne_nil hkeys] at h
  cases h

/-- A cast adds a segment to the text of a resource that is not cast as what it does not stand for. -/
theorem text_cast {r' : Resource} {type : ModelType}
    (huncast : r.isCollection = true → r.casts.onEntry = none) (h : r.cast type = .ok r') :
    r'.text = r.text ++ "/" ++ type.text := by
  obtain ⟨rfl, htakes, hslot, -⟩ := cast_eq_ok h
  rw [text_eq (takesCast_withCasts htakes _), text_eq htakes, plainText_eq, plainText_eq,
    casts_withCasts_add htakes]
  simp only [segment_withCasts, callText_withCasts, keys_withCasts]
  cases hcollection : r.isCollection with
  | true =>
    -- nothing stands behind the slot of a collection: it has neither a key nor a second cast
    have hkeys := keys_eq_nil hcollection
    have hentry := huncast hcollection
    rw [hcollection] at hslot
    have hslot : r.casts.onCollection = none := hslot
    simp [Casts.add, hkeys, hentry, hslot, castText, keyText, String.append_assoc]
  | false =>
    rw [hcollection] at hslot
    have hslot : r.casts.onEntry = none := hslot
    simp [Casts.add, hslot, castText, String.append_assoc]

/-- The resource has no key yet, and the key would be the last part of its text. -/
structure Unkeyed (r : Resource) : Prop where
  takesKey : r.takesKey = true
  noKeys : r.keys = []
  uncast : r.casts.onEntry = none

theorem Unkeyed.text_withKeys (h : r.Unkeyed) (keys : List KeyPredicate) :
    (r.withKeys keys).text = r.text ++ keyText keys := by
  have htakes : r.takesCast = true := takesCast_of_takesKey h.takesKey
  rw [text_eq (by rw [takesCast_withKeys, htakes]), text_eq htakes, plainText_eq, plainText_eq]
  simp [keys_withKeys h.takesKey, h.noKeys, h.uncast, keyText, castText]

end Resource

/-! ### What stands behind a name -/

/-- The text consists of groups, and their tokens are read in front of anything that opens no
further group. -/
def ReadsBehind (R : (source : String) → (ts rest : List Token) → Prop) (text : String) : Prop :=
  ∃ tail, Groups tail ∧ spelled tail = text.toList ∧ ∀ source us rest,
    us.map Token.piece = tail → (firstToken rest).kind ≠ .openParen → R source (us ++ rest) rest

namespace ReadsBehind

variable {R R' : (source : String) → (ts rest : List Token) → Prop} {text : String}

theorem mono (h : ReadsBehind R text)
    (hstep : ∀ source ts rest, R source ts rest → R' source ts rest) : ReadsBehind R' text := by
  obtain ⟨tail, hgroups, htext, hreads⟩ := h
  exact ⟨tail, hgroups, htext, fun source us rest hus hrest =>
    hstep _ _ _ (hreads source us rest hus hrest)⟩

/-- Nothing stands behind the name. -/
theorem nil (h : ∀ source rest, (firstToken rest).kind ≠ .openParen → R source rest rest) :
    ReadsBehind R "" := by
  refine ⟨[], .nil, rfl, fun source us rest hus hrest => ?_⟩
  rw [List.map_eq_nil_iff] at hus
  subst hus
  exact h source rest hrest

/-- One more group stands in front. -/
theorem group {content : List Piece} {front : String} (inner : Inner content)
    (hfront : spelled (group content) = front.toList) (h : ReadsBehind R text)
    (hstep : ∀ source opening us closing ts rest, opening.kind = .openParen →
      closing.kind = .closeParen → us.map Token.piece = content → R source ts rest →
      R' source (opening :: us ++ closing :: ts) rest) : ReadsBehind R' (front ++ text) := by
  obtain ⟨tail, hgroups, htext, hreads⟩ := h
  refine ⟨_, .cons inner hgroups, ?_, fun source ts rest hts hrest => ?_⟩
  · rw [spelled_append, hfront, htext, String.toList_append]
  · obtain ⟨opening, us, closing, behind, rfl, hopening, hclosing, hus, hbehind⟩ :=
      exists_of_map_piece_group hts
    have hread := hstep source opening us closing _ _ hopening hclosing hus
      (hreads source behind rest hbehind hrest)
    simpa using hread

end ReadsBehind

/-! ### Keys -/

/-- A resource with the key that is read behind it, if one is. -/
inductive Keyed (answers : Answers) (aliases : AliasTable) (Allowed : EntityType → Prop)
    (plain : Resource) (source : String) : List Token → Resource → List Token → Prop
  | without {ts : List Token} (noKey : (firstToken ts).kind ≠ .openParen) :
      Keyed answers aliases Allowed plain source ts plain ts
  | withKey {ts rest : List Token} {type : EntityType} {keys : List KeyPredicate}
      (allowed : Allowed type) (reads : Reads answers (key aliases type) source ts keys rest) :
      Keyed answers aliases Allowed plain source ts (plain.withKeys keys) rest

/-- A resource with a key is read back behind the text of the resource. -/
theorem Keyed.rewritten {Allowed : EntityType → Prop} {plain r : Resource}
    (hallowed : ∀ type, Allowed type → PlainKeys type.keys ∧ plain.Unkeyed)
    (portable : PortableTokens ts)
    (h : Keyed answers aliases Allowed plain source ts r rest) : ∃ text,
      r.text = plain.text ++ text ∧ ReadsBehind
        (fun source ts rest => Keyed answers aliases Allowed plain source ts r rest) text := by
  cases h with
  | without noKey =>
    exact ⟨"", by simp, .nil fun source rest hrest => .without hrest⟩
  | @withKey _ type keys allowed reads =>
    obtain ⟨hplain, hunkeyed⟩ := hallowed type allowed
    obtain ⟨content, inner, htext, hreads⟩ := key_rewritten hplain portable reads
    have hnone : ReadsBehind (fun _ ts rest => ts = rest) "" := .nil fun _ _ _ => rfl
    refine ⟨keyText keys ++ "", by simp [hunkeyed.text_withKeys], hnone.group inner htext ?_⟩
    rintro source opening us closing ts _ hopening hclosing hus rfl
    exact .withKey allowed (hreads hopening hclosing hus)

/-! ### Readings that end with a key -/

/-- A reader that goes on in two ways, depending on the next token. -/
theorem reads_ifSees {α : Type} {kind : TokenKind} {x y : TokenReader α} {a : α} :
    Reads answers (sees kind >>= fun b => if b = true then x else y) source ts a rest ↔
      (firstToken ts).kind = kind ∧ Reads answers x source ts a rest ∨
        (firstToken ts).kind ≠ kind ∧ Reads answers y source ts a rest := by
  simp only [reads_bind, reads_sees, reads_ite]
  constructor
  · rintro ⟨_, _, ⟨rfl, rfl⟩, ⟨hsees, h⟩ | ⟨hsees, h⟩⟩
    · exact Or.inl ⟨by simpa using hsees, h⟩
    · exact Or.inr ⟨by simpa using hsees, h⟩
  · rintro (⟨hkind, h⟩ | ⟨hkind, h⟩)
    · exact ⟨_, _, ⟨rfl, rfl⟩, Or.inl ⟨by simpa using hkind, h⟩⟩
    · exact ⟨_, _, ⟨rfl, rfl⟩, Or.inr ⟨by simpa using hkind, h⟩⟩

theorem firstToken_of_reads_key {type : EntityType} {keys : List KeyPredicate}
    (h : Reads answers (key aliases type) source ts keys rest) :
    (firstToken ts).kind = .openParen := by
  obtain ⟨opening, us, closing, rfl, hopening, -⟩ := reads_key_iff.mp h
  exact hopening

/-- A reader that goes on with a key, if one follows, and ends without one otherwise. -/
theorem reads_keyed_iff {Allowed : EntityType → Prop} {plain r : Resource}
    {x y : TokenReader Resource}
    (withKey : ∀ r rest, Reads answers x source ts r rest ↔ ∃ type keys, Allowed type ∧
      Reads answers (key aliases type) source ts keys rest ∧ r = plain.withKeys keys)
    (without : ∀ r rest, Reads answers y source ts r rest ↔ r = plain ∧ rest = ts) :
    Reads answers (sees .openParen >>= fun b => if b = true then x else y) source ts r rest ↔
      Keyed answers aliases Allowed plain source ts r rest := by
  rw [reads_ifSees, withKey, without]
  constructor
  · rintro (⟨-, type, keys, allowed, hkeys, rfl⟩ | ⟨noKey, rfl, rfl⟩)
    · exact .withKey allowed hkeys
    · exact .without noKey
  · intro h
    cases h with
    | without noKey => exact Or.inr ⟨noKey, rfl, rfl⟩
    | withKey allowed hkeys =>
      exact Or.inl ⟨firstToken_of_reads_key hkeys, _, _, allowed, hkeys, rfl⟩

theorem reads_entitySetResource_iff {set : EntitySet} {r : Resource} :
    Reads answers (entitySetResource aliases set) source ts r rest ↔
      ∃ type, answers (.entityType set.entityType) (some type) ∧
        Keyed answers aliases (· = type) (.entitySet set type [] Casts.none) source ts r rest := by
  unfold entitySetResource
  rw [reads_lift_bind]
  simp only [Resolution.gives_requireEntityType]
  refine exists_congr fun type => and_congr_right fun _ =>
    reads_keyed_iff (fun r rest => ?_) fun r rest => ?_
  · rw [reads_bind_pure]
    simp [Resource.withKeys]
  · simp [eq_comm, and_comm]

/-- A call of a function without a key. -/
def plainCall (f : Function) (byImport : Option Csdl.FunctionImport) (arguments : List Argument)
    (returnType : ModelType) : Resource :=
  .function f byImport arguments returnType [] Casts.none

/-- The result of a function may have a key if it is a collection of entities. -/
def ReturnsEntities (f : Function) (returnType : ModelType) (type : EntityType) : Prop :=
  returnType = .entity type ∧ f.returnType.type.isCollection = true

theorem reads_functionResource_iff {f : Function} {byImport : Option Csdl.FunctionImport}
    {raw : List (String × Token)} {r : Resource} :
    Reads answers (functionResource aliases f byImport raw) source ts r rest ↔
      ∃ arguments returnType, (argumentsOf f raw).Gives answers arguments ∧
        answers (.type f.returnType.type.name) (some returnType) ∧
        Keyed answers aliases (ReturnsEntities f returnType)
          (plainCall f byImport arguments returnType) source ts r rest := by
  unfold functionResource
  simp only [reads_lift_bind, Resolution.gives_requireType, ← exists_and_left]
  refine exists_congr fun arguments => exists_congr fun returnType => and_congr_right fun _ =>
    and_congr_right fun _ => reads_keyed_iff (fun r rest => ?_) fun r rest => ?_
  · cases returnType with
    | entity type =>
      by_cases hcollection : f.returnType.type.isCollection = true
      · simp only [hcollection, if_true]
        rw [reads_bind_pure]
        simp [ReturnsEntities, hcollection, plainCall, Resource.withKeys]
      · simp only [hcollection]
        simp [ReturnsEntities, hcollection]
    | _ =>
      simp only [reads_lift_bind]
      simp [ReturnsEntities]
  · simp [plainCall, eq_comm, and_comm]

/-- A collection may have a key behind a cast to an entity type. -/
def TakesKeyAs (previous : Resource) (type : ModelType) (entity : EntityType) : Prop :=
  type = .entity entity ∧ previous.isCollection = true ∧ previous.takesKey = true

theorem reads_castSegment_iff {previous r : Resource} {name : String} {type : ModelType} :
    Reads answers (castSegment aliases previous name type) source ts r rest ↔
      ∃ narrowed, previous.cast type = .ok narrowed ∧
        Keyed answers aliases (TakesKeyAs previous type) narrowed source ts r rest := by
  unfold castSegment
  rw [reads_lift_bind]
  simp only [Resolution.gives_ofSemantic]
  refine exists_congr fun narrowed => and_congr_right fun _ =>
    reads_keyed_iff (fun r rest => ?_) fun r rest => ?_
  · cases type with
    | entity entity =>
      by_cases hkey : previous.isCollection = true ∧ previous.takesKey = true
      · simp only [hkey, Bool.and_self, if_true]
        rw [reads_bind_pure]
        simp [TakesKeyAs, hkey]
      · have hkey' : (previous.isCollection && previous.takesKey) = false := by
          rwa [← Bool.not_eq_true, Bool.and_eq_true]
        simp only [hkey']
        simp [TakesKeyAs, hkey]
    | _ => simp [TakesKeyAs]
  · simp [eq_comm]

/-- A navigation property that leads to a collection may have a key of its target. -/
def LeadsTo (found : Resource) (target : EntityType) : Prop :=
  ∃ p keys casts, found = .navigation p target keys casts ∧ p.type.isCollection = true

/-- The property of a name that a single value has. -/
def FindsProperty (answers : Answers) (previous : Resource) (name : String) (found : Resource) :
    Prop :=
  previous.isCollection = false ∧ ∃ type owner, previous.type? = some type ∧
    type.structured? = some owner ∧ (propertyResource owner name).Gives answers (some found)

/-- A key may follow a property that leads to a collection of entities, and no other. -/
theorem reads_keyedProperty {found r : Resource} {name : String} :
    Reads answers (sees .openParen >>= fun b => if b = true then
        match found with
        | .navigation p target _ casts =>
          if p.type.isCollection then do return .navigation p target (← key aliases target) casts
          else Resolution.reject (.keyNotAllowed name)
        | _ => Resolution.reject (.keyNotAllowed name)
      else Pure.pure found) source ts r rest ↔
      Keyed answers aliases (LeadsTo found) found source ts r rest := by
  refine reads_keyed_iff (fun r rest => ?_) fun r rest => by simp [eq_comm]
  cases found with
  | navigation p target keys casts =>
    by_cases hcollection : p.type.isCollection = true
    · simp only [hcollection, if_true]
      rw [reads_bind_pure]
      simp [LeadsTo, hcollection, Resource.withKeys]
    · simp only [hcollection]
      simp [LeadsTo, hcollection]
  | _ => simp [LeadsTo]

theorem reads_propertySegment_iff {previous r : Resource} {name : String} :
    Reads answers (propertySegment aliases previous name) source ts r rest ↔
      ∃ found, FindsProperty answers previous name found ∧
        Keyed answers aliases (LeadsTo found) found source ts r rest := by
  unfold propertySegment
  simp only [reads_lift_bind, Resolution.gives_require]
  constructor
  · rintro ⟨type, htype, owner, howner, h⟩
    rcases reads_ite.mp h with ⟨-, h⟩ | ⟨hcollection, h⟩
    · simp only [reads_lift_bind, Resolution.not_gives_reject, false_and, exists_false] at h
    · rw [Bool.not_eq_true] at hcollection
      obtain ⟨found, hproperty, hreads⟩ := reads_require_bind.mp h
      exact ⟨found, ⟨hcollection, type, owner, htype, howner, hproperty⟩, reads_keyedProperty.mp hreads⟩
  · rintro ⟨found, ⟨hcollection, type, owner, htype, howner, hproperty⟩, h⟩
    refine ⟨type, htype, owner, howner, ?_⟩
    rw [if_neg (by simp [hcollection])]
    exact reads_require_bind.mpr ⟨found, hproperty, reads_keyedProperty.mpr h⟩

end ODataRequest
