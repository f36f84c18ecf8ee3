import ODataRequest.Proofs.Expression.Balanced
import ODataRequest.Proofs.Expression.MemberCasts
import ODataRequest.Proofs.Path.Printed

/-!
# ODataRequest.Proofs.Expression.MemberText

Paths in expressions are read back from their texts, as long as they apply no condition to the members
of a collection. The text of a path does not show that it starts at `$root`, so this start has to be
put in front of it (`IsLead`).

A step of a path is a word with a group behind it, if any, or several words behind `$root`. Whatever
alias it has been written with, the step has pieces that make the same step again and that the text of
the path grows by (`memberStep_rewritten`). The pieces of the steps with slashes between them lead to
the same path (`PathPieces.concat`), so the loop over the slashes keeps that there are such pieces.
-/

namespace ODataRequest

open TokenReader Lexeme

variable {answers : Answers} {scope : Scope} {nested : OperandReader} {source : String}
variable {ts rest : List Token} {actual : QualifiedName → QualifiedName}

/-! ### Texts of paths -/

namespace MemberPosition

/-- The texts of what a path consists of so far: a cast in front of it, and its steps. -/
def texts (p : MemberPosition) : List String :=
  (p.start.map ModelType.text).toList ++ Resource.texts p.path

/-- The text of a path so far. -/
def text (p : MemberPosition) : String :=
  "/".intercalate p.texts

/-- A step with the given text: it adds a resource, casts the last one, or casts the value that the path
starts at. -/
inductive Grows (p : MemberPosition) : String → MemberPosition → Prop
  | added (r : Resource) (fromJoin : Bool) : Grows p r.text ⟨p.toPosition.push r, fromJoin⟩
  | narrowed {last narrowed : Resource} {earlier : List Resource} {text : String}
      (before : p.steps = last :: earlier) (casts : Casts) (h : narrowed = last.withCasts casts)
      (htext : narrowed.text = last.text ++ "/" ++ text) :
      Grows p text ⟨⟨p.start, narrowed :: earlier⟩, p.fromJoin⟩
  | started (type : ModelType) (start : p.atStart = true) :
      Grows p type.text ⟨⟨some type, []⟩, p.fromJoin⟩

variable {p p' : MemberPosition} {text : String}

theorem texts_push (r : Resource) (fromJoin : Bool) :
    texts ⟨p.toPosition.push r, fromJoin⟩ = p.texts ++ [r.text] := by
  simp [texts, Position.path, Position.push, Resource.texts_append, Resource.texts]

theorem texts_eq_nil : p.texts = [] ↔ p.atStart = true := by
  obtain ⟨⟨start, steps⟩, fromJoin⟩ := p
  cases start with
  | some type => simp [texts, atStart]
  | none =>
    cases steps with
    | nil => simp [texts, atStart, Position.path, Resource.texts]
    | cons r steps => simp [texts, atStart, Position.path, Resource.texts_append, Resource.texts]

theorem path_push_of_atStart (h : p.atStart = true) (r : Resource) : (p.push r).path = [r] := by
  rw [path_push, Position.path, (of_atStart h).1]
  rfl

theorem Grows.atStart (h : p.Grows text p') : p'.atStart = false := by
  cases h with
  | added | narrowed => rfl
  | started => simp [MemberPosition.atStart]

/-- The text of a step stands behind what there is already. -/
theorem Grows.text_eq (h : p.Grows text p') :
    p'.text = if p.atStart = true then text else p.text ++ "/" ++ text := by
  cases h with
  | added r =>
    rw [MemberPosition.text, texts_push]
    split
    · next hstart => simp [texts_eq_nil.mpr hstart]
    · next hstart => rw [intercalate_concat (mt texts_eq_nil.mp hstart), MemberPosition.text]
  | narrowed before casts h htext =>
    have hstart : p.atStart = false := by simp [MemberPosition.atStart, before]
    simp only [MemberPosition.text, texts, Position.path, before, hstart, List.reverse_cons,
      Resource.texts_append, Resource.texts, htext, Bool.false_eq_true, if_false]
    rw [String.append_assoc, ← List.append_assoc, intercalate_concat_append, List.append_assoc,
      String.append_assoc]
  | started type hstart =>
    rw [if_pos hstart]
    simp [MemberPosition.text, texts, Position.path, Resource.texts]

end MemberPosition

/-! ### Paths without conditions -/

namespace Resource

/-- Does the resource apply a condition to the members of a collection? -/
def isLambda : Resource → Bool
  | .lambda _ _ _ => true
  | _ => false

/-- Is the resource a function that has the name of a method? In front of a path its text is the call of
the method. -/
def isNamedAsMethod : Resource → Bool
  | .function f _ _ _ _ _ => (Method.ofName? f.name.text).isSome
  | _ => false

/-- Is the resource an entity set or a singleton, which a path starts at behind `$root`? -/
def isContained : Resource → Bool
  | .entitySet _ _ _ _ | .singleton _ _ _ => true
  | _ => false

variable {r : Resource} {casts : Casts}

@[simp] theorem isLambda_withCasts : (r.withCasts casts).isLambda = r.isLambda := by
  cases r <;> rfl

@[simp] theorem isNamedAsMethod_withCasts :
    (r.withCasts casts).isNamedAsMethod = r.isNamedAsMethod := by
  cases r <;> rfl

@[simp] theorem isContained_withCasts : (r.withCasts casts).isContained = r.isContained := by
  cases r <;> rfl

end Resource

/-- A path that applies no condition to the members of a collection, and whose first step is not taken
for the call of a method. -/
structure PlainPath (path : List Resource) : Prop where
  unconditional : ∀ r ∈ path, r.isLambda = false
  callable : ∀ r ∈ path.head?, r.isNamedAsMethod = false

instance (path : List Resource) : Decidable (PlainPath path) :=
  decidable_of_iff
    ((∀ r ∈ path, r.isLambda = false) ∧ ∀ r ∈ path.head?, r.isNamedAsMethod = false)
    ⟨fun h => ⟨h.1, h.2⟩, fun h => ⟨h.unconditional, h.callable⟩⟩

/-- What may have to be put in front of the text of a path: nothing, or a start that is not shown. -/
def IsLead (lead : String) (path : List Resource) : Prop :=
  lead = "" ∨ lead = "$root/" ∧ ∃ r ∈ path.head?, r.isContained = true

namespace MemberPosition

variable {p p' : MemberPosition} {text lead : String}

/-- A step keeps the path in front of it, but for the casts of the last resource. -/
theorem Grows.path_eq (h : p.Grows text p') :
    (∃ behind, p'.path = p.path ++ behind) ∨
      ∃ before last casts, p.path = before ++ [last] ∧ p'.path = before ++ [last.withCasts casts] := by
  cases h with
  | added r => exact Or.inl ⟨[r], by simp [Position.path, Position.push]⟩
  | @narrowed last _ earlier _ before casts h =>
    subst h
    exact Or.inr ⟨earlier.reverse, last, casts, by simp [Position.path, before],
      by simp [Position.path]⟩
  | started type hstart =>
    have hsteps : p.steps = [] := (of_atStart hstart).1
    exact Or.inl ⟨[], by simp [Position.path, hsteps]⟩

theorem Grows.mem (h : p.Grows text p') {r : Resource} (hr : r ∈ p.path) :
    ∃ casts, r.withCasts casts ∈ p'.path := by
  obtain ⟨behind, hpath⟩ | ⟨before, last, casts, hpath, hpath'⟩ := h.path_eq
  · exact ⟨r.casts, by simp [hpath, hr]⟩
  · rw [hpath, List.mem_append, List.mem_singleton] at hr
    obtain hr | rfl := hr
    · exact ⟨r.casts, by simp [hpath', hr]⟩
    · exact ⟨casts, by simp [hpath']⟩

theorem Grows.head (h : p.Grows text p') {r : Resource} (hr : r ∈ p.path.head?) :
    ∃ casts, r.withCasts casts ∈ p'.path.head? := by
  obtain ⟨behind, hpath⟩ | ⟨before, last, casts, hpath, hpath'⟩ := h.path_eq
  · refine ⟨r.casts, ?_⟩
    rw [Resource.withCasts_casts, hpath, List.head?_append, Option.mem_def.mp hr]
    rfl
  · cases before with
    | nil =>
      obtain rfl : last = r := by simpa [hpath] using hr
      exact ⟨casts, by simp [hpath']⟩
    | cons first before =>
      obtain rfl : first = r := by simpa [hpath] using hr
      exact ⟨first.casts, by simp [hpath']⟩

theorem Grows.plainPath (h : p.Grows text p') (hplain : PlainPath p'.path) : PlainPath p.path where
  unconditional := by
    intro r hr
    obtain ⟨casts, hmem⟩ := h.mem hr
    simpa using hplain.unconditional _ hmem
  callable := by
    intro r hr
    obtain ⟨casts, hmem⟩ := h.head hr
    simpa using hplain.callable _ hmem

theorem Grows.isLead (h : p.Grows text p') (hlead : IsLead lead p.path) : IsLead lead p'.path := by
  refine hlead.imp_right fun ⟨hroot, r, hr, hcontained⟩ => ⟨hroot, ?_⟩
  obtain ⟨casts, hmem⟩ := h.head hr
  exact ⟨r.withCasts casts, hmem, by simpa using hcontained⟩

end MemberPosition

/-! ### Pieces of steps -/

/-- The pieces start with a word that a path may start with. -/
def StartsPath (ps : List Piece) : Prop :=
  ∃ w qs, ps = ⟨w, false⟩ :: qs ∧ (w.kind = .dollar ∨ w.kind = .identifier ∧
    ∀ q ∈ qs.head?, q.spaced = false ∧ (q.word.kind = .openParen → IsCallable w.text))

/-- The pieces make the step from `p` to `p'` again, in front of anything that opens no group. -/
structure StepPieces (answers : Answers) (scope : Scope) (nested : OperandReader)
    (p p' : MemberPosition) (ps : List Piece) : Prop where
  lexed : ∀ behind, Bounded behind → Lexed ps behind
  starts : p.atStart = true → StartsPath ps
  reads : ∀ (source : String) {ts rest : List Token}, ts.map Token.piece = ps →
    (firstToken rest).kind ≠ .openParen →
      ∃ t us, ts = t :: us ∧ Reads answers (memberStep scope nested p t) source (us ++ rest) p' rest

/-- The pieces of a word and of the groups behind it. -/
theorem exists_stepPieces {p p' : MemberPosition} {w : Word} {behind : String} (hw : w.Stands)
    (hstarts : p.atStart = true →
      w.kind = .dollar ∨ w.kind = .identifier ∧ (behind ≠ "" → IsCallable w.text))
    (h : ReadsBehind (fun source ts rest => ∀ t, t.word = w →
      Reads answers (memberStep scope nested p t) source ts p' rest) behind) :
    ∃ ps, StepPieces answers scope nested p p' ps ∧ spelled ps = (w.text ++ behind).toList := by
  obtain ⟨tail, hgroups, htext, hreads⟩ := h
  refine ⟨⟨w, false⟩ :: tail, ⟨fun next hnext => ?_, fun hstart => ?_, ?_⟩, ?_⟩
  · exact ⟨hw _ (hgroups.bounded hnext), hgroups.lexed next⟩
  · refine ⟨w, tail, rfl, (hstarts hstart).imp_right fun ⟨hkind, hcallable⟩ => ⟨hkind, ?_⟩⟩
    intro q hq
    cases hgroups with
    | nil => cases hq
    | cons first others =>
      obtain rfl : _ = q := Option.some.inj hq
      refine ⟨rfl, fun _ => hcallable ?_⟩
      rintro rfl
      rw [spelled_append, spelled_group] at htext
      cases htext
  · intro source ts rest hts hrest
    obtain ⟨t, us, rfl, hkind, hword, -, hus⟩ := exists_of_map_piece_cons hts
    have ht : t.word = w := by rw [Token.word, hkind, hword]
    exact ⟨t, us, rfl, hreads source us rest hus hrest t ht⟩
  · rw [spelled_cons, htext, chars_unspaced, String.toList_append]

/-- What a step becomes: its pieces, and what they add to the text of the path. -/
structure StepText (answers : Answers) (scope : Scope) (nested : OperandReader)
    (p p' : MemberPosition) (lead : String) (ps : List Piece) : Prop where
  pieces : StepPieces answers scope nested p p' ps
  text : ∃ text, p.Grows text p' ∧ spelled ps = (lead ++ text).toList
  isLead : IsLead lead p'.path
  shown : p.atStart = false → lead = ""

section Steps

variable {p p' : MemberPosition} {t : Token}

theorem PortableTokens.stands (h : PortableTokens (t :: ts))
    (hkind : t.kind = .dollar ∨ t.kind = .identifier) : t.word.Stands := by
  refine (h t List.mem_cons_self ?_ ?_ ?_ ?_).stands <;>
    rcases hkind with hkind | hkind <;> simp [hkind]

/-- A step whose text is a word and the groups behind it. -/
theorem exists_stepText {w : Word} {behind text : String} (hw : w.Stands) (hgrows : p.Grows text p')
    (htext : text = w.text ++ behind)
    (hstarts : p.atStart = true →
      w.kind = .dollar ∨ w.kind = .identifier ∧ (behind ≠ "" → IsCallable w.text))
    (h : ReadsBehind (fun source ts rest => ∀ t, t.word = w →
      Reads answers (memberStep scope nested p t) source ts p' rest) behind) :
    ∃ lead ps, StepText answers scope nested p p' lead ps := by
  obtain ⟨ps, hpieces, hspelled⟩ := exists_stepPieces hw hstarts h
  refine ⟨"", ps, hpieces, ⟨text, hgrows, ?_⟩, Or.inl rfl, fun _ => rfl⟩
  rw [hspelled, htext, String.empty_append]

/-- `$it` and `$count` stand for themselves. -/
theorem exists_stepText_dollar {r : Resource} (hw : t.word.Stands) (hkind : t.kind = .dollar)
    (htext : r.text = t.text)
    (h : ∀ {source : String} {ts : List Token},
      Reads answers (dollarMember scope p t.text) source ts (p.push r) ts) :
    ∃ lead ps, StepText answers scope nested p (p.push r) lead ps := by
  have htext : r.text = t.word.text ++ "" := by
    rw [htext, String.append_empty]
    rfl
  refine exists_stepText hw (.added r p.fromJoin) htext (fun _ => Or.inl hkind)
    (.nil fun source rest hrest u hu => reads_memberStep_iff.mpr (Or.inl ?_))
  have hukind : u.kind = t.kind := congrArg Word.kind hu
  have hutext : u.text = t.text := congrArg Word.text hu
  rw [hukind, hutext]
  exact ⟨hkind, h⟩

/-- What stands behind `$root/` is read back behind its name. -/
theorem rootResource_rewritten {aliases : AliasTable} (tell : answers.TellPlainKeys)
    (portable : PortableTokens ts) {r : Resource}
    (h : Reads answers (rootResource aliases) source ts r rest) :
    r.isContained = true ∧ ∃ (w : Word) (behind : String), w.Stands ∧
      r.text = w.text ++ behind ∧
      ReadsBehind (fun source ts rest => ∀ slash name, slash.kind = .slash → name.word = w →
        Reads answers (rootResource aliases) source (slash :: name :: ts) r rest) behind := by
  obtain ⟨slash, name, us, container, rfl, -, hname, hcontainer, hfound⟩ :=
    reads_rootResource_iff.mp h
  have hw : name.word.Stands := portable.of_cons.stands (Or.inr hname)
  obtain ⟨set, hset, hreads⟩ | ⟨hnone, single, hsingle, hgives, -⟩ := hfound
  · obtain ⟨type, keys, rfl⟩ := exists_of_reads_entitySetResource hreads
    have hid : set.name.text = name.text := by simpa using List.find?_some hset
    obtain ⟨behind, htext, hbehind⟩ :=
      entitySetResource_rewritten tell portable.of_cons.of_cons hreads
    refine ⟨rfl, name.word, behind, hw, by rw [htext, hid]; rfl, ?_⟩
    refine hbehind.mono fun source ts rest hreads slash' name' hslash' hname' => ?_
    have hkind' : name'.kind = name.kind := congrArg Word.kind hname'
    have htext' : name'.text = name.text := congrArg Word.text hname'
    exact reads_rootResource_iff.mpr ⟨slash', name', ts, container, rfl, hslash',
      hkind'.trans hname, hcontainer, Or.inl ⟨set, by rw [htext', hset], hreads⟩⟩
  · have hid : single.name.text = name.text := by simpa using List.find?_some hsingle
    have hcontained : r.isContained = true := by
      unfold singletonResource at hgives
      obtain ⟨type, -, hgives⟩ := Resolution.gives_bind.mp hgives
      obtain rfl := Resolution.gives_pure.mp hgives
      rfl
    refine ⟨hcontained, name.word, "", hw, ?_, .nil fun source rest _ slash' name' hslash' hname' => ?_⟩
    · rw [gives_singletonResource_text hgives, hid, String.append_empty]
      rfl
    · have hkind' : name'.kind = name.kind := congrArg Word.kind hname'
      have htext' : name'.text = name.text := congrArg Word.text hname'
      exact reads_rootResource_iff.mpr ⟨slash', name', rest, container, rfl, hslash',
        hkind'.trans hname, hcontainer,
        Or.inr ⟨by rw [htext', hnone], single, by rw [htext', hsingle], hgives, rfl⟩⟩

/-- The start at `$root` is a word of its own with a slash behind it, and no part of the text. -/
theorem exists_stepText_root {r : Resource} (tell : answers.TellPlainKeys)
    (portable : PortableTokens (t :: ts)) (hkind : t.kind = .dollar) (htext : t.text = "$root")
    (hstart : p.atStart = true) (h : Reads answers (rootResource scope.aliases) source ts r rest) :
    ∃ lead ps, StepText answers scope nested p (p.push r) lead ps := by
  obtain ⟨hcontained, w, behind, hw, hr, tail, hgroups, htail, hreads⟩ :=
    rootResource_rewritten tell portable.of_cons h
  have hroot : t.word.Stands := portable.stands (Or.inl hkind)
  have hslash : ∀ cs, Bounded (Word.slash.text.toList ++ cs) := fun cs => bounded_cons (by decide)
  refine ⟨"$root/", ⟨t.word, false⟩ :: ⟨Word.slash, false⟩ :: ⟨w, false⟩ :: tail,
    ⟨fun next hnext => ?_, fun _ => ⟨_, _, rfl, Or.inl hkind⟩, ?_⟩,
    ⟨r.text, .added r p.fromJoin, ?_⟩, Or.inr ⟨rfl, r, ?_, hcontained⟩, ?_⟩
  · exact ⟨hroot _ (hslash _), Word.lexes_slash _, hw _ (hgroups.bounded hnext), hgroups.lexed next⟩
  · intro source ts rest hts hrest
    obtain ⟨root, us, rfl, hrootKind, hrootText, -, hus⟩ := exists_of_map_piece_cons hts
    obtain ⟨slash, vs, rfl, hslashKind, -, -, hvs⟩ := exists_of_map_piece_cons hus
    obtain ⟨name, ws, rfl, hnameKind, hnameText, -, hws⟩ := exists_of_map_piece_cons hvs
    have hname : name.word = w := by rw [Token.word, hnameKind, hnameText]
    refine ⟨root, _, rfl, reads_memberStep_iff.mpr (Or.inl ⟨hrootKind.trans hkind, ?_⟩)⟩
    refine reads_dollarMember_iff.mpr (Or.inr (Or.inl ⟨hrootText.trans htext, hstart, r, ?_, rfl⟩))
    exact hreads source ws rest hws hrest slash name hslashKind hname
  · rw [spelled_cons, spelled_cons, spelled_cons, htail, hr]
    simp [chars_unspaced, Token.word, htext, Word.slash]
  · rw [MemberPosition.path_push_of_atStart hstart]
    rfl
  · intro hstart'
    rw [hstart] at hstart'
    cases hstart'

/-- A qualified name is no quantifier and not the operator `not`. -/
theorem qualified_ne {text : String} (q : QualifiedName) (h : isQualified text = false) :
    q.text ≠ text := by
  rintro rfl
  rw [isQualified_text] at h
  cases h

theorem quantifier?_qualified (q : QualifiedName) : quantifier? q.text = none := by
  unfold quantifier?
  rw [if_neg (qualified_ne q (by decide)), if_neg (qualified_ne q (by decide))]

/-- Outside the bodies of quantifiers, and with a cross join whose entity sets have simple names. -/
structure Scope.IsOuter (scope : Scope) : Prop where
  unbound : scope.bound = []
  simple : ∀ name ∈ scope.joined, isQualified name = false

theorem Scope.IsOuter.boundType? (outer : scope.IsOuter) (name : String) :
    scope.boundType? name = none := by
  rw [Scope.boundType?, outer.unbound, List.lookup_nil]

/-- A step that is a qualified name. -/
theorem reads_memberStep_qualified (outer : scope.IsOuter) {q : QualifiedName}
    (ht : t.word = Word.identifier q.text)
    (h : Reads answers (qualifiedMember scope p q.text) source ts p' rest) :
    Reads answers (memberStep scope nested p t) source ts p' rest := by
  obtain ⟨hkind, htext⟩ := Token.eq_of_word ht
  refine reads_memberStep_iff.mpr (Or.inr ⟨hkind, Or.inr ?_⟩)
  rw [htext, quantifier?_qualified]
  refine ⟨nofun, reads_namedMember_iff.mpr (Or.inr (Or.inr ⟨fun _ => ?_, ?_⟩))⟩
  · refine ⟨outer.boundType? q.text, fun hjoined => ?_⟩
    have hsimple := outer.simple q.text hjoined
    rw [isQualified_text] at hsimple
    cases hsimple
  · exact Or.inl ⟨isQualified_text q, h⟩

/-- The name that a cast is written with only matters for errors. -/
theorem gives_castMember_congr {text text' : String} {type : ModelType}
    (h : (castMember scope p text type).Gives answers p') :
    (castMember scope p text' type).Gives answers p' := by
  unfold castMember at h ⊢
  split at h
  · exact h
  · simp only [Resolution.gives_bind, Resolution.gives_require, Resolution.gives_ofSemantic,
      Resolution.gives_pure] at h ⊢
    obtain ⟨owner, howner, position, hstart, rfl⟩ := h
    obtain ⟨hderives, hnone, rfl⟩ := castStart_eq_ok hstart
    exact ⟨owner, howner, _, by simp [Position.castStart, hderives, hnone], rfl⟩

/-- A cast is read back with the actual name of its type. -/
theorem exists_stepText_cast (outer : scope.IsOuter) (named : answers.NamedBy actual)
    (hcasts : ∀ r ∈ p.steps, r.CastOnce) {text : String} {name : QualifiedName} {type : ModelType}
    (htype : answers (.type name) (some type))
    (h : (castMember scope p text type).Gives answers p') :
    ∃ lead ps, StepText answers scope nested p p' lead ps := by
  obtain ⟨hactual, hname⟩ := named.type htype
  have hgrows : p.Grows type.text p' := by
    cases castMember_effect h with
    | start => exact .started type rfl
    | last hcast =>
      have honce := hcasts _ List.mem_cons_self
      refine .narrowed rfl _ (cast_eq_ok hcast).1 (Resource.text_cast (fun hcollection => ?_) hcast)
      simpa [hcollection, Casts.slot] using honce.other
  have htext : type.text = (Word.identifier (actual name).text).text ++ "" := by
    rw [String.append_empty, ModelType.text, hname type rfl]
    rfl
  refine exists_stepText (isName_qualifiedName (actual name)).stands hgrows htext
    (fun _ => Or.inr ⟨rfl, fun hne => absurd rfl hne⟩) (.nil fun source rest _ u hu => ?_)
  exact reads_memberStep_qualified outer hu (reads_qualifiedMember_iff.mpr
    ⟨actual name, QualifiedName.ofString?_text _, Or.inl ⟨type, hactual, gives_castMember_congr h, rfl⟩⟩)

/-- A bound function is read back behind its actual name. -/
theorem memberFunction_rewritten (named : answers.NamedBy actual) (portable : PortableTokens ts)
    {text : String} {name : QualifiedName} {r : Resource}
    (h : Reads answers (memberFunction scope p text name) source ts r rest) :
    ∃ f arguments returnType behind, r = .function f none arguments returnType [] Casts.none ∧
      f.name = actual name ∧ r.text = (actual name).text ++ behind ∧
      ReadsBehind (fun source ts rest => ∀ text,
        Reads answers (memberFunction scope p text (actual name)) source ts r rest) behind := by
  obtain ⟨-, owner, raw, f, arguments, returnType, howner, hraw, hf, harguments, htype, rfl⟩ :=
    reads_memberFunction_iff.mp h
  obtain ⟨hactual, hname⟩ := named.boundFunction hf
  obtain ⟨content, hcontent⟩ := arguments_rewritten portable hraw harguments
  have hnone : ReadsBehind (fun _ ts rest => ts = rest) "" := .nil fun _ _ _ => rfl
  refine ⟨f, arguments, returnType, argumentText arguments ++ "", rfl, hname, ?_,
    hnone.group hcontent.inner hcontent.text ?_⟩
  · rw [Resource.text_eq rfl, Resource.plainText_eq, ← hname]
    simp [Resource.segment, Resource.callText, Resource.casts, Resource.keys, Casts.none, castText,
      keyText, QualifiedName.text]
  · rintro source opening us closing ts _ hopening hclosing hus rfl text
    obtain ⟨raw', hraw', hnames, harguments'⟩ := hcontent.reads hopening hclosing hus
    exact reads_memberFunction_iff.mpr ⟨hopening, owner, raw', f, arguments, returnType, howner, hraw',
      by rwa [hnames], harguments', htype, rfl⟩

theorem exists_stepText_function (outer : scope.IsOuter) (named : answers.NamedBy actual)
    (portable : PortableTokens ts) {text : String} {name : QualifiedName} {r : Resource}
    (htype : answers (.type name) none)
    (h : Reads answers (memberFunction scope p text name) source ts r rest)
    (hplain : PlainPath (p.push r).path) :
    ∃ lead ps, StepText answers scope nested p (p.push r) lead ps := by
  obtain ⟨f, arguments, returnType, behind, rfl, hname, hr, hbehind⟩ :=
    memberFunction_rewritten named portable h
  refine exists_stepText (isName_qualifiedName (actual name)).stands (.added _ p.fromJoin) hr
    (fun hstart => Or.inr ⟨rfl, fun _ => ?_⟩) (hbehind.mono fun source ts rest hreads u hu => ?_)
  · refine ⟨qualified_ne _ (by decide), ?_⟩
    have hcallable := hplain.callable _ (by rw [MemberPosition.path_push_of_atStart hstart]; rfl)
    rw [← hname]
    simpa [Resource.isNamedAsMethod, Word.identifier] using hcallable
  · exact reads_memberStep_qualified outer hu (reads_qualifiedMember_iff.mpr
      ⟨actual name, QualifiedName.ofString?_text _,
        Or.inr ⟨(named.type htype).1, _, hreads _, rfl⟩⟩)

theorem gives_propertyMember_text {name : String} {r : Resource}
    (h : (propertyMember scope p name).Gives answers r) : r.text = name := by
  unfold propertyMember at h
  simp only [Resolution.gives_bind, Resolution.gives_require] at h
  obtain ⟨type, -, owner, -, h⟩ := h
  split at h
  · simp at h
  · simp only [Resolution.gives_bind, Resolution.gives_require] at h
    obtain ⟨_, hresource, rfl⟩ := h
    obtain ⟨-, -, htext⟩ := gives_propertyResource_text hresource
    exact htext

/-- A property stands for itself. -/
theorem exists_stepText_property {r : Resource} (hw : t.word.Stands) (hkind : t.kind = .identifier)
    (hstart : p.atStart = true → scope.boundType? t.text = none ∧ t.text ∉ scope.joined)
    (hsimple : isQualified t.text = false)
    (h : (propertyMember scope p t.text).Gives answers r) :
    ∃ lead ps, StepText answers scope nested p (p.push r) lead ps := by
  have htext : r.text = t.word.text ++ "" := by
    rw [gives_propertyMember_text h, String.append_empty]
    rfl
  refine exists_stepText hw (.added r p.fromJoin) htext
    (fun _ => Or.inr ⟨hkind, fun hne => absurd rfl hne⟩) (.nil fun source rest hrest u hu => ?_)
  have hukind : u.kind = t.kind := congrArg Word.kind hu
  have hutext : u.text = t.text := congrArg Word.text hu
  refine reads_memberStep_iff.mpr (Or.inr ⟨hukind.trans hkind, Or.inr ?_⟩)
  rw [hutext]
  exact ⟨fun _ hopens => absurd hopens hrest, reads_namedMember_iff.mpr
    (Or.inr (Or.inr ⟨hstart, Or.inr ⟨hsimple, r, h, rfl, rfl⟩⟩))⟩

/-- An entity set of a cross join is read back behind its name. -/
theorem exists_stepText_joined {r : Resource} (tell : answers.TellPlainKeys)
    (portable : PortableTokens (t :: ts)) (hkind : t.kind = .identifier) (hstart : p.atStart = true)
    (hbound : scope.boundType? t.text = none) (hjoined : t.text ∈ scope.joined)
    (begins : BeginsPath t ts)
    (h : Reads answers (joinedResource scope.aliases t.text) source ts r rest) :
    ∃ lead ps, StepText answers scope nested p ({ p with fromJoin := true }.push r) lead ps := by
  obtain ⟨container, set, hcontainer, hset, hreads⟩ := reads_joinedResource_iff.mp h
  have hid : set.name.text = t.text := by simpa using List.find?_some hset
  obtain ⟨behind, htext, hbehind⟩ := entitySetResource_rewritten tell portable.of_cons hreads
  have htext : r.text = t.word.text ++ behind := by rw [htext, hid]; rfl
  have hcallable : (firstToken ts).kind = .openParen → IsCallable t.text := by
    obtain hdollar | ⟨-, hcallable⟩ := begins
    · simp [hkind] at hdollar
    · exact hcallable
  refine exists_stepText (portable.stands (Or.inr hkind)) (.added r true) htext
    (fun _ => Or.inr ⟨hkind, fun hne => hcallable ?_⟩)
    (hbehind.mono fun source ts rest hreads u hu => ?_)
  · -- without a key the text is the name alone
    by_contra hopens
    obtain ⟨type, -, hkeyed⟩ := reads_entitySetResource_iff.mp hreads
    cases hkeyed with
    | without =>
      rw [Resource.text_eq rfl, Resource.plainText_eq] at htext
      simp [Resource.segment, Resource.callText, Resource.casts, Resource.keys, Casts.none, castText,
        keyText, hid, Token.word] at htext
      exact hne (by simpa using congrArg String.toList htext)
    | withKey _ hkey => exact hopens (firstToken_of_reads_key hkey)
  · have hukind : u.kind = t.kind := congrArg Word.kind hu
    have hutext : u.text = t.text := congrArg Word.text hu
    refine reads_memberStep_iff.mpr (Or.inr ⟨hukind.trans hkind, Or.inr ?_⟩)
    rw [hutext]
    refine ⟨fun _ _ => by simp [(MemberPosition.of_atStart hstart).1],
      reads_namedMember_iff.mpr (Or.inr (Or.inl ⟨hstart, hbound, hjoined, r, ?_, rfl⟩))⟩
    exact reads_joinedResource_iff.mpr ⟨container, set, hcontainer, hset, hreads⟩

/-- The question whether there are members stands for itself. -/
theorem exists_stepText_notEmpty (hw : t.word.Stands) (hkind : t.kind = .identifier)
    (htext : quantifier? t.text = some .any) (hsteps : p.steps.isEmpty = false)
    (hcollection : p.isCollection = true) :
    ∃ lead ps, StepText answers scope nested p (p.push .notEmpty) lead ps := by
  have hname : t.text = Quantifier.any.name := by
    unfold quantifier? at htext
    split at htext
    · assumption
    · split at htext <;> cases htext
  have hgroup : ReadsBehind (fun source ts rest => ∀ t', t'.word = t.word →
      Reads answers (memberStep scope nested p t') source ts (p.push .notEmpty) rest) ("()" ++ "") := by
    have hnone : ReadsBehind (fun _ ts rest => ts = rest) "" := .nil fun _ _ _ => rfl
    refine hnone.group inner_nil (by decide) ?_
    rintro source opening us closing ts _ hopening hclosing hus rfl u hu
    rw [List.map_eq_nil_iff.mp hus]
    have hukind : u.kind = t.kind := congrArg Word.kind hu
    have hutext : u.text = t.text := congrArg Word.text hu
    refine reads_memberStep_iff.mpr (Or.inr ⟨hukind.trans hkind, Or.inl ?_⟩)
    refine ⟨.any, by rw [hutext, htext], hopening, hsteps, hcollection, .notEmpty, ?_, rfl⟩
    exact reads_quantified_iff.mpr
      ⟨opening, _, rfl, hopening, Or.inl ⟨rfl, rfl, closing, rfl, hclosing⟩⟩
  have hr : Resource.notEmpty.text = t.word.text ++ ("()" ++ "") := by
    rw [Token.word, hname]
    rfl
  refine exists_stepText hw (.added .notEmpty p.fromJoin) hr (fun hstart => ?_) hgroup
  rw [(MemberPosition.of_atStart hstart).1] at hsteps
  cases hsteps

/-- Each step of a path that applies no condition has pieces that make it again, whatever reads the
operands inside, and what it adds to the text of the path is their text, the start at `$root` aside. -/
theorem memberStep_rewritten (outer : scope.IsOuter) (named : answers.NamedBy actual)
    (tell : answers.TellPlainKeys) (portable : PortableTokens (t :: ts))
    (hcasts : ∀ r ∈ p.steps, r.CastOnce)
    (begins : p.atStart = true → BeginsPath t ts)
    {inner : OperandReader} (h : Reads answers (memberStep scope inner p t) source ts p' rest)
    (hplain : PlainPath p'.path) :
    ∃ lead ps, StepText answers scope nested p p' lead ps := by
  obtain ⟨hkind, hdollar⟩ | ⟨hkind, hword⟩ := reads_memberStep_iff.mp h
  · have hw := portable.stands (Or.inl hkind)
    obtain ⟨htext, hstart, type, htype, rfl, rfl⟩ | ⟨htext, hstart, r, hr, rfl⟩ |
      ⟨htext, hsteps, hcollection, rfl, rfl⟩ := reads_dollarMember_iff.mp hdollar
    · refine exists_stepText_dollar hw hkind htext.symm fun {source ts} => ?_
      exact reads_dollarMember_iff.mpr (Or.inl ⟨htext, hstart, type, htype, rfl, rfl⟩)
    · exact exists_stepText_root tell portable hkind htext hstart hr
    · refine exists_stepText_dollar hw hkind htext.symm fun {source ts} => ?_
      exact reads_dollarMember_iff.mpr (Or.inr (Or.inr ⟨htext, hsteps, hcollection, rfl, rfl⟩))
  have hw := portable.stands (Or.inr hkind)
  obtain ⟨quantifier, hquantifier, -, hsteps, hcollection, r, hr, rfl⟩ | ⟨-, hnamed⟩ := hword
  · obtain ⟨opening, us, -, -, ⟨rfl, rfl, -⟩ | ⟨-, hbody⟩⟩ := reads_quantified_iff.mp hr
    · exact exists_stepText_notEmpty hw hkind hquantifier hsteps hcollection
    · obtain ⟨name, colon, type, body, vs, closing, -, -, -, -, -, -, -, rfl⟩ :=
        quantifiedBody_cases hbody
      cases hplain.unconditional (.lambda quantifier name.text body)
        (by simp [MemberPosition.path_push])
  obtain ⟨-, type, hbound, -⟩ | ⟨hstart, hbound, hjoined, r, hr, rfl⟩ | ⟨hstart, hstep⟩ :=
    reads_namedMember_iff.mp hnamed
  · rw [outer.boundType?] at hbound
    cases hbound
  · exact exists_stepText_joined tell portable hkind hstart hbound hjoined (begins hstart) hr
  obtain ⟨-, hqualified⟩ | ⟨hsimple, r, hr, rfl, rfl⟩ := hstep
  · obtain ⟨name, -, ⟨type, htype, hcast, rfl⟩ | ⟨htype, r, hr, rfl⟩⟩ :=
      reads_qualifiedMember_iff.mp hqualified
    · exact exists_stepText_cast outer named hcasts htype hcast
    · exact exists_stepText_function outer named portable.of_cons htype hr hplain
  · exact exists_stepText_property hw hkind hstart hsimple hr

end Steps

/-! ### Pieces of paths -/

/-- The first step of a path and the further ones behind slashes. -/
def pathFrom (scope : Scope) (nested : OperandReader) (first : Token) :
    TokenReader MemberPosition := do
  let p ← memberStep scope nested MemberPosition.origin first
  TokenReader.foldWhile (memberPathStep scope nested) p

/-- The pieces lead to `p` and go on from there with whatever follows. -/
structure PathPieces (answers : Answers) (scope : Scope) (nested : OperandReader)
    (p : MemberPosition) (lead : String) (ps : List Piece) : Prop where
  begun : p.atStart = false
  lexed : ∀ behind, Bounded behind → Lexed ps behind
  starts : StartsPath ps
  text : spelled ps = (lead ++ p.text).toList
  isLead : IsLead lead p.path
  leads : ∀ (source : String) {ts : List Token} (rest : List Token) {rest' : List Token}
    {final : MemberPosition},
    ts.map Token.piece = ps → (firstToken rest).kind ≠ .openParen →
    Reads answers (foldWhile (memberPathStep scope nested) p) source rest final rest' →
      ∃ t us, ts = t :: us ∧ Reads answers (pathFrom scope nested t) source (us ++ rest) final rest'

/-- A slash behind the first word is no group. -/
theorem StartsPath.concat {ps qs : List Piece} (h : StartsPath ps) :
    StartsPath (ps ++ ⟨Word.slash, false⟩ :: qs) := by
  obtain ⟨w, us, rfl, hw⟩ := h
  refine ⟨w, us ++ ⟨Word.slash, false⟩ :: qs, rfl, hw.imp_right fun ⟨hkind, hnext⟩ => ⟨hkind, ?_⟩⟩
  intro q hq
  cases us with
  | nil =>
    obtain rfl : _ = q := Option.some.inj hq
    exact ⟨rfl, nofun⟩
  | cons next us => exact hnext q hq

namespace PathPieces

variable {p p' : MemberPosition} {lead lead' : String} {ps qs : List Piece}

theorem first (h : StepText answers scope nested .origin p lead ps) :
    PathPieces answers scope nested p lead ps := by
  obtain ⟨text, hgrows, htext⟩ := h.text
  refine ⟨hgrows.atStart, h.pieces.lexed, h.pieces.starts rfl, ?_, h.isLead, ?_⟩
  · rw [htext, hgrows.text_eq]
    rfl
  · intro source ts rest rest' final hts hrest hloop
    obtain ⟨t, us, rfl, hread⟩ := h.pieces.reads source hts hrest
    exact ⟨t, us, rfl, reads_bind.mpr ⟨p, rest, hread, hloop⟩⟩

/-- One more step behind a slash. -/
theorem concat (h : PathPieces answers scope nested p lead ps)
    (hstep : StepText answers scope nested p p' lead' qs) :
    PathPieces answers scope nested p' lead (ps ++ ⟨Word.slash, false⟩ :: qs) := by
  obtain ⟨text, hgrows, htext⟩ := hstep.text
  have hslash : ∀ cs, Bounded (Word.slash.text.toList ++ cs) := fun cs => bounded_cons (by decide)
  refine ⟨hgrows.atStart, fun behind hbehind => ?_, h.starts.concat, ?_, hgrows.isLead h.isLead, ?_⟩
  · exact lexed_append.mpr
      ⟨h.lexed _ (hslash _), Word.lexes_slash _, hstep.pieces.lexed behind hbehind⟩
  · rw [spelled_append, spelled_cons, h.text, htext, hstep.shown h.begun, hgrows.text_eq, h.begun]
    simp [chars_unspaced, Word.slash]
  · intro source ts rest rest' final hts hrest hloop
    obtain ⟨us, vs, rfl, hus, hvs⟩ := List.map_eq_append_iff.mp hts
    obtain ⟨slash, ws, rfl, hkind, -, -, hws⟩ := exists_of_map_piece_cons hvs
    have hkind : slash.kind = .slash := hkind
    obtain ⟨u, xs, rfl, hread⟩ := hstep.pieces.reads source hws hrest
    have hnext : u.kind ≠ .endOfText := by
      intro hend
      simp [memberStep, hend] at hread
    obtain ⟨t, us, rfl, hpath⟩ := h.leads source (slash :: u :: (xs ++ rest)) hus
      (by simp [hkind]) (reads_foldWhile.mpr (Or.inr ⟨slash, _, _, p', rest, rfl,
        by rw [memberPathStep, if_pos hkind],
        reads_bind.mpr ⟨u, xs ++ rest, (reads_next hnext).mpr rfl, hread⟩, hloop⟩))
    exact ⟨t, _, rfl, by simpa using hpath⟩

end PathPieces

theorem MemberStep.atStart_eq_false {Body : Scope → Expression → Prop} {p p' : MemberPosition}
    (h : MemberStep answers Body scope p p') : p'.atStart = false := by
  by_contra hstart
  obtain ⟨hsteps, hnone⟩ := MemberPosition.of_atStart (by simpa using hstart)
  exact h.goesOn (by rw [Position.path, hsteps, List.reverse_nil]) hnone

/-- A path without conditions has pieces that lead to it, whatever reads the operands inside. -/
theorem exists_pathPieces (outer : scope.IsOuter) (named : answers.NamedBy actual)
    (tell : answers.TellPlainKeys) {inner : OperandReader} (hinner : Balances answers inner)
    {t : Token} (portable : PortableTokens (t :: ts))
    (begins : BeginsPath t ts) {start : Option ModelType}
    {path : List Resource}
    (h : Reads answers (memberPath scope inner t) source ts (.member start path) rest)
    (hplain : PlainPath path) :
    ∃ p lead ps, PathPieces answers scope nested p lead ps ∧ p.start = start ∧ p.path = path := by
  obtain ⟨_, _, hvariable, -⟩ | ⟨p, between, final, hfirst, hloop, hmember⟩ := memberPath_cases h
  · cases hvariable
  obtain ⟨rfl, rfl⟩ : start = final.start ∧ path = final.path := by simpa using hmember
  have hensures : inner.Ensures answers (fun _ => True) fun _ _ => True :=
    fun _ _ _ _ _ _ _ _ => trivial
  -- the casts so far, and the pieces of the path so far as long as it applies no condition
  let Inv (p : MemberPosition) (left : List Token) : Prop :=
    PortableTokens left ∧ p.atStart = false ∧ (∀ r ∈ p.steps, r.CastOnce) ∧
      (PlainPath p.path → ∃ lead ps, PathPieces answers scope nested p lead ps)
  have hinit : Inv p between := by
    have hnone : ∀ r ∈ MemberPosition.origin.steps, r.CastOnce :=
      fun r hr => absurd hr List.not_mem_nil
    have hstep := hensures.memberStep .of_any hfirst
    refine ⟨portable.of_cons.of_isSuffix (balanced_memberStep hinner hfirst).isSuffix,
      hstep.atStart_eq_false, castOnce_memberStep hnone hstep, fun hplain => ?_⟩
    obtain ⟨lead, ps, hstep⟩ :=
      memberStep_rewritten outer named tell portable hnone (fun _ => begins) hfirst hplain
    exact ⟨lead, ps, .first hstep⟩
  have hkept : ∀ p slash us reader p' left, Inv p (slash :: us) →
      memberPathStep scope inner p slash = some reader → Reads answers reader source us p' left →
        Inv p' left := by
    intro p slash us reader p' left hinv hselect hread
    obtain ⟨hleft, hbegun, hcasts, hpieces⟩ := hinv
    obtain ⟨u, vs, -, rfl, hnext⟩ := memberPathStep_cases hselect hread
    have hstep := hensures.memberStep .of_any hnext
    refine ⟨hleft.of_cons.of_cons.of_isSuffix (balanced_memberStep hinner hnext).isSuffix,
      hstep.atStart_eq_false, castOnce_memberStep hcasts hstep, fun hplain => ?_⟩
    obtain ⟨lead', qs, htext⟩ := memberStep_rewritten outer named tell hleft.of_cons hcasts
      (fun hstart => by simp [hbegun] at hstart) hnext hplain
    obtain ⟨text, hgrows, -⟩ := htext.text
    obtain ⟨lead, ps, hbefore⟩ := hpieces (hgrows.plainPath hplain)
    exact ⟨lead, _, hbefore.concat htext⟩
  obtain ⟨⟨-, -, -, hpieces⟩, -⟩ := hloop.foldWhile_rule Inv hkept hinit
  obtain ⟨lead, ps, hpieces⟩ := hpieces hplain
  exact ⟨final, lead, ps, hpieces, rfl, rfl⟩

/-! ### Texts of paths -/

/-- Outside the bodies of quantifiers a path is no variable. -/
theorem reads_memberPath_of_pathFrom (outer : scope.IsOuter) {t : Token} {p : MemberPosition}
    (h : Reads answers (pathFrom scope nested t) source ts p rest) :
    Reads answers (memberPath scope nested t) source ts (.member p.start p.path) rest := by
  obtain ⟨first, between, hfirst, hloop⟩ := reads_bind.mp h
  unfold memberPath
  refine reads_bind.mpr ⟨_, _, reads_sees.mpr ⟨rfl, rfl⟩, ?_⟩
  dsimp only
  split
  · next hbound _ =>
    rw [outer.boundType?] at hbound
    cases hbound
  · exact reads_bind.mpr ⟨first, between, hfirst, reads_bind_pure.mpr ⟨p, hloop, rfl⟩⟩

/-- A first word of a path is the start of an operand that is a path. -/
theorem StartsPath.reads_operand {ps : List Piece} (h : StartsPath ps) {last : Token} {e : Expression}
    (hlast : last.kind = .endOfText) (hspace : last.spaceBefore = false)
    (hts : ts.map Token.piece = ps)
    (hread : ∀ t us, ts = t :: us → Reads answers (memberPath scope nested t) source (us ++ [last]) e
      [last]) :
    Reads answers (operand scope nested) source (ts ++ [last]) e [last] := by
  obtain ⟨w, qs, rfl, hw⟩ := h
  obtain ⟨t, us, rfl, hkind, htext, -, hus⟩ := exists_of_map_piece_cons hts
  have hpath := hread t us rfl
  obtain hdollar | ⟨hidentifier, hnext⟩ := hw
  · refine ODataRequest.reads_operand.mpr ⟨t, us ++ [last], rfl, by simp [hkind, hdollar], ?_⟩
    simpa [operandFrom, hkind, hdollar] using hpath
  refine ODataRequest.reads_operand.mpr ⟨t, us ++ [last], rfl, by simp [hkind, hidentifier], ?_⟩
  have hfollows : (firstToken (us ++ [last])).spaceBefore = false ∧
      ((firstToken (us ++ [last])).kind = .openParen → IsCallable t.text) := by
    cases us with
    | nil => exact ⟨hspace, by simp [hlast]⟩
    | cons u us =>
      obtain ⟨hspaced, hcallable⟩ := hnext u.piece (by rw [← hus]; rfl)
      exact ⟨hspaced, fun hopens => htext ▸ hcallable hopens⟩
  obtain ⟨hspaced, hcallable⟩ := hfollows
  simp only [operandFrom, hkind, hidentifier, hspaced]
  by_cases hopens : (firstToken (us ++ [last])).kind = .openParen
  · obtain ⟨hnot, hmethod⟩ := hcallable hopens
    simpa [hopens, hnot, hmethod] using hpath
  · simpa [hopens] using hpath

/-- The text of a path, with its start in front, is read as this path. -/
theorem PathPieces.gives {config : Config} {p : MemberPosition} {lead : String} {ps : List Piece}
    (outer : scope.IsOuter) {limit : Nat} (hlimit : config.maxNesting = limit + 1)
    (h : PathPieces answers scope (expressionWithin config.maxNesting limit) p lead ps) :
    (readAll (expression config scope) (lead ++ (Expression.member p.start p.path).text)).Gives answers
      (.member p.start p.path) := by
  obtain ⟨ts, last, htokens, hts, hlast, hspace⟩ := tokenize_spelled (h.lexed [] bounded_nil)
  have htext : String.ofList (spelled ps) = lead ++ (Expression.member p.start p.path).text := by
    rw [h.text, String.ofList_toList]
    simp only [Expression.text]
    rfl
  rw [htext] at htokens
  refine gives_readAll.mpr ⟨_, [last], htokens, ?_, hlast⟩
  rw [expression, hlimit]
  have hclosed : Closed 0 [last] :=
    closed_cons (operator?_of_kind_ne (by simp [hlast]) 0) []
  refine reads_operands.mpr ⟨_, _, ?_, reads_operatorStep_closed hclosed⟩
  refine h.starts.reads_operand hlast hspace hts fun t us hus => ?_
  subst hus
  obtain ⟨u, vs, heq, hread⟩ := h.leads _ [last] hts (by simp [hlast])
    (reads_foldWhile.mpr (Or.inl ⟨by simp [memberPathStep, hlast], rfl, rfl⟩))
  obtain ⟨rfl, rfl⟩ := List.cons.inj heq
  rw [hlimit] at hread
  exact reads_memberPath_of_pathFrom outer hread

end ODataRequest
