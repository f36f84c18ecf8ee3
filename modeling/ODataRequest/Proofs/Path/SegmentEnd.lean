import ODataRequest.Proofs.Path.CallTokens
import ODataRequest.Proofs.Token.Balanced

/-!
# ODataRequest.Proofs.Path.SegmentEnd

Where a segment ends. A segment is a single word, or it ends with the parenthesis that closes its
arguments or its key (`EndsGroup`). A slash that separates no segments therefore never has a plain name
behind it up to the end of a segment (`not_gives_firstSegment_slash`, `not_gives_nextSegment_slash`).
-/

namespace ODataRequest

open TokenReader

variable {answers : Answers} {aliases : AliasTable} {source : String} {ts us rest : List Token}

/-! ### Words -/

namespace Lexeme

variable {c : Char} {cs : List Char} {n : Nat}

/-- There is no slash in an identifier and none behind a dollar sign. -/
theorem lexeme?_slash_not_mem {kind : TokenKind} (h : lexeme? c cs = some (kind, n))
    (hkind : kind = .dollar ∨ kind = .identifier) : '/' ∉ c :: cs.take n := by
  have hfirst : '/' ≠ c := by
    rintro rfl
    cases h
    rcases hkind with hkind | hkind <;> cases hkind
  refine List.not_mem_cons_of_ne_of_not_mem hfirst ?_
  cases lexemeForm h with
  | punctuation hmark => rcases hkind with rfl | rfl <;> cases punctuation?_text hmark
  | quoted | parameterAlias | minus | number => rcases hkind with hkind | hkind <;> cases hkind
  | dollar => exact Text.not_mem_of_forall (fun x hx => mem_take_runLength hx) (by decide)
  | word _ hword =>
    cases hword with
    | quotedLiteral | enumLiteral | literal | guid =>
      rcases hkind with hkind | hkind <;> cases hkind
    | identifier =>
      exact Text.not_mem_of_forall (fun x hx => isWordPart_of_mem_take hx) (by decide)

theorem isWordPart_of_isSpace (h : isSpace c = true) : isWordPart c = false := by
  rw [isSpace, Bool.or_eq_true, beq_iff_eq, beq_iff_eq] at h
  rcases h with rfl | rfl <;> decide

/-- Behind the last parenthesis of a text there is only blank space. -/
theorem tokensFrom_closing {closing : Token} (hclosing : closing.kind = .closeParen)
    (hend : (firstToken rest).kind = .endOfText) {offset : Nat} {spaced : Bool}
    (h : tokensFrom offset spaced cs = some (us ++ closing :: rest)) :
    ∃ front gap, cs = front ++ ')' :: gap ∧ ∀ c ∈ gap, isSpace c = true := by
  induction us generalizing offset spaced cs with
  | nil =>
    obtain ⟨gap, c, behind, n, offset', rfl, -, hlexeme, hrest⟩ :=
      tokensFrom_eq_cons h (by rw [hclosing]; decide)
    have htext : c :: behind.take n = [')'] := lexeme?_text hlexeme (by rw [hclosing]; rfl)
    refine ⟨gap, behind.drop n, ?_, isSpace_of_tokensFrom hrest hend⟩
    rw [htext, List.singleton_append]
  | cons u us ih =>
    -- the token for the end of a text is the last one
    have hu : u.kind ≠ .endOfText := by
      obtain ⟨vs, last, hvs, -, hkinds⟩ := tokensFrom_eq_append h
      cases vs with
      | nil => simp at hvs
      | cons v vs =>
        cases (List.cons.inj hvs).1
        exact hkinds u List.mem_cons_self
    obtain ⟨gap, c, behind, n, offset', rfl, -, -, hrest⟩ := tokensFrom_eq_cons h hu
    obtain ⟨front, gap', hsplit, hgap'⟩ := ih hrest
    refine ⟨gap ++ (c :: behind.take n ++ front), gap', ?_, hgap'⟩
    rw [hsplit]
    simp

end Lexeme

/-! ### Groups -/

/-- What stands in front of the rest ends with a closing parenthesis, or nothing does. -/
def EndsGroup (ts rest : List Token) : Prop :=
  ts = rest ∨ ∃ us closing, ts = us ++ closing :: rest ∧ closing.kind = .closeParen

namespace EndsGroup

theorem trans (h : EndsGroup ts us) (h' : EndsGroup us rest) : EndsGroup ts rest := by
  rcases h with rfl | ⟨front, closing, rfl, hclosing⟩
  · exact h'
  · rcases h' with rfl | ⟨front', closing', rfl, hclosing'⟩
    · exact Or.inr ⟨front, closing, rfl, hclosing⟩
    · exact Or.inr ⟨front ++ closing :: front', closing', by simp, hclosing'⟩

theorem of_argumentTokens {pairs : List (String × Word)} (h : ArgumentTokens ts pairs rest) :
    EndsGroup ts rest := by
  cases h with
  | @empty opening closing _ _ closes => exact Or.inr ⟨[opening], closing, rfl, closes⟩
  | @named opening closing us _ _ _ closes _ => exact Or.inr ⟨opening :: us, closing, rfl, closes⟩

theorem of_keyed {Allowed : EntityType → Prop} {plain r : Resource}
    (h : Keyed answers aliases Allowed plain source ts r rest) : EndsGroup ts rest := by
  cases h with
  | without => exact Or.inl rfl
  | withKey _ reads =>
    obtain ⟨opening, us, closing, rfl, -, hclosing, -⟩ := reads_key_iff.mp reads
    exact Or.inr ⟨opening :: us, closing, rfl, hclosing⟩

theorem of_calledFunction {byImport : Option Csdl.FunctionImport} {missing : SemanticError}
    {find : List String → Resolution (Option Function)} {r : Resource}
    (h : Reads answers (calledFunction aliases byImport missing find) source ts r rest) :
    EndsGroup ts rest := by
  obtain ⟨raw, between, f, hraw, -, hfunction⟩ := reads_calledFunction_iff.mp h
  obtain ⟨arguments, returnType, -, -, hkeyed⟩ := reads_functionResource_iff.mp hfunction
  exact (of_argumentTokens (ArgumentTokens.of_reads hraw).1).trans (of_keyed hkeyed)

theorem of_calledOperation {noFunction noAction : SemanticError}
    {findFunction : QualifiedName → List String → Resolution (Option Function)}
    {findAction : QualifiedName → Resolution (Option Action)} {name : QualifiedName} {r : Resource}
    (h : Reads answers (calledOperation aliases noFunction noAction findFunction findAction name)
      source ts r rest) : EndsGroup ts rest := by
  unfold calledOperation at h
  rcases reads_ifSees.mp h with ⟨-, h⟩ | ⟨-, h⟩
  · exact of_calledFunction h
  · obtain ⟨a, -, -, rfl⟩ := reads_calledAction_iff.mp h
    exact Or.inl rfl

theorem of_importedAction {missing : SemanticError} {byImport : Csdl.ActionImport} {r : Resource}
    (h : Reads answers (importedAction missing byImport) source ts r rest) : EndsGroup ts rest := by
  unfold importedAction at h
  obtain ⟨a, -, h⟩ := reads_require_bind.mp h
  simp only [reads_bind, reads_lift, reads_ite] at h
  obtain ⟨skipped, between, hskips, ⟨rfl, closing, left, hexpect, -, rfl⟩ | ⟨hnone, -, rfl⟩⟩ := h
  · obtain ⟨rfl, hclosing⟩ := (reads_expect (by decide)).mp hexpect
    rcases (reads_skips (by decide)).mp hskips with ⟨-, opening, rfl, -⟩ | ⟨hskipped, -⟩
    · exact Or.inr ⟨[opening], closing, rfl, hclosing⟩
    · cases hskipped
  · rcases (reads_skips (by decide)).mp hskips with ⟨rfl, -⟩ | ⟨-, -, rfl⟩
    · exact absurd rfl hnone
    · exact Or.inl rfl

theorem of_containerResource {c : Container} {name : String} {r : Resource}
    (h : Reads answers (containerResource aliases c name) source ts r rest) : EndsGroup ts rest := by
  have helement := containerResource_element aliases c name
  generalize containerResource aliases c name = reader at h helement
  cases helement with
  | entitySet found =>
    obtain ⟨type, -, hkeyed⟩ := reads_entitySetResource_iff.mp h
    exact of_keyed hkeyed
  | singleton found =>
    rcases reads_ifSees.mp h with ⟨-, h⟩ | ⟨-, h⟩
    · exact absurd (reads_lift.mp h).1 Resolution.not_gives_reject
    · obtain ⟨-, rfl⟩ := reads_lift.mp h
      exact Or.inl rfl
  | actionImport found => exact of_importedAction h
  | functionImport found => exact of_calledFunction h
  | missing => exact absurd (reads_lift.mp h).1 Resolution.not_gives_reject

/-- Behind the word of the first segment there are groups. -/
theorem of_firstSegment {r : Resource} (h : Reads answers (firstSegment aliases) source ts r rest) :
    ∃ t us, ts = t :: us ∧ t.kind = .identifier ∧ EndsGroup us rest := by
  obtain ⟨t, us, rfl, hkind, ⟨-, h⟩ | ⟨-, container, -, h⟩⟩ := reads_firstSegment_iff.mp h
  · obtain ⟨name, -, h⟩ := reads_unboundOperation_iff.mp h
    exact ⟨t, us, rfl, hkind, of_calledOperation h⟩
  · exact ⟨t, us, rfl, hkind, of_containerResource h⟩

/-- Behind the word of a further segment there are groups. -/
theorem of_nextSegment {previous : Resource} {effect : SegmentEffect}
    (h : Reads answers (nextSegment aliases previous) source ts effect rest) :
    ∃ t us, ts = t :: us ∧ (t.kind = .dollar ∨ t.kind = .identifier) ∧ EndsGroup us rest := by
  obtain ⟨t, us, rfl, -, ⟨hkind, next, -, rfl, rfl⟩ | ⟨hkind, -, h⟩ |
    ⟨hkind, -, next, hproperty, rfl⟩⟩ := reads_nextSegment_iff.mp h
  · exact ⟨t, _, rfl, Or.inl hkind, Or.inl rfl⟩
  · refine ⟨t, us, rfl, Or.inr hkind, ?_⟩
    obtain ⟨name, owner, -, -, ⟨type, last, -, hcast, rfl⟩ | ⟨-, next, hoperation, rfl⟩⟩ :=
      reads_qualifiedSegment_iff.mp h
    · obtain ⟨narrowed, -, hkeyed⟩ := reads_castSegment_iff.mp hcast
      exact of_keyed hkeyed
    · rw [boundOperation_eq] at hoperation
      exact of_calledOperation hoperation
  · obtain ⟨found, -, hkeyed⟩ := reads_propertySegment_iff.mp hproperty
    exact ⟨t, us, rfl, Or.inr hkind, of_keyed hkeyed⟩

end EndsGroup

/-! ### Slashes -/

/-- The tokens of a text that ends with a slash and a name are no word with groups behind it. -/
theorem not_endsGroup_of_slash {front name : String} (hname : IsName name) {t : Token}
    (htokens : tokenize (front ++ "/" ++ name) = .ok (t :: us))
    (hkind : t.kind = .dollar ∨ t.kind = .identifier) (hends : EndsGroup us rest)
    (hend : (firstToken rest).kind = .endOfText) : False := by
  rw [tokenize_eq_ok] at htokens
  have hparts : ∀ c ∈ name.toList, Lexeme.isWordPart c = true := hname.dotted.isWordPart
  rcases hends with rfl | ⟨others, closing, rfl, hclosing⟩
  · -- a single word would have the slash in it
    obtain ⟨gap, c, behind, n, offset, hsplit, hgap, hlexeme, hrest⟩ :=
      Lexeme.tokensFrom_eq_cons htokens (by rcases hkind with hkind | hkind <;> rw [hkind] <;> decide)
    have hslash : '/' ∈ gap ++ (c :: behind.take n ++ behind.drop n) := by
      rw [← hsplit]
      simp
    rw [List.mem_append, List.mem_append] at hslash
    rcases hslash with hslash | hslash | hslash
    · exact absurd (hgap _ hslash) (by decide)
    · exact Lexeme.lexeme?_slash_not_mem hlexeme hkind hslash
    · exact absurd (Lexeme.isSpace_of_tokensFrom hrest hend _ hslash) (by decide)
  · -- a group would end behind the name
    have hcut : Lexeme.tokensFrom 0 false (front ++ "/" ++ name).toList =
        some ((t :: others) ++ closing :: rest) := htokens
    obtain ⟨cs, gap, hsplit, hgap⟩ := Lexeme.tokensFrom_closing hclosing hend hcut
    have hlast : (front ++ "/" ++ name).toList.getLast? = (')' :: gap).getLast? := by
      rw [hsplit, List.getLast?_append_of_ne_nil _ (List.cons_ne_nil _ _)]
    have hne : name.toList ≠ [] := by
      obtain ⟨c, cs, hchars, -⟩ := hname.dotted.start
      simp [hchars]
    rw [String.toList_append, List.getLast?_append_of_ne_nil _ hne] at hlast
    have hpart := hparts _ (List.getLast_mem hne)
    rw [List.getLast?_eq_some_getLast hne] at hlast
    rcases List.mem_cons.mp (List.mem_of_getLast? hlast.symm) with hc | hc
    · rw [hc] at hpart
      exact absurd hpart (by decide)
    · rw [Lexeme.isWordPart_of_isSpace (hgap _ hc)] at hpart
      cases hpart

/-- No first segment goes on with a slash and a name up to its end. -/
theorem not_gives_firstSegment_slash {front name : String} (hname : IsName name) {r : Resource} :
    ¬(readAll (firstSegment aliases) (front ++ "/" ++ name)).Gives answers r := by
  intro h
  obtain ⟨ts, rest, htokens, hreads, hend⟩ := gives_readAll.mp h
  obtain ⟨t, us, rfl, hkind, hends⟩ := EndsGroup.of_firstSegment hreads
  exact not_endsGroup_of_slash hname htokens (Or.inr hkind) hends hend

/-- No further segment goes on with a slash and a name up to its end. -/
theorem not_gives_nextSegment_slash {front name : String} (hname : IsName name) {previous : Resource}
    {effect : SegmentEffect} :
    ¬(readAll (nextSegment aliases previous) (front ++ "/" ++ name)).Gives answers effect := by
  intro h
  obtain ⟨ts, rest, htokens, hreads, hend⟩ := gives_readAll.mp h
  obtain ⟨t, us, rfl, hkind, hends⟩ := EndsGroup.of_nextSegment hreads
  exact not_endsGroup_of_slash hname htokens hkind hends hend

end ODataRequest
