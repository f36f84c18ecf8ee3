import ODataRequest.Proofs.Text.Enclosed

/-!
# ODataRequest.Proofs.Text.Splitting

Splitting at the top level is the inverse of joining (`splitTopLevel_inverse`). What no part may have
in it is said by places: a separator stands outside (`StandsOutside`) if a scan of what is in front of
it ends outside of all parentheses and quotes. A text without such a place is unbroken and the other
way round, so the parts that a text is split into are those that are not split any more.
-/

namespace ODataRequest.Text

variable {sep : Char} {s : Nesting} {cs : List Char}

/-! ### Places of separators -/

/-- The separator stands in the text at a place outside of all parentheses and quotes. -/
def StandsOutside (sep : Char) (cs : List Char) : Prop :=
  ∃ front back, cs = front ++ sep :: back ∧ Nesting.outermost.scan front = .outermost

/-- Every character but a quote or a parenthesis separates where it stands outside. -/
theorem separates_outermost (hsep : sep ∉ ['\'', '(', ')']) :
    separates sep .outermost sep = true := by
  simp only [List.mem_cons, List.not_mem_nil, or_false, not_or] at hsep
  simp [separates, hsep]

theorem eq_of_separates {c : Char} (h : separates sep s c = true) : c = sep ∧ s = .outermost := by
  simp only [separates, Bool.and_eq_true, beq_iff_eq] at h
  exact h.1.1.1

/-- A text is unbroken if a scan of it meets no separator outside of all parentheses and quotes. -/
theorem unbroken_iff (hsep : separates sep .outermost sep = true) :
    Unbroken sep s cs ↔ ∀ front back, cs = front ++ sep :: back → s.scan front ≠ .outermost := by
  constructor
  · rintro h front back rfl hscan
    obtain ⟨hseparates, -⟩ := (unbroken_append.mp h).2
    rw [hscan, hsep] at hseparates
    cases hseparates
  · intro h
    induction cs generalizing s with
    | nil => trivial
    | cons c cs ih =>
      refine ⟨?_, ih fun front back hcs => h (c :: front) back (by rw [hcs, List.cons_append])⟩
      by_contra hseparates
      obtain ⟨rfl, hs⟩ := eq_of_separates (eq_true_of_ne_false hseparates)
      exact h [] cs rfl hs

theorem unbroken_iff_not_standsOutside (hsep : separates sep .outermost sep = true) :
    Unbroken sep .outermost cs ↔ ¬StandsOutside sep cs := by
  rw [unbroken_iff hsep]
  constructor
  · rintro h ⟨front, back, hcs, hscan⟩
    exact h front back hcs hscan
  · intro h front back hcs hscan
    exact h ⟨front, back, hcs, hscan⟩

/-! ### The parts of a text -/

/-- A part is unbroken from where its scan starts: the first one where the scan of the text does, and
the later ones outside of all parentheses and quotes. -/
theorem unbroken_parts {part : List Char} {parts : List (List Char)}
    (h : splitFrom sep s cs = part :: parts) :
    Unbroken sep s part ∧ ∀ p ∈ parts, Unbroken sep .outermost p := by
  induction cs generalizing s part parts with
  | nil =>
    cases h
    exact ⟨trivial, List.forall_mem_nil _⟩
  | cons c cs ih =>
    by_cases hseparates : separates sep s c = true
    · obtain ⟨next, others, hnext⟩ := List.exists_cons_of_ne_nil (splitFrom_ne_nil sep s cs)
      rw [splitFrom, if_pos hseparates, hnext] at h
      obtain ⟨rfl, rfl⟩ := List.cons.inj h
      obtain ⟨hfirst, hothers⟩ := ih hnext
      rw [(eq_of_separates hseparates).2] at hfirst
      exact ⟨trivial, List.forall_mem_cons.mpr ⟨hfirst, hothers⟩⟩
    · rw [Bool.not_eq_true] at hseparates
      obtain ⟨rest, others, hrest, hsplit⟩ := splitFrom_cons hseparates cs
      rw [hsplit] at h
      obtain ⟨rfl, rfl⟩ := List.cons.inj h
      obtain ⟨hfirst, hothers⟩ := ih hrest
      exact ⟨⟨hseparates, hfirst⟩, hothers⟩

theorem unbroken_of_mem_splitTopLevel {part : List Char} (h : part ∈ splitTopLevel sep cs) :
    Unbroken sep .outermost part := by
  obtain ⟨first, others, hsplit⟩ :=
    List.exists_cons_of_ne_nil (splitFrom_ne_nil sep .outermost cs)
  obtain ⟨hfirst, hothers⟩ := unbroken_parts hsplit
  rw [splitTopLevel, hsplit] at h
  obtain rfl | h := List.mem_cons.mp h
  · exact hfirst
  · exact hothers part h

/-- The parts that a text is split into make it up again, whatever the separator is. Where it is no
quote and no parenthesis, parts in which everything is closed that is opened, and which have no
separator outside of it, are split into themselves when they are joined; and the parts of any text
have no separator outside of parentheses and quotes. -/
theorem splitTopLevel_inverse (sep : Char) :
    (∀ cs, joined sep (splitTopLevel sep cs) = cs) ∧
      (sep ∉ ['\'', '(', ')'] →
        (∀ parts : List (List Char), parts ≠ [] →
          (∀ part ∈ parts,
            Nesting.outermost.scan part = .outermost ∧ ¬StandsOutside sep part) →
          splitTopLevel sep (joined sep parts) = parts) ∧
        ∀ cs, ∀ part ∈ splitTopLevel sep cs, ¬StandsOutside sep part) := by
  refine ⟨joined_splitFrom sep .outermost, fun hsep => ⟨fun parts hne hparts => ?_, ?_⟩⟩
  · have hseparates := separates_outermost hsep
    refine splitTopLevel_joined hseparates (fun part hpart => ?_) hne
    obtain ⟨closed, hnone⟩ := hparts part hpart
    exact ⟨(unbroken_iff_not_standsOutside hseparates).mpr hnone, closed⟩
  · intro cs part hpart
    exact (unbroken_iff_not_standsOutside (separates_outermost hsep)).mp
      (unbroken_of_mem_splitTopLevel hpart)

/-- Items with commas in quotes and in parentheses, and an umlaut in front of a separator. -/
def quotedItems : List (List Char) :=
  ["Länder".toList, "B($select=C,D;$search=')')".toList, "".toList, "'it''s,x'".toList]

/-- No comma of an item separates it. In the other text a parenthesis is closed that has not been opened,
which is passed over, and one that is opened stays open. -/
theorem splitTopLevel_inverse_quotedItems :
    ',' ∉ ['\'', '(', ')'] ∧ quotedItems ≠ [] ∧
      (∀ part ∈ quotedItems,
        Nesting.outermost.scan part = .outermost ∧ ¬StandsOutside ',' part) ∧
      splitTopLevel ',' (joined ',' quotedItems) = quotedItems ∧
      joined ',' (splitTopLevel ',' "a),(b,c".toList) = "a),(b,c".toList ∧
      splitTopLevel ',' "a),(b,c".toList = ["a)".toList, "(b,c".toList] ∧
      ¬StandsOutside ',' "(b,c".toList := by
  have hsep : ',' ∉ ['\'', '(', ')'] := by decide
  obtain ⟨hjoined, hparts⟩ := splitTopLevel_inverse ','
  obtain ⟨hsplit, houtside⟩ := hparts hsep
  have hall : ∀ part ∈ quotedItems,
      Nesting.outermost.scan part = .outermost ∧ splitTopLevel ',' part = [part] := by decide +kernel
  have hitems : ∀ part ∈ quotedItems,
      Nesting.outermost.scan part = .outermost ∧ ¬StandsOutside ',' part := by
    intro part hpart
    obtain ⟨closed, halone⟩ := hall part hpart
    exact ⟨closed, houtside part part (by simp [halone])⟩
  have hopen : splitTopLevel ',' "a),(b,c".toList = ["a)".toList, "(b,c".toList] := by decide +kernel
  refine ⟨hsep, by decide, hitems, hsplit quotedItems (by decide) hitems, hjoined _, hopen, ?_⟩
  refine houtside "a),(b,c".toList _ ?_
  rw [hopen]
  exact List.mem_cons_of_mem _ List.mem_cons_self

end ODataRequest.Text
