import ODataRequest.Proofs.Text.Cut
import ODataRequest.Proofs.Text.Percent

/-!
# ODataRequest.Proofs.Text.TopLevel

Splitting undoes joining. A text is one *part* if nothing in it separates and the scan ends outside
of all parentheses and quotes; texts of this kind with separators between them are split into
themselves (`splitTopLevel_joined`). Quoted text and groups in parentheses are parts, whatever
they hold. Splitting does not see whether percent signs are escaped (`splitFrom_escapePercents`).
-/

namespace ODataRequest.Text

variable {sep : Char} {s : Nesting} {cs ds : List Char}

/-! ### Parts -/

/-- No character of the text separates, where the scan starts from the nesting `s`. -/
def Unbroken (sep : Char) : Nesting → List Char → Prop
  | _, [] => True
  | s, c :: cs => separates sep s c = false ∧ Unbroken sep (s.advance c) cs

theorem unbroken_append :
    Unbroken sep s (cs ++ ds) ↔ Unbroken sep s cs ∧ Unbroken sep (s.scan cs) ds := by
  induction cs generalizing s with
  | nil => simp [Unbroken, Nesting.scan]
  | cons c cs ih =>
    rw [List.cons_append, Unbroken, Unbroken, ih, and_assoc]
    rfl

theorem unbroken_of_not_mem (h : sep ∉ cs) : Unbroken sep s cs := by
  induction cs generalizing s with
  | nil => trivial
  | cons c cs ih =>
    rw [List.mem_cons, not_or] at h
    have hne : c ≠ sep := fun heq => h.1 heq.symm
    exact ⟨by simp [separates, hne], ih h.2⟩

theorem splitFrom_unbroken (h : Unbroken sep s cs) : splitFrom sep s cs = [cs] := by
  induction cs generalizing s with
  | nil => rfl
  | cons c cs ih =>
    obtain ⟨hc, h⟩ := h
    simp [splitFrom, hc, ih h]

/-- A part ends at the separator behind it. -/
theorem splitFrom_append (hsep : separates sep .outermost sep = true) (h : Unbroken sep s cs)
    (closed : s.scan cs = .outermost) (ds : List Char) :
    splitFrom sep s (cs ++ sep :: ds) = cs :: splitFrom sep .outermost ds := by
  induction cs generalizing s with
  | nil =>
    have hs : s = .outermost := closed
    simp [hs, splitFrom, hsep]
  | cons c cs ih =>
    obtain ⟨hc, h⟩ := h
    simp [splitFrom, hc, ih h closed]

/-- The text is not split, and everything that is opened in it is closed. -/
structure IsPart (sep : Char) (cs : List Char) : Prop where
  unbroken : Unbroken sep .outermost cs
  closed : Nesting.outermost.scan cs = .outermost

theorem IsPart.append (h : IsPart sep cs) (h' : IsPart sep ds) : IsPart sep (cs ++ ds) where
  unbroken := unbroken_append.mpr ⟨h.unbroken, by rw [h.closed]; exact h'.unbroken⟩
  closed := by rw [Nesting.scan_append, h.closed, h'.closed]

/-- Parts with separators between them are split into these parts. -/
theorem splitTopLevel_joined (hsep : separates sep .outermost sep = true)
    {parts : List (List Char)} (hparts : ∀ part ∈ parts, IsPart sep part) (hne : parts ≠ []) :
    splitTopLevel sep (joined sep parts) = parts := by
  unfold splitTopLevel
  induction parts with
  | nil => exact absurd rfl hne
  | cons part parts ih =>
    have hpart := hparts part List.mem_cons_self
    cases parts with
    | nil => exact splitFrom_unbroken hpart.unbroken
    | cons next parts =>
      have ih := ih (fun p hp => hparts p (List.mem_cons_of_mem part hp)) (List.cons_ne_nil _ _)
      rw [joined_cons_cons, splitFrom_append hsep hpart.unbroken hpart.closed, ih]

/-! ### Quotes and groups -/

/-- A text whose quotes are closed, with no parentheses and no semicolons outside of them. -/
inductive Calm : List Char → Prop
  | nil : Calm []
  | plain {c : Char} {cs : List Char} (quote : c ≠ '\'') (opening : c ≠ '(') (closing : c ≠ ')')
      (semicolon : c ≠ ';') (rest : Calm cs) : Calm (c :: cs)
  | quoted {text cs : List Char} (inside : '\'' ∉ text) (rest : Calm cs) :
      Calm ('\'' :: (text ++ '\'' :: cs))

namespace Calm

theorem of_forall (h : ∀ c ∈ cs, c ≠ '\'' ∧ c ≠ '(' ∧ c ≠ ')' ∧ c ≠ ';') : Calm cs := by
  induction cs with
  | nil => exact .nil
  | cons c cs ih =>
    obtain ⟨hquote, hopening, hclosing, hsemicolon⟩ := h c List.mem_cons_self
    exact .plain hquote hopening hclosing hsemicolon
      (ih fun d hd => h d (List.mem_cons_of_mem c hd))

theorem append (h : Calm cs) (h' : Calm ds) : Calm (cs ++ ds) := by
  induction h with
  | nil => exact h'
  | plain quote opening closing semicolon _ ih =>
    exact .plain quote opening closing semicolon ih
  | @quoted text cs inside _ ih =>
    rw [List.cons_append, List.append_assoc, List.cons_append]
    exact .quoted inside ih

/-- A text with none of the four characters. -/
theorem of_all (h : (cs.all fun c => c != '\'' && c != '(' && c != ')' && c != ';') = true) :
    Calm cs := by
  simp only [List.all_eq_true, Bool.and_eq_true, bne_iff_ne, and_assoc] at h
  exact of_forall h

/-- Inside of quotes a scan stays where it is. -/
theorem scan_inside {text : List Char} (h : '\'' ∉ text) (depth : Nat) :
    Nesting.scan ⟨depth, true⟩ text = ⟨depth, true⟩ := by
  induction text with
  | nil => rfl
  | cons c text ih =>
    rw [List.mem_cons, not_or] at h
    have hne : c ≠ '\'' := fun heq => h.1 heq.symm
    have hadvance : Nesting.advance ⟨depth, true⟩ c = ⟨depth, true⟩ := by
      simp [Nesting.advance, hne]
    show Nesting.scan (Nesting.advance ⟨depth, true⟩ c) text = _
    rw [hadvance, ih h.2]

theorem scan (h : Calm cs) (depth : Nat) : Nesting.scan ⟨depth, false⟩ cs = ⟨depth, false⟩ := by
  induction h with
  | nil => rfl
  | @plain c cs quote opening closing semicolon _ ih =>
    have hadvance : Nesting.advance ⟨depth, false⟩ c = ⟨depth, false⟩ := by
      simp [Nesting.advance, quote, opening, closing]
    show Nesting.scan (Nesting.advance ⟨depth, false⟩ c) cs = _
    rw [hadvance, ih]
  | @quoted text cs inside _ ih =>
    show Nesting.scan ⟨depth, true⟩ (text ++ '\'' :: cs) = _
    rw [Nesting.scan_append, scan_inside inside]
    exact ih

/-- Only outside of all parentheses and quotes anything separates. -/
theorem unbroken_inside {text : List Char} (h : '\'' ∉ text) (depth : Nat) :
    Unbroken sep ⟨depth, true⟩ text := by
  induction text with
  | nil => trivial
  | cons c text ih =>
    rw [List.mem_cons, not_or] at h
    have hne : c ≠ '\'' := fun heq => h.1 heq.symm
    refine ⟨by simp [separates, Nesting.outermost], ?_⟩
    simpa [Nesting.advance, hne] using ih h.2

/-- Between parentheses nothing separates. -/
theorem unbroken (h : Calm cs) (depth : Nat) : Unbroken sep ⟨depth + 1, false⟩ cs := by
  induction h with
  | nil => trivial
  | @plain c cs quote opening closing semicolon _ ih =>
    refine ⟨by simp [separates, Nesting.outermost], ?_⟩
    simpa [Nesting.advance, quote, opening, closing] using ih
  | @quoted text cs inside _ ih =>
    refine ⟨by simp [separates], ?_⟩
    show Unbroken sep ⟨depth + 1, true⟩ (text ++ '\'' :: cs)
    rw [unbroken_append, scan_inside inside]
    exact ⟨unbroken_inside inside _, by simp [separates], ih⟩

theorem isPart_of_not_mem (h : Calm cs) (hsep : sep ∉ cs) : IsPart sep cs :=
  ⟨unbroken_of_not_mem hsep, h.scan 0⟩

/-- A group in parentheses is one part. -/
theorem isPart_group (h : Calm cs) : IsPart sep ('(' :: (cs ++ [')'])) where
  unbroken := by
    refine ⟨by simp [separates], ?_⟩
    show Unbroken sep ⟨0 + 1, false⟩ (cs ++ [')'])
    rw [unbroken_append]
    exact ⟨h.unbroken 0, by simp [separates], trivial⟩
  closed := by
    show Nesting.scan ⟨0 + 1, false⟩ (cs ++ [')']) = _
    rw [Nesting.scan_append, h.scan]
    rfl

end Calm

/-! ### Percent signs -/

/-- A character that does not separate belongs to the first part. -/
theorem splitFrom_cons {c : Char} (h : separates sep s c = false) (cs : List Char) :
    ∃ part parts, splitFrom sep (s.advance c) cs = part :: parts ∧
      splitFrom sep s (c :: cs) = (c :: part) :: parts := by
  cases hsplit : splitFrom sep (s.advance c) cs with
  | nil => exact absurd hsplit (splitFrom_ne_nil _ _ _)
  | cons part parts => exact ⟨part, parts, rfl, by simp [splitFrom, h, hsplit]⟩

/-- Where one text goes on with another one, the last part of the first goes on with the first part of the
second, which is split from where the scan of the first ends. -/
theorem exists_splitFrom_append (sep : Char) (s : Nesting) (cs ds : List Char) :
    ∃ front last part parts, splitFrom sep s cs = front ++ [last] ∧
      splitFrom sep (s.scan cs) ds = part :: parts ∧
      splitFrom sep s (cs ++ ds) = front ++ (last ++ part) :: parts := by
  induction cs generalizing s with
  | nil =>
    obtain ⟨part, parts, hparts⟩ := List.exists_cons_of_ne_nil (splitFrom_ne_nil sep s ds)
    exact ⟨[], [], part, parts, rfl, hparts, hparts⟩
  | cons c cs ih =>
    obtain ⟨front, last, part, parts, hcs, hds, hwhole⟩ := ih (s.advance c)
    by_cases hseparates : separates sep s c = true
    · have hadvance : s.advance c = s := by
        simp only [separates, Bool.and_eq_true, bne_iff_ne] at hseparates
        simp [Nesting.advance, hseparates]
      rw [hadvance] at hcs hwhole
      exact ⟨[] :: front, last, part, parts, by simp [splitFrom, hseparates, hcs], hds,
        by simp [splitFrom, hseparates, hwhole]⟩
    · rw [Bool.not_eq_true] at hseparates
      cases front with
      | nil => exact ⟨[], c :: last, part, parts, by simp [splitFrom, hseparates, hcs], hds,
          by simp [splitFrom, hseparates, hwhole]⟩
      | cons first front => exact ⟨(c :: first) :: front, last, part, parts,
          by simp [splitFrom, hseparates, hcs], hds, by simp [splitFrom, hseparates, hwhole]⟩

/-- Percent signs may be escaped before a text is split or after it. -/
theorem splitFrom_escapePercents (hsep : sep ∉ ['%', '2', '5']) (s : Nesting) (cs : List Char) :
    splitFrom sep s (escapePercents cs) = (splitFrom sep s cs).map escapePercents := by
  simp only [List.mem_cons, List.not_mem_nil, or_false, not_or] at hsep
  obtain ⟨hpercent, htwo, hfive⟩ := hsep
  induction cs generalizing s with
  | nil => rfl
  | cons c cs ih =>
    rw [escapePercents_cons]
    by_cases hc : c = '%'
    · -- none of the characters of the escape separates or opens anything
      subst hc
      have hadvance : s.advance '%' = s ∧ s.advance '2' = s ∧ s.advance '5' = s := by
        simp [Nesting.advance]
      have hseparates : separates sep s '%' = false := by simp [separates, Ne.symm hpercent]
      obtain ⟨part, parts, hrest, hsplit⟩ := splitFrom_cons hseparates cs
      rw [hadvance.1] at hrest
      rw [hsplit, if_pos rfl]
      simp [splitFrom, separates, hadvance, Ne.symm hpercent, Ne.symm htwo, Ne.symm hfive, ih,
        hrest, escapePercents_cons]
    · rw [if_neg hc, List.singleton_append]
      by_cases hseparates : separates sep s c = true
      · have hnil : escapePercents [] = [] := rfl
        simp [splitFrom, hseparates, ih, hnil]
      · rw [Bool.not_eq_true] at hseparates
        obtain ⟨part, parts, hrest, hsplit⟩ := splitFrom_cons hseparates cs
        simp [splitFrom, hseparates, ih, hrest, escapePercents_cons, hc]

end ODataRequest.Text
