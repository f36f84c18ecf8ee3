import ODataRequest.Proofs.Text.TopLevel

/-!
# ODataRequest.Proofs.Text.Enclosed

Texts in which every quote and every parenthesis is closed again, groups inside of groups included
(`Enclosed`). A scan comes out of such a text where it went in, whatever the depth, so nothing
between parentheses separates (`Enclosed.isPart_group`); and since no semicolon stands outside of
quotes, none of them separates at all (`Enclosed.isPart_semicolon`).
-/

namespace ODataRequest.Text

variable {sep : Char} {cs ds : List Char}

/-- Every quote and every parenthesis is closed, and no semicolon stands outside of quotes. -/
inductive Enclosed : List Char → Prop
  | nil : Enclosed []
  | calm {cs ds : List Char} (first : Calm cs) (rest : Enclosed ds) : Enclosed (cs ++ ds)
  | group {cs ds : List Char} (inside : Enclosed cs) (rest : Enclosed ds) :
      Enclosed ('(' :: (cs ++ ')' :: ds))

theorem Calm.enclosed (h : Calm cs) : Enclosed cs := by
  have happend : Enclosed (cs ++ []) := .calm h .nil
  rwa [List.append_nil] at happend

/-- No semicolon of a calm text separates, for it stands in quotes. -/
theorem Calm.unbroken_semicolon (h : Calm cs) (depth : Nat) : Unbroken ';' ⟨depth, false⟩ cs := by
  induction h with
  | nil => trivial
  | @plain c cs quote opening closing semicolon _ ih =>
    refine ⟨by simp [separates, semicolon], ?_⟩
    simpa [Nesting.advance, quote, opening, closing] using ih
  | @quoted text cs inside _ ih =>
    refine ⟨by simp [separates], ?_⟩
    show Unbroken ';' ⟨depth, true⟩ (text ++ '\'' :: cs)
    rw [unbroken_append, Calm.scan_inside inside]
    exact ⟨Calm.unbroken_inside inside _, by simp [separates], ih⟩

namespace Enclosed

theorem append (h : Enclosed cs) (h' : Enclosed ds) : Enclosed (cs ++ ds) := by
  induction h with
  | nil => exact h'
  | calm first _ ih =>
    rw [List.append_assoc]
    exact .calm first ih
  | group inside _ _ ih =>
    rw [List.cons_append, List.append_assoc, List.cons_append]
    exact .group inside ih

/-- A scan comes out where it went in. -/
theorem scan (h : Enclosed cs) (depth : Nat) :
    Nesting.scan ⟨depth, false⟩ cs = ⟨depth, false⟩ := by
  induction h generalizing depth with
  | nil => rfl
  | calm first _ ih => rw [Nesting.scan_append, first.scan, ih]
  | @group cs ds _ _ ihInside ihRest =>
    show Nesting.scan ⟨depth + 1, false⟩ (cs ++ ')' :: ds) = _
    rw [Nesting.scan_append, ihInside]
    exact ihRest depth

/-- Between parentheses nothing separates. -/
theorem unbroken (h : Enclosed cs) (depth : Nat) : Unbroken sep ⟨depth + 1, false⟩ cs := by
  induction h generalizing depth with
  | nil => trivial
  | calm first _ ih =>
    rw [unbroken_append, first.scan]
    exact ⟨first.unbroken depth, ih depth⟩
  | @group cs ds inside _ ihInside ihRest =>
    refine ⟨by simp [separates], ?_⟩
    show Unbroken sep ⟨depth + 1 + 1, false⟩ (cs ++ ')' :: ds)
    rw [unbroken_append, inside.scan]
    exact ⟨ihInside (depth + 1), by simp [separates], ihRest depth⟩

/-- Between parentheses nothing separates, the semicolons between such texts included. -/
theorem unbroken_joined {parts : List (List Char)} (h : ∀ part ∈ parts, Enclosed part)
    (depth : Nat) : Unbroken sep ⟨depth + 1, false⟩ (joined ';' parts) ∧
      Nesting.scan ⟨depth + 1, false⟩ (joined ';' parts) = ⟨depth + 1, false⟩ := by
  induction parts with
  | nil => exact ⟨trivial, rfl⟩
  | cons part parts ih =>
    obtain ⟨hpart, hparts⟩ := List.forall_mem_cons.mp h
    cases parts with
    | nil => exact ⟨hpart.unbroken depth, hpart.scan (depth + 1)⟩
    | cons next parts =>
      obtain ⟨hunbroken, hscan⟩ := ih hparts
      rw [joined_cons_cons, unbroken_append, Nesting.scan_append, hpart.scan]
      exact ⟨⟨hpart.unbroken depth, by simp [separates, Nesting.outermost], hunbroken⟩, hscan⟩

/-- Texts with semicolons between them are one part if they stand in parentheses. -/
theorem isPart_group {parts : List (List Char)} (h : ∀ part ∈ parts, Enclosed part) :
    IsPart sep ('(' :: (joined ';' parts ++ [')'])) := by
  obtain ⟨hunbroken, hscan⟩ := unbroken_joined h 0
  constructor
  · refine ⟨by simp [separates], ?_⟩
    show Unbroken sep ⟨0 + 1, false⟩ (joined ';' parts ++ [')'])
    rw [unbroken_append, hscan]
    exact ⟨hunbroken, by simp [separates], trivial⟩
  · show Nesting.scan ⟨0 + 1, false⟩ (joined ';' parts ++ [')']) = .outermost
    rw [Nesting.scan_append, hscan]
    rfl

/-- No semicolon separates. -/
theorem isPart_semicolon (h : Enclosed cs) : IsPart ';' cs where
  unbroken := by
    induction h with
    | nil => trivial
    | calm first _ ih =>
      rw [Nesting.outermost, unbroken_append, first.scan]
      exact ⟨first.unbroken_semicolon 0, ih⟩
    | @group cs ds inside _ _ ih =>
      refine ⟨by simp [separates], ?_⟩
      show Unbroken ';' ⟨0 + 1, false⟩ (cs ++ ')' :: ds)
      rw [unbroken_append, inside.scan]
      exact ⟨inside.unbroken 0, by simp [separates], ih⟩
  closed := h.scan 0

/-- Texts with a calm separator between them. -/
theorem joined (hsep : Calm [sep]) {parts : List (List Char)}
    (hparts : ∀ part ∈ parts, Enclosed part) : Enclosed (joined sep parts) := by
  induction parts with
  | nil => exact .nil
  | cons part parts ih =>
    obtain ⟨hpart, hparts⟩ := List.forall_mem_cons.mp hparts
    cases parts with
    | nil => exact hpart
    | cons next parts =>
      rw [joined_cons_cons]
      exact hpart.append (.calm hsep (ih hparts))

end Enclosed

/-- The parts that a text is split into make it up again. -/
theorem joined_splitFrom (sep : Char) (s : Nesting) (cs : List Char) :
    joined sep (splitFrom sep s cs) = cs := by
  induction cs generalizing s with
  | nil => rfl
  | cons c cs ih =>
    by_cases hseparates : separates sep s c = true
    · obtain ⟨part, parts, hparts⟩ := List.exists_cons_of_ne_nil (splitFrom_ne_nil sep s cs)
      have hc : c = sep := by
        simp only [separates, Bool.and_eq_true, beq_iff_eq] at hseparates
        exact hseparates.1.1.1.1
      have ih := ih s
      rw [hparts] at ih
      rw [splitFrom, if_pos hseparates, hparts, joined_cons_cons, ih, hc]
      rfl
    · rw [Bool.not_eq_true] at hseparates
      obtain ⟨part, parts, hparts, hsplit⟩ := splitFrom_cons hseparates cs
      have ih := ih (s.advance c)
      rw [hparts] at ih
      rw [hsplit]
      cases parts with
      | nil => exact congrArg (c :: ·) ih
      | cons next parts =>
        rw [joined_cons_cons] at ih ⊢
        rw [List.cons_append, ih]

end ODataRequest.Text
