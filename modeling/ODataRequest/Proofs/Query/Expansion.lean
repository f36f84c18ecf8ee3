import ODataRequest.Proofs.Resolution
import ODataRequest.Proofs.Text.Cut
import ODataRequest.Query.Reader

/-!
# ODataRequest.Proofs.Query.Expansion

What the readers of an expansion give: an option of an item (`gives_itemOption`), the options of an
item one behind the other, an item (`gives_expandItem`), and all items (`gives_expandItems`). What a selected item may be is said
here too (`selectItem_cases`).
-/

namespace ODataRequest

variable {answers : Answers} {config : Config} {nested : OptionReader} {scope : Scope}

/-- An option of an item has a name, a kind that may stand there and is not there yet, and a value
that is read. -/
theorem gives_itemOption {options options' : List SystemOption} {text : String} :
    (itemOption config nested scope options text).Gives answers options' ↔
      ∃ name raw kind value, Text.cutAt? '=' text.toList = some (name, raw) ∧
        optionKind? config (String.ofList name) = .ok (some kind) ∧ standsInItem kind = true ∧
        SystemOption.find? options kind = none ∧
        (nested scope kind (String.ofList raw)).Gives answers value ∧
        options' = options ++ [⟨String.ofList raw, value⟩] := by
  unfold itemOption
  split
  · next hcut => simp [hcut]
  · next name raw hcut =>
    simp only [Resolution.gives_bind, Resolution.gives_ofGrammar]
    constructor
    · rintro ⟨_ | kind, hkind, h⟩
      · exact absurd h Resolution.not_gives_refuse
      dsimp only at h
      split at h
      · exact absurd h Resolution.not_gives_refuse
      split at h
      · exact absurd h Resolution.not_gives_refuse
      · next hstands hfind =>
        simp only [Resolution.gives_bind, Resolution.gives_pure] at h
        obtain ⟨value, hvalue, rfl⟩ := h
        exact ⟨name, raw, kind, value, hcut, hkind, by simpa using hstands,
          by simpa using hfind, hvalue, rfl⟩
    · rintro ⟨name', raw', kind, value, hcut', hkind, hstands, hfind, hvalue, heq⟩
      rw [hcut] at hcut'
      cases hcut'
      refine ⟨some kind, hkind, ?_⟩
      simp only [hstands, hfind, Bool.not_true, Bool.false_eq_true, if_false, Option.isSome_none,
        Resolution.gives_bind, Resolution.gives_pure]
      exact ⟨value, hvalue, heq.symm⟩

/-- The options of an item are read against the type that the item leads to. -/
theorem gives_expandItem {item : String} {i : ExpandItem} :
    (expandItem config nested scope item).Gives answers i ↔
      ∃ head given type, splitItem item = .ok (head, given) ∧
        (expandTarget scope.it item head (expandForm (parts '/' head)).1).Gives answers
          (i.target, type) ∧
        i.form = (expandForm (parts '/' head)).2 ∧
        ((((given.map (topLevelParts ';')).getD []).filter (· ≠ "")).foldlM
          (itemOption config nested { scope with it := type }) []).Gives answers i.options := by
  cases i with
  | mk target form options =>
    unfold expandItem
    simp only [Resolution.gives_bind, Resolution.gives_ofGrammar, Resolution.gives_pure]
    constructor
    · rintro ⟨⟨head, given⟩, hsplit, ⟨target', type⟩, htarget, options', hoptions, heq⟩
      cases heq
      exact ⟨head, given, type, hsplit, htarget, rfl, hoptions⟩
    · rintro ⟨head, given, type, hsplit, htarget, hform, hoptions⟩
      refine ⟨(head, given), hsplit, (target, type), htarget, options, hoptions, ?_⟩
      rw [← hform]
      rfl

theorem gives_expandItems {text : String} {items : List ExpandItem} :
    (expandItems config nested scope text).Gives answers items ↔
      List.Forall₂ (fun item i => (expandItem config nested scope (trimmed item)).Gives answers i)
        (topLevelParts ',' text) items :=
  Resolution.gives_mapM

/-- A selected item is a star, the operations of a schema, or a path of properties. -/
theorem selectItem_cases {target : Option ModelType} {text : String} {i : SelectItem}
    (h : (selectItem target text).Gives answers i) :
    text = "*" ∧ i = .star ∨
      (∃ front space, text.toList = front ++ ".*".toList ∧
        Namespace.parse (String.ofList front) = .ok space ∧ i = .operations space) ∨
      ∃ owner p, target = some owner ∧ (propertyPath owner (parts '/' text)).Gives answers p ∧
        i = .path p.start p.path := by
  unfold selectItem at h
  split at h
  · next hstar => exact .inl ⟨hstar, (Resolution.gives_pure.mp h).symm⟩
  split at h
  · next front hfront =>
    split at h
    · next space hspace =>
      exact .inr (.inl ⟨front, space, Text.eq_append_of_before? hfront, hspace,
        (Resolution.gives_pure.mp h).symm⟩)
    · exact absurd h Resolution.not_gives_refuse
  · simp only [Resolution.gives_bind, Resolution.gives_require, Resolution.gives_pure] at h
    obtain ⟨owner, htarget, p, hpath, rfl⟩ := h
    exact .inr (.inr ⟨owner, p, htarget, hpath, rfl⟩)

end ODataRequest
