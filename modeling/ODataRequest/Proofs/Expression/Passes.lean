import ODataRequest.Proofs.Expression.OperatorTree
import ODataRequest.Proofs.Expression.Rules

/-!
# ODataRequest.Proofs.Expression.Passes

What a reader passes over, without parentheses that group (`Passes`). The relation composes, so the
words of an expression come together from those of its parts.
-/

namespace ODataRequest

open TokenReader

/-! ### Words -/

/-- Only `in` and names of methods stand in front of lists and arguments. -/
theorem BinaryOperator.opensItems_word (op : BinaryOperator) :
    op.word.opensItems = decide (op = .isIn) := by
  cases op <;> decide +kernel

theorem Method.opensItems_word (m : Method) : m.word.opensItems = true := by
  cases m <;> decide +kernel

theorem UnaryOperator.opensItems_word (op : UnaryOperator) : op.word.opensItems = false := by
  cases op <;> decide +kernel

theorem Word.opensItems_of_kind_ne {w : Word} (h : w.kind ≠ .identifier) :
    w.opensItems = false := by
  simp [Word.opensItems, h]

theorem BinaryOperator.name_of_ofName? {name : String} {op : BinaryOperator}
    (h : ofName? name = some op) : name = op.name := by
  have hname := List.find?_some h
  exact (beq_iff_eq.mp hname).symm

theorem Method.name_of_ofName? {name : String} {m : Method} (h : ofName? name = some m) :
    name = m.name := by
  have hname := List.find?_some h
  exact (beq_iff_eq.mp hname).symm

/-- The word of a token whose kind has a fixed text. -/
theorem Token.Genuine.word_eq {t : Token} (h : t.Genuine) {w : Word} (hkind : t.kind = w.kind)
    (hfixed : Lexeme.fixedText? w.kind = some w.text.toList) : t.word = w := by
  have htext := h.fixed w.text.toList (by rw [hkind, hfixed])
  rw [String.ofList_toList] at htext
  rw [Token.word, hkind, htext]

/-! ### Passing over tokens -/

/-- From the tokens `ts` to the tokens `rest` the words `ws` are passed over, apart from parentheses
that group, and the end of the text is not. -/
structure Passes (ts : List Token) (ws : List Word) (rest : List Token) : Prop where
  suffix : rest <:+ ts
  ends : ∀ t ∈ ts, t.kind = .endOfText → t ∈ rest
  words : ∀ kept, ungrouped kept false (ts.map Token.word) =
    ws ++ ungrouped kept false (rest.map Token.word)

namespace Passes

theorem genuine {ts rest : List Token} {ws : List Word} (h : Passes ts ws rest)
    (hts : ∀ t ∈ ts, t.Genuine) : ∀ t ∈ rest, t.Genuine :=
  fun t ht => hts t (h.suffix.subset ht)

theorem refl (ts : List Token) : Passes ts [] ts :=
  ⟨List.suffix_refl ts, fun _ ht _ => ht, fun _ => rfl⟩

theorem trans {ts between rest : List Token} {ws us : List Word} (h : Passes ts ws between)
    (h' : Passes between us rest) : Passes ts (ws ++ us) rest where
  suffix := h'.suffix.trans h.suffix
  ends t ht hend := h'.ends t (h.ends t ht hend) hend
  words kept := by rw [h.words, h'.words, List.append_assoc]

/-- A word that neither is a parenthesis nor stands in front of one. -/
theorem word {t : Token} {ts rest : List Token} {ws : List Word} (hopen : t.kind ≠ .openParen)
    (hclose : t.kind ≠ .closeParen) (hend : t.kind ≠ .endOfText)
    (hitems : t.word.opensItems = false) (h : Passes ts ws rest) :
    Passes (t :: ts) (t.word :: ws) rest where
  suffix := h.suffix.trans (List.suffix_cons t ts)
  ends u hu huend := by
    rcases List.mem_cons.mp hu with rfl | hu
    · exact absurd huend hend
    · exact h.ends u hu huend
  words kept := by
    have hopen : t.word.kind ≠ .openParen := hopen
    have hclose : t.word.kind ≠ .closeParen := hclose
    rw [List.map_cons, ungrouped_word hopen hclose, hitems, h.words, List.cons_append]

/-- A word and an alias behind it. -/
theorem wordAlias {t u : Token} {rest : List Token} (hword : t.kind = .identifier)
    (halias : u.kind = .parameterAlias) : Passes (t :: u :: rest) [t.word, u.word] rest where
  suffix := (List.suffix_cons u rest).trans (List.suffix_cons t _)
  ends v hv hend := by
    rcases List.mem_cons.mp hv with rfl | hv
    · rw [hword] at hend
      cases hend
    · rcases List.mem_cons.mp hv with rfl | hv
      · rw [halias] at hend
        cases hend
      · exact hv
  words kept := by
    have hword : t.word.kind = .identifier := hword
    have halias : u.word.kind = .parameterAlias := halias
    have hitems : u.word.opensItems = false :=
      Word.opensItems_of_kind_ne (by rw [halias]; decide)
    rw [List.map_cons, ungrouped_word (by rw [hword]; decide) (by rw [hword]; decide),
      List.map_cons, ungrouped_word (by rw [halias]; decide) (by rw [halias]; decide), hitems]
    rfl

/-- What is in parentheses that group. -/
theorem group {opening closing : Token} {ts rest : List Token} {ws : List Word}
    (hopening : opening.kind = .openParen) (hclosing : closing.kind = .closeParen)
    (h : Passes ts ws (closing :: rest)) : Passes (opening :: ts) ws rest where
  suffix := (List.suffix_cons closing rest).trans (h.suffix.trans (List.suffix_cons opening ts))
  ends u hu hend := by
    rcases List.mem_cons.mp hu with rfl | hu
    · rw [hopening] at hend
      cases hend
    · rcases List.mem_cons.mp (h.ends u hu hend) with rfl | hu
      · rw [hclosing] at hend
        cases hend
      · exact hu
  words kept := by
    have hopening : opening.word.kind = .openParen := hopening
    have hclosing : closing.word.kind = .closeParen := hclosing
    rw [List.map_cons, ungrouped_openParen hopening, h.words, List.map_cons,
      ungrouped_closeParen hclosing]

/-- A list or arguments behind their word. -/
theorem items {t opening closing : Token} {ts rest : List Token} {ws : List Word}
    (hword : t.kind = .identifier) (hitems : t.word.opensItems = true)
    (hopening : opening.kind = .openParen) (hclosing : closing.kind = .closeParen)
    (h : Passes ts ws (closing :: rest)) :
    Passes (t :: opening :: ts) (t.word :: opening.word :: ws ++ [closing.word]) rest where
  suffix := (group hopening hclosing h).suffix.trans (List.suffix_cons t _)
  ends u hu hend := by
    rcases List.mem_cons.mp hu with rfl | hu
    · rw [hword] at hend
      cases hend
    · exact (group hopening hclosing h).ends u hu hend
  words kept := by
    have hword : t.word.kind = .identifier := hword
    have hopening : opening.word.kind = .openParen := hopening
    have hclosing : closing.word.kind = .closeParen := hclosing
    rw [List.map_cons, ungrouped_word (by rw [hword]; decide) (by rw [hword]; decide), hitems,
      List.map_cons, ungrouped_openParen_items hopening, h.words, List.map_cons,
      ungrouped_closeParen_items hclosing]
    simp

end Passes

/-! ### The end of a text -/

/-- Where all of a text is passed over, its words are known. -/
theorem Passes.ungroupedWords {text : String} {ts rest : List Token} {ws : List Word}
    (htokens : tokenize text = .ok ts) (h : Passes ts ws rest)
    (hend : (firstToken rest).kind = .endOfText) :
    ungroupedWords text = .ok (ws ++ [⟨.endOfText, ""⟩]) := by
  obtain ⟨us, last, rfl, hlast, hus⟩ := tokenize_eq_append htokens
  have hlastKind : last.kind = .endOfText := congrArg Word.kind hlast
  have hrest : rest = [last] := by
    rcases List.suffix_concat_iff.mp h.suffix with rfl | ⟨vs, rfl, hvs⟩
    · exact absurd (h.ends last (by simp) hlastKind) (List.not_mem_nil)
    · cases vs with
      | nil => rfl
      | cons v vs =>
        exact absurd hend (hus v (hvs.subset List.mem_cons_self))
  have hwords := h.words []
  rw [hrest, List.map_cons, List.map_nil, hlast] at hwords
  rw [ODataRequest.ungroupedWords, htokens]
  exact congrArg Except.ok hwords

end ODataRequest
