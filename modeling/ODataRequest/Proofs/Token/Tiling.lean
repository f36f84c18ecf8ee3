import ODataRequest.Proofs.Token.Bytes
import ODataRequest.Proofs.Token.Spelling

/-!
# ODataRequest.Proofs.Token.Tiling

Tokens and the blank space between them make up their text (`tiling_of_tokenize`). The blank space
itself does not matter: the texts of the tokens with single spaces between them have the same tokens,
their places aside (`tokenize_joined`).
-/

namespace ODataRequest

open Lexeme

/-! ### Tiles -/

/-- The place behind a token. -/
def Token.stop (t : Token) : Nat :=
  t.offset + t.text.utf8ByteSize

/-- The place behind the last one of some tokens, or where they start if there are none. -/
def stopFrom (start : Nat) : List Token → Nat
  | [] => start
  | t :: ts => stopFrom t.stop ts

/-- A run of spaces and tabs. -/
def IsGap (cs : List Char) : Prop :=
  ∀ c ∈ cs, c = ' ' ∨ c = '\t'

/-- The tokens of a text with their places in it. -/
structure Tiling (text : String) (ts : List Token) : Prop where
  /-- The last token is the end of the text, and there is no other one without a text. -/
  ended : ∃ front last, ts = front ++ [last] ∧
    last.kind = .endOfText ∧ last.text = "" ∧ last.offset = text.utf8ByteSize ∧
    ∀ t ∈ front, t.kind ≠ .endOfText ∧ t.text ≠ ""
  /-- The text of a token is the piece of the text at its place. -/
  sliced : ∀ t ∈ ts, slice? text.toList t.offset t.stop = some t.text.toList
  /-- No token starts before an earlier one has ended. -/
  ordered : ts.Pairwise fun s t => s.stop ≤ t.offset
  /-- Between a token and the one in front of it stands nothing but blank space, and the token tells
  whether there is any. -/
  gaps : ∀ front t behind, ts = front ++ t :: behind →
    ∃ gap, slice? text.toList (stopFrom 0 front) t.offset = some gap ∧ IsGap gap ∧
      (t.spaceBefore = true ↔ gap ≠ [])

/-- The rest of a text behind the place `offset`: blank space and tokens in turn. -/
inductive Tiles : Nat → List Char → List Token → Prop
  | last {offset : Nat} {gap : List Char} (blank : IsGap gap) :
      Tiles offset gap [⟨.endOfText, "", offset + byteLength gap, !gap.isEmpty⟩]
  | token {offset : Nat} {gap word rest : List Char} {kind : TokenKind} {ts : List Token}
      (blank : IsGap gap) (inside : kind ≠ .endOfText) (hword : word ≠ [])
      (tiles : Tiles (offset + byteLength gap + byteLength word) rest ts) :
      Tiles offset (gap ++ (word ++ rest))
        (⟨kind, String.ofList word, offset + byteLength gap, !gap.isEmpty⟩ :: ts)

theorem isGap_concat {gap : List Char} {c : Char} (h : IsGap gap) (hspace : isSpace c = true) :
    IsGap (gap ++ [c]) := by
  refine List.forall_mem_append.mpr ⟨h, ?_⟩
  simpa [isSpace] using hspace

/-- The tokens of the rest of a text, in which a gap may have been begun. -/
theorem tiles_of_tokensFrom {offset place : Nat} {spaced : Bool} {gap cs : List Char}
    {ts : List Token} (blank : IsGap gap) (hplace : place = offset + byteLength gap)
    (hspaced : spaced = !gap.isEmpty) (h : tokensFrom place spaced cs = some ts) :
    Tiles offset (gap ++ cs) ts := by
  fun_induction tokensFrom place spaced cs generalizing offset gap ts with
  | case1 place spaced =>
    cases h
    subst hplace hspaced
    rw [List.append_nil]
    exact .last blank
  | case2 place spaced c cs hspace ih =>
    have hone : c.utf8Size = 1 := by
      simp only [isSpace, Bool.or_eq_true, beq_iff_eq] at hspace
      rcases hspace with rfl | rfl <;> decide
    have hrest := @ih offset (gap ++ [c]) ts (isGap_concat blank hspace)
      (by rw [byteLength_append, byteLength_cons, hone, hplace]; rfl) (by simp) h
    rwa [List.append_assoc] at hrest
  | case3 place spaced c cs hspace hlexeme => cases h
  | case4 place spaced c cs hspace kind n hlexeme text =>
    rename_i ih
    obtain ⟨us, hus, rfl⟩ := Option.map_eq_some_iff.mp h
    subst hplace hspaced
    have hrest : Tiles (offset + byteLength gap + byteLength text) (cs.drop n) us :=
      @ih _ [] us (List.forall_mem_nil _) rfl rfl hus
    have hcs : c :: cs = text ++ cs.drop n := by
      rw [List.cons_append, List.take_append_drop]
    rw [hcs]
    exact .token blank (lexeme?_kind_ne hlexeme) (List.cons_ne_nil _ _) hrest

namespace Tiles

variable {offset : Nat} {cs : List Char} {ts : List Token}

theorem le_offset (h : Tiles offset cs ts) : ∀ t ∈ ts, offset ≤ t.offset := by
  induction h with
  | last blank => exact List.forall_mem_singleton.mpr (Nat.le_add_right _ _)
  | token blank inside hword tiles ih =>
    refine List.forall_mem_cons.mpr ⟨Nat.le_add_right _ _, fun t ht => ?_⟩
    have hle := ih t ht
    omega

theorem ordered (h : Tiles offset cs ts) : ts.Pairwise fun s t => s.stop ≤ t.offset := by
  induction h with
  | last blank => exact List.pairwise_singleton _ _
  | token blank inside hword tiles ih =>
    refine List.pairwise_cons.mpr ⟨fun t ht => ?_, ih⟩
    have hle := tiles.le_offset t ht
    simpa [Token.stop, ← byteLength_toList] using hle

theorem ended (h : Tiles offset cs ts) : ∃ front last, ts = front ++ [last] ∧
    last.kind = .endOfText ∧ last.text = "" ∧ last.offset = offset + byteLength cs ∧
    ∀ t ∈ front, t.kind ≠ .endOfText ∧ t.text ≠ "" := by
  induction h with
  | last blank => exact ⟨[], _, rfl, rfl, rfl, rfl, List.forall_mem_nil _⟩
  | @token offset gap word rest kind ts blank inside hword tiles ih =>
    obtain ⟨front, last, rfl, hkind, htext, hoffset, hfront⟩ := ih
    refine ⟨_ :: front, last, rfl, hkind, htext, ?_, List.forall_mem_cons.mpr ⟨⟨inside, ?_⟩, hfront⟩⟩
    · rw [hoffset]
      simp only [byteLength_append, Nat.add_assoc]
    · simpa [← String.toList_inj] using hword

/-- A token, the blank space in front of it and what is left of the text. -/
theorem place (h : Tiles offset cs ts) {front behind : List Token} {t : Token}
    (hts : ts = front ++ t :: behind) : ∃ before gap after,
      cs = before ++ (gap ++ (t.text.toList ++ after)) ∧
        offset + byteLength before = stopFrom offset front ∧
        t.offset = stopFrom offset front + byteLength gap ∧ IsGap gap ∧
        (t.spaceBefore = true ↔ gap ≠ []) := by
  induction h generalizing front with
  | @last offset gap blank =>
    cases front with
    | nil =>
      cases hts
      exact ⟨[], gap, [], by simp, rfl, rfl, blank, by simp⟩
    | cons u front => simp at hts
  | @token offset gap word rest kind ts blank inside hword tiles ih =>
    cases front with
    | nil =>
      cases hts
      exact ⟨[], gap, rest, by simp, rfl, rfl, blank, by simp⟩
    | cons u front =>
      obtain ⟨rfl, rfl⟩ := List.cons.inj hts
      obtain ⟨before, gap', after, rfl, hbefore, hoffset, hplace⟩ := ih rfl
      have hstop : stopFrom offset (⟨kind, String.ofList word, offset + byteLength gap,
          !gap.isEmpty⟩ :: front) =
          stopFrom (offset + byteLength gap + byteLength word) front := by
        simp [stopFrom, Token.stop, ← byteLength_toList]
      refine ⟨gap ++ (word ++ before), gap', after, by simp, ?_, hstop ▸ hoffset, hplace⟩
      rw [hstop, ← hbefore]
      simp only [byteLength_append, Nat.add_assoc]

end Tiles

theorem tiling_of_tiles {text : String} {ts : List Token} (h : Tiles 0 text.toList ts) :
    Tiling text ts where
  ended := by
    obtain ⟨front, last, hts, hkind, htext, hoffset, hfront⟩ := h.ended
    rw [Nat.zero_add, byteLength_toList] at hoffset
    exact ⟨front, last, hts, hkind, htext, hoffset, hfront⟩
  sliced t ht := by
    obtain ⟨front, behind, hts⟩ := List.append_of_mem ht
    obtain ⟨before, gap, after, hchars, hbefore, hoffset, -⟩ := h.place hts
    rw [Nat.zero_add] at hbefore
    refine slice?_eq_some_iff.mpr ⟨before ++ gap, after, by rw [hchars, List.append_assoc], ?_, ?_⟩
    · rw [byteLength_append, hbefore, hoffset]
    · rw [byteLength_toList]
      rfl
  ordered := h.ordered
  gaps front t behind hts := by
    obtain ⟨before, gap, after, hchars, hbefore, hoffset, hblank, hspace⟩ := h.place hts
    rw [Nat.zero_add] at hbefore
    exact ⟨gap, slice?_eq_some_iff.mpr ⟨before, _, hchars, hbefore, hoffset.symm⟩, hblank, hspace⟩

theorem tiling_of_tokenize {text : String} {ts : List Token} (h : tokenize text = .ok ts) :
    Tiling text ts := by
  unfold tokenize at h
  split at h
  · next us hus =>
    cases h
    exact tiling_of_tiles (tiles_of_tokensFrom (List.forall_mem_nil _) rfl rfl hus)
  · cases h

/-! ### Single spaces -/

/-- Words with single spaces between them, and maybe spaces behind the last one, are these words. -/
theorem tokensFrom_joined {ws : List Word} (h : ∀ w ∈ ws, w.Stands) {behind : List Char}
    (hbehind : ∀ c ∈ behind, c = ' ') (offset : Nat) (spaced : Bool) :
    ∃ us, tokensFrom offset spaced
        (Text.joined ' ' (ws.map fun w => w.text.toList) ++ behind) = some us ∧
      us.map Token.word = ws ++ [⟨.endOfText, ""⟩] := by
  have hblank (offset : Nat) (spaced : Bool) : ∃ us, tokensFrom offset spaced behind = some us ∧
      us.map Token.word = [⟨.endOfText, ""⟩] := by
    induction behind generalizing offset spaced with
    | nil => exact ⟨_, by rw [tokensFrom], rfl⟩
    | cons c behind ih =>
      obtain ⟨rfl, hrest⟩ := List.forall_mem_cons.mp hbehind
      rw [tokensFrom, if_pos (by decide)]
      exact ih hrest _ _
  have hbounded : Bounded behind := by
    intro c hc
    rw [hbehind c (List.mem_of_mem_head? hc)]
    decide
  induction ws generalizing offset spaced with
  | nil => exact hblank offset spaced
  | cons w ws ih =>
    obtain ⟨hw, hws⟩ := List.forall_mem_cons.mp h
    cases ws with
    | nil =>
      obtain ⟨us, hus, hwords⟩ := hblank (offset + byteLength w.text.toList) false
      refine ⟨⟨w.kind, w.text, offset, spaced⟩ :: us, ?_, by rw [List.map_cons, hwords]; rfl⟩
      exact (Word.tokensFrom_of_lexes (hw _ hbounded) offset spaced).trans (by rw [hus]; rfl)
    | cons next ws =>
      obtain ⟨us, hus, hwords⟩ := ih hws (offset + byteLength w.text.toList + 1) true
      refine ⟨⟨w.kind, w.text, offset, spaced⟩ :: us, ?_, by rw [List.map_cons, hwords]; rfl⟩
      have hspace : Bounded (' ' :: (Text.joined ' ' ((next :: ws).map fun w => w.text.toList) ++
          behind)) := bounded_cons (by decide)
      rw [List.map_cons, List.map_cons, Text.joined_cons_cons, List.append_assoc, List.cons_append]
      refine (Word.tokensFrom_of_lexes (hw _ hspace) offset spaced).trans ?_
      rw [tokensFrom, if_pos (by decide)]
      exact (congrArg (Option.map _) hus).trans rfl

/-- The texts of the tokens of a text, with single spaces between them, have the same tokens, whether
or not the empty text of the end is among them. -/
theorem tokenize_joined {text : String} {ts : List Token} (h : tokenize text = .ok ts) :
    ∀ us ∈ [ts, ts.dropLast], ∃ vs,
      tokenize (" ".intercalate (us.map Token.text)) = .ok vs ∧
        vs.map Token.word = ts.map Token.word := by
  obtain ⟨front, last, rfl, hlast, hfront⟩ := tokenize_eq_append h
  have hstands : ∀ w ∈ front.map Token.word, w.Stands := by
    refine List.forall_mem_map.mpr fun t ht => ?_
    exact stands_of_mem_tokenize h (List.mem_append_left _ ht) (hfront t ht)
  have hread {us : List Token} (behind : List Char) (hbehind : ∀ c ∈ behind, c = ' ')
      (hus : Text.joined ' ' (us.map fun t => t.text.toList) =
        Text.joined ' ' (front.map fun t => t.text.toList) ++ behind) : ∃ vs,
      tokenize (" ".intercalate (us.map Token.text)) = .ok vs ∧
        vs.map Token.word = (front ++ [last]).map Token.word := by
    obtain ⟨vs, hvs, hwords⟩ := tokensFrom_joined hstands hbehind 0 false
    refine ⟨vs, ?_, by rw [hwords, List.map_append, List.map_singleton, hlast]⟩
    have hchars : (" ".intercalate (us.map Token.text)).toList =
        Text.joined ' ' ((front.map Token.word).map fun w => w.text.toList) ++ behind := by
      rw [Text.toList_intercalate rfl, List.map_map, List.map_map]
      exact hus
    unfold tokenize
    rw [hchars, hvs]
  have hempty : last.text.toList = [] := by
    rw [show last.text = "" from congrArg Word.text hlast]
    rfl
  intro us hus
  simp only [List.mem_cons, List.not_mem_nil, or_false, List.dropLast_concat] at hus
  obtain rfl | rfl := hus
  · -- the empty text of the end leaves a space behind the last word, if there is one
    cases front with
    | nil => exact hread [] (List.forall_mem_nil _) (by simp [Text.joined, hempty])
    | cons first front =>
      refine hread [' '] (by simp) ?_
      rw [List.map_append, List.map_singleton, hempty, Text.joined_concat (by simp)]
  · exact hread [] (List.forall_mem_nil _) (List.append_nil _).symm

end ODataRequest
