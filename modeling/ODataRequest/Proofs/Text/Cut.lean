import Mathlib.Data.List.TakeWhile
import ODataRequest.Text.Cut
import ODataRequest.Text.TopLevel

/-!
# ODataRequest.Proofs.Text.Cut

Cutting a text where a separator is known to be, and where there is none.
-/

namespace ODataRequest.Text

theorem cutAt?_append {sep : Char} {as : List Char} (h : sep ∉ as) (bs : List Char) :
    cutAt? sep (as ++ sep :: bs) = some (as, bs) := by
  unfold cutAt?
  induction as with
  | nil => simp [cut?]
  | cons a as ih =>
    rw [List.mem_cons, not_or] at h
    have hne : a ≠ sep := fun heq => h.1 heq.symm
    simp [cut?, hne, ih h.2]

theorem cutAt?_eq_none {sep : Char} {cs : List Char} (h : sep ∉ cs) : cutAt? sep cs = none := by
  unfold cutAt?
  induction cs with
  | nil => rfl
  | cons c cs ih =>
    rw [List.mem_cons, not_or] at h
    have hne : c ≠ sep := fun heq => h.1 heq.symm
    simp [cut?, hne, ih h.2]

/-- A cut text is put together again around the character at which it has been cut. -/
theorem eq_append_of_cut? {p : Char → Bool} {cs front back : List Char}
    (h : cut? p cs = some (front, back)) : ∃ c, p c = true ∧ cs = front ++ c :: back := by
  induction cs generalizing front with
  | nil => cases h
  | cons x cs ih =>
    rw [cut?] at h
    split at h
    · rename_i hx
      cases h
      exact ⟨x, hx, rfl⟩
    · obtain ⟨⟨front', back'⟩, hcut, heq⟩ := Option.map_eq_some_iff.mp h
      cases heq
      obtain ⟨c, hc, rfl⟩ := ih hcut
      exact ⟨c, hc, rfl⟩

theorem eq_append_of_cutAt? {sep : Char} {cs front back : List Char}
    (h : cutAt? sep cs = some (front, back)) : cs = front ++ sep :: back := by
  obtain ⟨c, hc, rfl⟩ := eq_append_of_cut? h
  rw [beq_iff_eq.mp hc]

theorem before?_append (cs ending : List Char) : before? ending (cs ++ ending) = some cs := by
  unfold before?
  rw [List.reverse_append, behind?_append, Option.map_some, List.reverse_reverse]

/-- What stands in front of an ending, and the ending, make up the text. -/
theorem eq_append_of_before? {ending cs front : List Char} (h : before? ending cs = some front) :
    cs = front ++ ending := by
  obtain ⟨rest, hrest, rfl⟩ := Option.map_eq_some_iff.mp h
  have happend := eq_append_of_behind? hrest
  rw [← List.reverse_reverse cs, happend, List.reverse_append, List.reverse_reverse]

/-! ### Letters of either case -/

/-- No other character has a lower case that is no small letter. -/
theorem eq_of_toLower {c x : Char} (hx : x.isLower = false) (h : c.toLower = x) : c = x := by
  unfold Char.toLower at h
  split at h
  · rename_i hupper
    have hval : c.val + ('a'.val - 'A'.val) = x.val := congrArg Char.val h
    obtain ⟨hlow, hhigh⟩ := hupper
    have hnat := congrArg UInt32.toNat hval
    have hother : ¬('a'.val ≤ x.val ∧ x.val ≤ 'z'.val) := by
      delta Char.isLower at hx
      simpa using hx
    simp only [ge_iff_le, UInt32.le_iff_toNat_le] at hlow hhigh hother
    rw [UInt32.toNat_add] at hnat
    have h1 : 'A'.val.toNat = 65 := by decide
    have h2 : 'Z'.val.toNat = 90 := by decide
    have h3 : ('a'.val - 'A'.val).toNat = 32 := by decide
    have h4 : 'a'.val.toNat = 97 := by decide
    have h5 : 'z'.val.toNat = 122 := by decide
    omega
  · exact h

theorem exists_of_startsIgnoringCase {word cs : List Char}
    (h : startsIgnoringCase word cs = true) {x : Char} (hx : x ∈ word) :
    ∃ c ∈ cs, c.toLower = x.toLower := by
  induction word generalizing cs with
  | nil => cases hx
  | cons w word ih =>
    cases cs with
    | nil => cases h
    | cons c cs =>
      simp only [startsIgnoringCase, Bool.and_eq_true, beq_iff_eq] at h
      rcases List.mem_cons.mp hx with rfl | hx
      · exact ⟨c, List.mem_cons_self, h.1⟩
      · obtain ⟨d, hd, heq⟩ := ih h.2 hx
        exact ⟨d, List.mem_cons_of_mem c hd, heq⟩

/-- A character that has no other case stands in a text if it does in its beginning. -/
theorem mem_of_startsIgnoringCase {word cs : List Char} (h : startsIgnoringCase word cs = true)
    {x : Char} (hx : x ∈ word) (hlower : x.isLower = false) (hsame : x.toLower = x) : x ∈ cs := by
  obtain ⟨c, hc, heq⟩ := exists_of_startsIgnoringCase h hx
  exact eq_of_toLower hlower (heq.trans hsame) ▸ hc

/-! ### Pieces -/

theorem pieces_of_not_mem {sep : Char} {cs : List Char} (h : sep ∉ cs) : pieces sep cs = [cs] := by
  induction cs with
  | nil => rfl
  | cons c cs ih =>
    rw [List.mem_cons, not_or] at h
    have hne : c ≠ sep := fun heq => h.1 heq.symm
    simp [pieces, hne, ih h.2]

theorem not_mem_of_mem_pieces {sep : Char} {cs piece : List Char} (h : piece ∈ pieces sep cs) :
    sep ∉ piece := by
  induction cs generalizing piece with
  | nil =>
    rw [pieces, List.mem_singleton] at h
    rw [h]
    exact List.not_mem_nil
  | cons c cs ih =>
    rw [pieces] at h
    split at h
    · rcases List.mem_cons.mp h with rfl | h
      · exact List.not_mem_nil
      · exact ih h
    · rename_i hne
      have hcons {front : List Char} (hfront : sep ∉ front) : sep ∉ c :: front := fun hmem =>
        (List.mem_cons.mp hmem).elim (fun heq => hne heq.symm) hfront
      cases hpieces : pieces sep cs with
      | nil => exact absurd hpieces (pieces_ne_nil sep cs)
      | cons front rest =>
        rw [hpieces] at h ih
        rcases List.mem_cons.mp h with rfl | h
        · exact hcons (ih List.mem_cons_self)
        · exact ih (List.mem_cons_of_mem front h)

theorem pieces_append {sep : Char} {cs : List Char} (h : sep ∉ cs) (ds : List Char) :
    pieces sep (cs ++ sep :: ds) = cs :: pieces sep ds := by
  induction cs with
  | nil => simp [pieces]
  | cons c cs ih =>
    rw [List.mem_cons, not_or] at h
    have hne : c ≠ sep := fun heq => h.1 heq.symm
    simp [pieces, hne, ih h.2]

/-- Pieces that are joined are cut apart again. -/
theorem pieces_joined {sep : Char} {parts : List (List Char)} (h : ∀ part ∈ parts, sep ∉ part)
    (hne : parts ≠ []) : pieces sep (joined sep parts) = parts := by
  induction parts with
  | nil => exact absurd rfl hne
  | cons part parts ih =>
    have hpart := h part List.mem_cons_self
    cases parts with
    | nil => exact pieces_of_not_mem hpart
    | cons next parts =>
      have ih := ih (fun p hp => h p (List.mem_cons_of_mem part hp)) (List.cons_ne_nil _ _)
      rw [joined_cons_cons, pieces_append hpart, ih]

/-- One more piece at the end. -/
theorem joined_concat {parts : List (List Char)} (hne : parts ≠ []) (sep : Char)
    (last : List Char) : joined sep (parts ++ [last]) = joined sep parts ++ sep :: last := by
  induction parts with
  | nil => exact absurd rfl hne
  | cons part parts ih =>
    cases parts with
    | nil => rfl
    | cons next parts =>
      rw [List.cons_append, List.cons_append, joined_cons_cons, ← List.cons_append,
        ih (List.cons_ne_nil _ _), joined_cons_cons, List.append_assoc, List.cons_append]

/-- The characters of joined texts. -/
theorem toList_intercalate {s : String} {sep : Char} (h : s.toList = [sep]) (texts : List String) :
    (s.intercalate texts).toList = joined sep (texts.map String.toList) := by
  induction texts with
  | nil => simp [joined]
  | cons text texts ih =>
    cases texts with
    | nil => simp [joined]
    | cons next texts =>
      rw [String.intercalate_cons_cons, String.toList_append, String.toList_append, ih, h]
      simp [joined_cons_cons]

/-! ### Blank space -/

/-- The code points of the blank characters. -/
def blankCodes : List Nat :=
  [0x9, 0xA, 0xB, 0xC, 0xD, 0x20, 0x85, 0xA0, 0x1680, 0x2000, 0x2001, 0x2002, 0x2003, 0x2004, 0x2005,
    0x2006, 0x2007, 0x2008, 0x2009, 0x200A, 0x2028, 0x2029, 0x202F, 0x205F, 0x3000]

theorem mem_blankCodes {c : Char} (h : isBlank c = true) : c.toNat ∈ blankCodes := by
  simp only [isBlank, Bool.or_eq_true, Bool.and_eq_true, decide_eq_true_eq, beq_iff_eq] at h
  simp only [blankCodes, List.mem_cons, List.not_mem_nil, or_false]
  omega

/-- Only blank space stands around a text that has been trimmed. -/
theorem exists_trim (cs : List Char) : ∃ front back, cs = front ++ (trim cs ++ back) ∧
    (∀ c ∈ front, isBlank c = true) ∧ ∀ c ∈ back, isBlank c = true := by
  have hfront : cs.takeWhile isBlank ++ trimStart cs = cs := List.takeWhile_append_dropWhile
  have hback : (trimStart cs).reverse.takeWhile isBlank ++ trimStart (trimStart cs).reverse =
      (trimStart cs).reverse := List.takeWhile_append_dropWhile
  refine ⟨cs.takeWhile isBlank, ((trimStart cs).reverse.takeWhile isBlank).reverse, ?_, ?_, ?_⟩
  · rw [trim, ← List.reverse_append, hback, List.reverse_reverse, hfront]
  · exact fun c => List.mem_takeWhile_imp
  · intro c hc
    exact List.mem_takeWhile_imp (List.mem_reverse.mp hc)

/-- A text that neither starts nor ends with blank space is not changed by trimming. -/
theorem trim_eq_self {first last : Char} {cs : List Char} (hfirst : isBlank first = false)
    (hlast : isBlank last = false) : trim (first :: (cs ++ [last])) = first :: (cs ++ [last]) := by
  simp [trim, trimStart, hfirst, hlast]

/-- A text without blank space is not changed by trimming. -/
theorem trim_of_forall {cs : List Char} (h : ∀ c ∈ cs, isBlank c = false) : trim cs = cs := by
  have hstart {ds : List Char} (hds : ∀ c ∈ ds, isBlank c = false) : trimStart ds = ds := by
    cases ds with
    | nil => rfl
    | cons c ds => simp [trimStart, hds c List.mem_cons_self]
  rw [trim, hstart h, hstart (by simpa using h), List.reverse_reverse]

/-- A character that is in front of a text that has none of its own. -/
theorem not_mem_of_forall {p : Char → Bool} {cs : List Char} (h : ∀ c ∈ cs, p c = true) {c : Char}
    (hc : p c = false) : c ∉ cs := by
  intro hmem
  rw [h c hmem] at hc
  cases hc

end ODataRequest.Text
