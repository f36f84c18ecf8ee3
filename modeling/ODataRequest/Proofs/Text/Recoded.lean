import ODataRequest.Proofs.Text.TopLevel
import Mathlib.Data.List.Basic
import Mathlib.Data.Option.Basic

/-!
# ODataRequest.Proofs.Text.Recoded

Characters of a path that are replaced by the percent escapes of their UTF-8 bytes (`Recoded`). The text
is read in *pieces*, each a character or an escape that was there before; the slashes between the pieces
stay as they are.

Decoding gives the same bytes for both texts, but a path is cut before it is decoded, and the scanner that
cuts it does not see through an escape. Whether each slash separates (`cuts`) is all that this can change:
the segments of both texts stand for the same bytes if and only if their slashes separate alike
(`Recoded.map_unescape_splitFrom`). Only quotes and parentheses move the scanner, so nothing changes if all
of them are kept (`Recoded.cuts_eq_of_forall`).
-/

namespace ODataRequest.Text

variable {may : Char → Prop} {s s' : Nesting} {as bs cs ds : List Char}

/-! ### Pieces -/

/-- Escapes for bytes, one for each, with digits in upper or lower case. -/
inductive Escapes : List UInt8 → List Char → Prop
  | nil : Escapes [] []
  | cons {b : UInt8} {bytes : List UInt8} {high low : Char} {es : List Char}
      (hhigh : hexValue? high = some (b.toNat / 16)) (hlow : hexValue? low = some (b.toNat % 16))
      (rest : Escapes bytes es) : Escapes (b :: bytes) ('%' :: high :: low :: es)

/-- A character or an escape, and what is written for it. -/
inductive RecodedPiece (may : Char → Prop) : List Char → List Char → Prop
  | kept {c : Char} (slash : c ≠ '/') (percent : c ≠ '%') : RecodedPiece may [c] [c]
  | escape {high low : Char} (hhigh : (hexValue? high).isSome) (hlow : (hexValue? low).isSome) :
      RecodedPiece may ['%', high, low] ['%', high, low]
  | encoded {c : Char} {es : List Char} (chosen : may c) (slash : c ≠ '/') (percent : c ≠ '%')
      (escapes : Escapes (String.utf8EncodeChar c) es) : RecodedPiece may [c] es

/-- Some characters of the first text are replaced by their escapes in the second one, any of those that
`may` allows, other than slashes and the characters of escapes. -/
inductive Recoded (may : Char → Prop) : List Char → List Char → Prop
  | nil : Recoded may [] []
  | slash {cs ds : List Char} (rest : Recoded may cs ds) : Recoded may ('/' :: cs) ('/' :: ds)
  | piece {as bs cs ds : List Char} (first : RecodedPiece may as bs) (rest : Recoded may cs ds) :
      Recoded may (as ++ cs) (bs ++ ds)

namespace Recoded

theorem append {cs' ds' : List Char} (h : Recoded may cs ds) (h' : Recoded may cs' ds') :
    Recoded may (cs ++ cs') (ds ++ ds') := by
  induction h with
  | nil => exact h'
  | slash _ ih => exact .slash ih
  | piece first _ ih =>
    rw [List.append_assoc, List.append_assoc]
    exact .piece first ih

/-- A text that can be decoded is made of pieces, all of which may be kept. -/
theorem refl {bytes : List UInt8} (h : unescape cs = some bytes) : Recoded may cs cs := by
  induction cs using unescape.induct generalizing bytes with
  | case1 => exact .nil
  | case2 high low cs ih =>
    obtain ⟨m, n, rest, hhigh, hlow, hrest, -⟩ := exists_of_unescape_escape h
    exact .piece (.escape (by simp [hhigh]) (by simp [hlow])) (ih hrest)
  | case3 cs hcs =>
    -- a percent sign without two characters behind it
    rw [unescape] at h
    · cases h
    · exact hcs
  | case4 c cs _ hc ih =>
    rw [unescape_cons hc] at h
    obtain ⟨rest, hrest, -⟩ := Option.map_eq_some_iff.mp h
    by_cases hslash : c = '/'
    · rw [hslash]
      exact .slash (ih hrest)
    · exact .piece (.kept hslash hc) (ih hrest)

theorem encoded {c : Char} {es : List Char} (chosen : may c) (slash : c ≠ '/') (percent : c ≠ '%')
    (escapes : Escapes (String.utf8EncodeChar c) es) : Recoded may [c] es := by
  have happend : Recoded may ([c] ++ []) (es ++ []) := .piece (.encoded chosen slash percent escapes) .nil
  rwa [List.append_nil, List.append_nil] at happend

end Recoded

/-! ### Decoding -/

theorem Escapes.unescape_append {bytes : List UInt8} {es : List Char} (h : Escapes bytes es)
    (cs : List Char) : unescape (es ++ cs) = (unescape cs).map (bytes ++ ·) := by
  induction h with
  | nil => simp
  | cons hhigh hlow _ ih =>
    simp only [List.cons_append]
    rw [unescape_byte hhigh hlow, ih, Option.map_map]
    rfl

/-- Both texts of a piece stand for the same bytes, whatever follows. -/
theorem RecodedPiece.unescape_append (h : RecodedPiece may as bs) :
    ∃ bytes, ∀ cs, unescape (as ++ cs) = (unescape cs).map (bytes ++ ·) ∧
      unescape (bs ++ cs) = (unescape cs).map (bytes ++ ·) := by
  cases h with
  | @kept c _ percent => exact ⟨_, fun cs => ⟨unescape_cons percent cs, unescape_cons percent cs⟩⟩
  | @escape high low hhigh hlow =>
    obtain ⟨m, hhigh⟩ := Option.isSome_iff_exists.mp hhigh
    obtain ⟨n, hlow⟩ := Option.isSome_iff_exists.mp hlow
    exact ⟨[UInt8.ofNat (16 * m + n)],
      fun cs => ⟨unescape_escape hhigh hlow cs, unescape_escape hhigh hlow cs⟩⟩
  | encoded _ _ percent escapes =>
    exact ⟨_, fun cs => ⟨unescape_cons percent cs, escapes.unescape_append cs⟩⟩

/-! ### Scanning -/

/-- A character that neither moves the scanner nor is a slash. -/
structure Inert (c : Char) : Prop where
  quote : c ≠ '\''
  opening : c ≠ '('
  closing : c ≠ ')'
  slash : c ≠ '/'

theorem Inert.percent : Inert '%' := by
  constructor <;> decide

theorem Inert.of_hexValue? {c : Char} (h : (hexValue? c).isSome) : Inert c := by
  constructor <;> intro hc <;> rw [hc] at h <;> exact absurd h (by decide)

theorem Inert.advance {c : Char} (h : Inert c) (s : Nesting) : s.advance c = s := by
  simp [Nesting.advance, h.quote, h.opening, h.closing]

theorem advance_slash (s : Nesting) : s.advance '/' = s := by
  simp [Nesting.advance]

theorem scan_of_inert (h : ∀ c ∈ cs, Inert c) (s : Nesting) : s.scan cs = s := by
  induction cs with
  | nil => rfl
  | cons c cs ih =>
    obtain ⟨hc, hcs⟩ := List.forall_mem_cons.mp h
    show (s.advance c).scan cs = s
    rw [hc.advance, ih hcs]

theorem Escapes.inert {bytes : List UInt8} {es : List Char} (h : Escapes bytes es) :
    ∀ c ∈ es, Inert c := by
  induction h with
  | nil => simp
  | cons hhigh hlow _ ih =>
    simp only [List.forall_mem_cons]
    exact ⟨.percent, .of_hexValue? (by simp [hhigh]), .of_hexValue? (by simp [hlow]), ih⟩

theorem escape_inert {high low : Char} (hhigh : (hexValue? high).isSome)
    (hlow : (hexValue? low).isSome) : ∀ c ∈ ['%', high, low], Inert c := by
  simp only [List.forall_mem_cons]
  exact ⟨.percent, .of_hexValue? hhigh, .of_hexValue? hlow, by simp⟩

/-- Only between the pieces there are slashes. -/
theorem RecodedPiece.slash_not_mem (h : RecodedPiece may as bs) : '/' ∉ as ∧ '/' ∉ bs := by
  cases h with
  | kept slash => simp [slash.symm]
  | escape hhigh hlow =>
    have hinert : '/' ∉ _ := fun hmem => (escape_inert hhigh hlow _ hmem).slash rfl
    exact ⟨hinert, hinert⟩
  | encoded _ slash _ escapes =>
    exact ⟨by simp [slash.symm], fun hmem => (escapes.inert _ hmem).slash rfl⟩

/-- The scanner stands in the same place behind both texts if quotes and parentheses are kept. -/
theorem RecodedPiece.scan_eq (harmless : ∀ c, may c → c ∉ ['\'', '(', ')'])
    (h : RecodedPiece may as bs) (s : Nesting) : s.scan bs = s.scan as := by
  cases h with
  | kept => rfl
  | escape => rfl
  | @encoded c es chosen slash _ escapes =>
    have hc := harmless c chosen
    simp only [List.mem_cons, List.not_mem_nil, or_false, not_or] at hc
    have hinert : Inert c := ⟨hc.1, hc.2.1, hc.2.2, slash⟩
    rw [scan_of_inert escapes.inert, scan_of_inert (by simpa using hinert)]

/-! ### Slashes -/

/-- Whether each slash of a text separates, in the order of the slashes. -/
def cuts (s : Nesting) : List Char → List Bool
  | [] => []
  | c :: cs => if c = '/' then separates '/' s c :: cuts (s.advance c) cs else cuts (s.advance c) cs

theorem cuts_slash (s : Nesting) (cs : List Char) :
    cuts s ('/' :: cs) = separates '/' s '/' :: cuts s cs := by
  rw [cuts, if_pos rfl, advance_slash]

theorem cuts_append (h : '/' ∉ as) (s : Nesting) (cs : List Char) :
    cuts s (as ++ cs) = cuts (s.scan as) cs := by
  induction as generalizing s with
  | nil => rfl
  | cons a as ih =>
    rw [List.mem_cons, not_or] at h
    rw [List.cons_append, cuts, if_neg (Ne.symm h.1), ih h.2]
    rfl

theorem Recoded.cuts_eq_of_forall (harmless : ∀ c, may c → c ∉ ['\'', '(', ')'])
    (h : Recoded may cs ds) (s : Nesting) : cuts s ds = cuts s cs := by
  induction h generalizing s with
  | nil => rfl
  | slash _ ih => rw [cuts_slash, cuts_slash, ih]
  | piece first _ ih =>
    obtain ⟨has, hbs⟩ := first.slash_not_mem
    rw [cuts_append hbs, cuts_append has, first.scan_eq harmless, ih]

/-! ### Splitting -/

/-- A text without the separator belongs to the first part. -/
theorem splitFrom_append_of_not_mem {sep : Char} (h : sep ∉ as) (s : Nesting) (cs : List Char) :
    ∃ part parts, splitFrom sep (s.scan as) cs = part :: parts ∧
      splitFrom sep s (as ++ cs) = (as ++ part) :: parts := by
  induction as generalizing s with
  | nil =>
    obtain ⟨part, parts, hparts⟩ := List.exists_cons_of_ne_nil (splitFrom_ne_nil sep s cs)
    exact ⟨part, parts, hparts, hparts⟩
  | cons a as ih =>
    rw [List.mem_cons, not_or] at h
    have hseparates : separates sep s a = false := by simp [separates, Ne.symm h.1]
    obtain ⟨part, parts, hparts, hsplit⟩ := ih h.2 (s.advance a)
    obtain ⟨first, others, hfirst, hwhole⟩ := splitFrom_cons hseparates (as ++ cs)
    rw [hsplit] at hfirst
    cases hfirst
    exact ⟨part, parts, hparts, hwhole⟩

/-- A slash that does not separate belongs to the first part. -/
theorem splitFrom_slash (h : separates '/' s '/' = false) (cs : List Char) :
    ∃ part parts, splitFrom '/' s cs = part :: parts ∧
      splitFrom '/' s ('/' :: cs) = ('/' :: part) :: parts := by
  have hsplit := splitFrom_cons h cs
  rwa [advance_slash] at hsplit

theorem splitFrom_slash_separates (h : separates '/' s '/' = true) (cs : List Char) :
    splitFrom '/' s ('/' :: cs) = [] :: splitFrom '/' s cs := by
  simp [splitFrom, h]

/-- Two lists of parts stand for the same bytes behind a common front if and only if they do without it. -/
theorem map_unescape_append {bytes : List UInt8} {part part' : List Char} {parts parts' : List (List Char)}
    (has : ∀ cs, unescape (as ++ cs) = (unescape cs).map (bytes ++ ·))
    (hbs : ∀ cs, unescape (bs ++ cs) = (unescape cs).map (bytes ++ ·)) :
    ((bs ++ part') :: parts').map unescape = ((as ++ part) :: parts).map unescape ↔
      (part' :: parts').map unescape = (part :: parts).map unescape := by
  have hinjective : Function.Injective (Option.map (bytes ++ ·)) :=
    Option.map_injective (List.append_right_injective bytes)
  simp only [List.map_cons, List.cons.injEq, has, hbs, hinjective.eq_iff]

/-- A text that starts with a slash does not stand for no bytes. -/
theorem unescape_slash_ne_nil (cs : List Char) : unescape ('/' :: cs) ≠ unescape [] := by
  have hslash : String.utf8EncodeChar '/' = [0x2F] := by decide
  rw [unescape_cons (by decide), hslash]
  cases unescape cs <;> simp [unescape]

/-- The parts of both texts stand for the same bytes if and only if their slashes separate alike: at the
first one that separates in one text only, a part ends there that goes on in the other text. The scanner
need not stand in the same place, for only the slashes show where it stands. -/
theorem Recoded.map_unescape_splitFrom (h : Recoded may cs ds) :
    (splitFrom '/' s' ds).map unescape = (splitFrom '/' s cs).map unescape ↔ cuts s' ds = cuts s cs := by
  -- both nestings are general, since they differ from the first encoded quote or parenthesis on
  induction h generalizing s s' with
  | nil => simp [splitFrom, cuts]
  | @slash cs ds _ ih =>
    rw [cuts_slash, cuts_slash, List.cons.injEq, ← ih]
    cases hcs : separates '/' s '/' <;> cases hds : separates '/' s' '/'
    case true.true =>
      -- a part ends in both texts
      rw [splitFrom_slash_separates hcs, splitFrom_slash_separates hds]
      simp
    case false.false =>
      -- the first part goes on in both
      obtain ⟨part, parts, hparts, hsplit⟩ := splitFrom_slash hcs cs
      obtain ⟨part', parts', hparts', hsplit'⟩ := splitFrom_slash hds ds
      have hfront : ∀ cs, unescape (['/'] ++ cs) = _ := unescape_cons (by decide)
      rw [hsplit, hsplit', hparts, hparts']
      exact (map_unescape_append hfront hfront).trans (by simp)
    -- it goes on in one of them only, so one of the first parts is empty and the other one is not
    case false.true =>
      obtain ⟨part, parts, -, hsplit⟩ := splitFrom_slash hcs cs
      rw [hsplit, splitFrom_slash_separates hds]
      simp [(unescape_slash_ne_nil part).symm]
    case true.false =>
      obtain ⟨part, parts, -, hsplit⟩ := splitFrom_slash hds ds
      rw [hsplit, splitFrom_slash_separates hcs]
      simp [unescape_slash_ne_nil part]
  | @piece as bs cs ds first _ ih =>
    obtain ⟨has, hbs⟩ := first.slash_not_mem
    obtain ⟨bytes, hbytes⟩ := first.unescape_append
    obtain ⟨part, parts, hparts, hsplit⟩ := splitFrom_append_of_not_mem has s cs
    obtain ⟨part', parts', hparts', hsplit'⟩ := splitFrom_append_of_not_mem hbs s' ds
    rw [cuts_append has, cuts_append hbs, ← ih, hsplit, hsplit', hparts, hparts']
    exact map_unescape_append (fun cs => (hbytes cs).1) fun cs => (hbytes cs).2

/-! ### Slashes in front -/

theorem RecodedPiece.ne_nil (h : RecodedPiece may as bs) : as ≠ [] ∧ bs ≠ [] := by
  cases h with
  | kept => simp
  | escape => simp
  | @encoded c es _ _ _ escapes =>
    refine ⟨by simp, ?_⟩
    intro hes
    rw [hes] at escapes
    have hlength := String.length_utf8EncodeChar c
    cases hbytes : String.utf8EncodeChar c with
    | nil =>
      rw [hbytes] at hlength
      exact absurd hlength.symm c.utf8Size_pos.ne'
    | cons b bytes =>
      rw [hbytes] at escapes
      cases escapes

theorem dropWhile_slash_append (hne : as ≠ []) (h : '/' ∉ as) (cs : List Char) :
    (as ++ cs).dropWhile (· == '/') = as ++ cs := by
  cases as with
  | nil => exact absurd rfl hne
  | cons a as =>
    rw [List.mem_cons, not_or] at h
    rw [List.cons_append, List.dropWhile_cons_of_neg (by simpa using Ne.symm h.1)]

/-- Slashes in front of both texts may be left out: outside of everything, each of them separates. -/
theorem Recoded.dropSlashes (h : Recoded may cs ds) :
    Recoded may (cs.dropWhile (· == '/')) (ds.dropWhile (· == '/')) ∧
      (cuts .outermost (ds.dropWhile (· == '/')) = cuts .outermost (cs.dropWhile (· == '/')) ↔
        cuts .outermost ds = cuts .outermost cs) := by
  induction h with
  | nil => exact ⟨.nil, Iff.rfl⟩
  | slash _ ih =>
    rw [List.dropWhile_cons_of_pos (by simp), List.dropWhile_cons_of_pos (by simp), cuts_slash,
      cuts_slash, List.cons_inj_right]
    exact ih
  | piece first rest _ =>
    obtain ⟨has, hbs⟩ := first.slash_not_mem
    rw [dropWhile_slash_append first.ne_nil.1 has, dropWhile_slash_append first.ne_nil.2 hbs]
    exact ⟨.piece first rest, Iff.rfl⟩

end ODataRequest.Text
