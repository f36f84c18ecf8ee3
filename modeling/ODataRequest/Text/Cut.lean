import ODataRequest.Text.Letter

/-!
# ODataRequest.Text.Cut

Cutting character lists: at the first character of a class, at every separator, behind a literal
beginning, in front of a literal end, and off the blank space at both ends. Texts are handled as
`List Char`; strings are converted where a type stores one.
-/

namespace ODataRequest.Text

/-! ### Separators -/

/-- The parts before and after the first character that satisfies `p`, which itself is dropped. -/
def cut? (p : Char → Bool) : List Char → Option (List Char × List Char)
  | [] => none
  | c :: cs => if p c then some ([], cs) else (cut? p cs).map fun parts => (c :: parts.1, parts.2)

/-- The parts before and after the first `sep`. -/
def cutAt? (sep : Char) : List Char → Option (List Char × List Char) :=
  cut? (· == sep)

/-- All parts between separators; one more part than there are separators. -/
def pieces (sep : Char) : List Char → List (List Char)
  | [] => [[]]
  | c :: cs =>
    if c = sep then [] :: pieces sep cs
    else
      match pieces sep cs with
      | [] => [[c]]
      | piece :: rest => (c :: piece) :: rest

/-- Put the parts together again with `sep` between neighbours. -/
def joined (sep : Char) : List (List Char) → List Char
  | [] => []
  | [piece] => piece
  | piece :: rest => piece ++ sep :: joined sep rest

theorem pieces_ne_nil (sep : Char) (cs : List Char) : pieces sep cs ≠ [] := by
  cases cs with
  | nil => simp [pieces]
  | cons c cs =>
    simp only [pieces]
    split
    · simp
    · split <;> simp

theorem joined_cons_cons (sep : Char) (piece next : List Char) (rest : List (List Char)) :
    joined sep (piece :: next :: rest) = piece ++ sep :: joined sep (next :: rest) := rfl

/-- Joining the pieces of a text gives the text back. -/
theorem joined_pieces (sep : Char) (cs : List Char) : joined sep (pieces sep cs) = cs := by
  induction cs with
  | nil => rfl
  | cons c cs ih =>
    simp only [pieces]
    have hne := pieces_ne_nil sep cs
    revert ih hne
    cases pieces sep cs with
    | nil => intro _ h; exact absurd rfl h
    | cons piece rest =>
      intro ih _
      split
      · rename_i h
        subst h
        rw [joined_cons_cons, ih]
        rfl
      · cases rest with
        | nil =>
          simp only [joined] at ih ⊢
          rw [ih]
        | cons next rest =>
          rw [joined_cons_cons] at ih ⊢
          rw [List.cons_append, ih]

/-! ### Literal beginnings and ends -/

/-- The rest of a text behind a literal beginning. -/
def behind? : List Char → List Char → Option (List Char)
  | [], cs => some cs
  | _ :: _, [] => none
  | h :: hs, c :: cs => if c = h then behind? hs cs else none

/-- The text in front of a literal end. -/
def before? (ending cs : List Char) : Option (List Char) :=
  (behind? ending.reverse cs.reverse).map List.reverse

/-- Does a text start with a literal beginning, the case of ASCII letters aside? -/
def startsIgnoringCase : List Char → List Char → Bool
  | [], _ => true
  | _ :: _, [] => false
  | h :: hs, c :: cs => c.toLower == h.toLower && startsIgnoringCase hs cs

/-- Equality of texts, the case of ASCII letters aside. -/
def equalIgnoringCase (a b : List Char) : Bool :=
  a.map Char.toLower == b.map Char.toLower

theorem behind?_append (head cs : List Char) : behind? head (head ++ cs) = some cs := by
  induction head with
  | nil => simp [behind?]
  | cons h hs ih => simp [behind?, ih]

theorem eq_append_of_behind? {head cs rest : List Char} (h : behind? head cs = some rest) :
    cs = head ++ rest := by
  induction head generalizing cs with
  | nil => simpa [behind?] using h
  | cons x xs ih =>
    cases cs with
    | nil => simp [behind?] at h
    | cons c cs =>
      simp only [behind?] at h
      split at h
      · rename_i hc
        subst hc
        rw [ih h, List.cons_append]
      · simp at h

/-! ### Blank space -/

/-- The text without the blank characters at its start. -/
def trimStart (cs : List Char) : List Char :=
  cs.dropWhile isBlank

/-- The text without the blank characters at either end. -/
def trim (cs : List Char) : List Char :=
  (trimStart (trimStart cs).reverse).reverse

/-- The non-empty runs of characters that are not blank. -/
def words (cs : List Char) : List (List Char) :=
  (cs.foldr (fun c acc =>
    if isBlank c then [] :: acc
    else
      match acc with
      | [] => [[c]]
      | w :: ws => (c :: w) :: ws) [[]]).filter (· ≠ [])

end ODataRequest.Text
