/-!
# ODataRequest.Text.TopLevel

Splitting at separators that stand outside of parentheses and quoted strings. The scanner is a
finite state (`Nesting`) that moves over the text: a quote toggles quoting, and parentheses count
only outside of quotes. A closing parenthesis without an opening one is passed over.
-/

namespace ODataRequest.Text

/-- Where a scan stands: inside how many parentheses, and inside a quoted string or not. -/
structure Nesting where
  depth : Nat
  quoted : Bool
deriving DecidableEq, Repr

namespace Nesting

/-- Outside of all parentheses and quotes. -/
def outermost : Nesting := ⟨0, false⟩

/-- Move over one character. -/
def advance (s : Nesting) (c : Char) : Nesting :=
  if c = '\'' then { s with quoted := !s.quoted }
  else if s.quoted then s
  else if c = '(' then { s with depth := s.depth + 1 }
  else if c = ')' then { s with depth := s.depth - 1 }
  else s

/-- Move over a text. -/
def scan (s : Nesting) (cs : List Char) : Nesting :=
  cs.foldl advance s

theorem scan_append (s : Nesting) (as bs : List Char) :
    s.scan (as ++ bs) = (s.scan as).scan bs := by
  simp [scan]

end Nesting

/-- Quotes and parentheses never separate. -/
def separates (sep : Char) (s : Nesting) (c : Char) : Bool :=
  c == sep && s == .outermost && c != '\'' && c != '(' && c != ')'

/-- The parts of a text between top-level separators, starting from the nesting `s`. -/
def splitFrom (sep : Char) (s : Nesting) : List Char → List (List Char)
  | [] => [[]]
  | c :: cs =>
    if separates sep s c then [] :: splitFrom sep s cs
    else
      match splitFrom sep (s.advance c) cs with
      | [] => [[c]]
      | piece :: rest => (c :: piece) :: rest

/-- The parts of a text between the separators outside of parentheses and quoted strings. -/
def splitTopLevel (sep : Char) (cs : List Char) : List (List Char) :=
  splitFrom sep .outermost cs

theorem splitFrom_ne_nil (sep : Char) (s : Nesting) (cs : List Char) : splitFrom sep s cs ≠ [] := by
  cases cs with
  | nil => simp [splitFrom]
  | cons c cs =>
    simp only [splitFrom]
    split
    · simp
    · split <;> simp

end ODataRequest.Text
