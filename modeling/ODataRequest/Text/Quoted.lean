import ODataRequest.Text.Cut

/-!
# ODataRequest.Text.Quoted

Quoted text: between single quotes, a quote inside is written twice. Reading takes exactly what
writing produces.
-/

namespace ODataRequest.Text

/-- Write every quote twice. -/
def doubleQuotes : List Char → List Char
  | [] => []
  | c :: cs => if c = '\'' then '\'' :: '\'' :: doubleQuotes cs else c :: doubleQuotes cs

/-- Read a text in which every quote is written twice; a quote that stands alone is refused. -/
def undoubleQuotes? : List Char → Option (List Char)
  | [] => some []
  | '\'' :: '\'' :: cs => (undoubleQuotes? cs).map ('\'' :: ·)
  | c :: cs => if c = '\'' then none else (undoubleQuotes? cs).map (c :: ·)

/-- Write a text between quotes. -/
def quote (cs : List Char) : List Char :=
  '\'' :: doubleQuotes cs ++ ['\'']

/-- Read a text between quotes. -/
def unquote? (cs : List Char) : Option (List Char) :=
  match cs with
  | '\'' :: rest => (before? ['\''] rest).bind undoubleQuotes?
  | _ => none

theorem undoubleQuotes?_doubleQuotes (cs : List Char) :
    undoubleQuotes? (doubleQuotes cs) = some cs := by
  induction cs with
  | nil => rfl
  | cons c cs ih =>
    by_cases h : c = '\''
    · simp [doubleQuotes, undoubleQuotes?, h, ih]
    · simp [doubleQuotes, undoubleQuotes?, h, ih]

end ODataRequest.Text
