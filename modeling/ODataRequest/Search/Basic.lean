import ODataRequest.Text.Cut
import ODataRequest.Request.Error

/-!
# ODataRequest.Search.Basic

Search expressions: words and phrases, negation, conjunction and disjunction, from the tightest to
the loosest. Writing puts parentheses only where the reading would otherwise group differently.
-/

namespace ODataRequest

/-- A search expression. -/
inductive SearchExpression where
  | term (word : String)
  | phrase (text : String)
  | not (operand : SearchExpression)
  | and (left right : SearchExpression)
  | or (left right : SearchExpression)
deriving DecidableEq, Repr

namespace SearchExpression

/-- How tight an expression binds. -/
def precedence : SearchExpression → Nat
  | .or _ _ => 1
  | .and _ _ => 2
  | .not _ => 3
  | .term _ => 4
  | .phrase _ => 4

/-- A phrase with every quotation mark behind a backslash. -/
def escapeQuotes : List Char → List Char
  | [] => []
  | c :: cs => if c = '"' then '\\' :: '"' :: escapeQuotes cs else c :: escapeQuotes cs

/-- Put parentheses around the text of an operand that binds less tight than its place asks. -/
def grouped (e : SearchExpression) (least : Nat) (text : List Char) : List Char :=
  if e.precedence < least then '(' :: text ++ [')'] else text

/-- The characters of an expression. -/
def chars : SearchExpression → List Char
  | .term word => word.toList
  | .phrase text => '"' :: escapeQuotes text.toList ++ ['"']
  | .not e => "NOT ".toList ++ grouped e 3 e.chars
  | .and l r => grouped l 2 l.chars ++ " AND ".toList ++ grouped r 3 r.chars
  | .or l r => grouped l 1 l.chars ++ " OR ".toList ++ grouped r 2 r.chars

/-- The text of an expression. -/
def text (e : SearchExpression) : String :=
  String.ofList e.chars

end SearchExpression

/-! ### Tokens -/

/-- A token of a search expression. -/
inductive SearchToken where
  | opening
  | closing
  | and
  | or
  | not
  | word (text : String)
  | phrase (text : String)
deriving DecidableEq, Repr

namespace SearchToken

/-- A character that ends a word. -/
def endsWord (c : Char) : Bool :=
  Text.isBlank c || c == '(' || c == ')' || c == '"'

/-- A phrase behind its opening quotation mark, and what follows its closing one. A backslash makes
the next character part of the phrase. -/
def phrase? : List Char → Option (List Char × List Char)
  | [] => none
  | '\\' :: [] => none
  | '\\' :: c :: cs => (phrase? cs).map fun r => (c :: r.1, r.2)
  | c :: cs => if c = '"' then some ([], cs) else (phrase? cs).map fun r => (c :: r.1, r.2)

theorem phrase?_length {cs text rest : List Char} (h : phrase? cs = some (text, rest)) :
    rest.length < cs.length := by
  fun_induction phrase? cs generalizing text rest with
  | case1 => simp at h
  | case2 => simp at h
  | case3 c cs ih =>
    obtain ⟨r, hr, he⟩ := Option.map_eq_some_iff.1 h
    cases he
    have := ih hr
    simp only [List.length_cons]
    omega
  | case4 => simp_all
  | case5 c cs _ _ _ ih =>
    obtain ⟨r, hr, he⟩ := Option.map_eq_some_iff.1 h
    cases he
    have := ih hr
    simp only [List.length_cons]
    omega

/-- The token of a word: three words in capitals are operators. -/
def ofWord (word : List Char) : SearchToken :=
  if word = "AND".toList then .and
  else if word = "OR".toList then .or
  else if word = "NOT".toList then .not
  else .word (String.ofList word)

/-- The tokens of a search expression; an empty phrase or one that does not end is refused. -/
def tokens? : List Char → Option (List SearchToken)
  | [] => some []
  | c :: cs =>
    if Text.isBlank c then tokens? cs
    else if c = '(' then (tokens? cs).map (.opening :: ·)
    else if c = ')' then (tokens? cs).map (.closing :: ·)
    else if c = '"' then
      match _h : phrase? cs with
      | none => none
      | some (text, rest) =>
        if text.isEmpty then none
        else (tokens? rest).map (.phrase (String.ofList text) :: ·)
    else
      let word := c :: cs.takeWhile (!endsWord ·)
      (tokens? (cs.dropWhile (!endsWord ·))).map (ofWord word :: ·)
termination_by cs => cs.length
decreasing_by
  all_goals simp only [List.length_cons]
  · omega
  · omega
  · omega
  · have := phrase?_length ‹phrase? cs = some _›
    omega
  · have := (List.dropWhile_suffix (l := cs) fun c => !endsWord c).length_le
    omega

end SearchToken

end ODataRequest
