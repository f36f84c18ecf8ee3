import ODataRequest.Primitive.Value
import ODataRequest.Request.Error

/-!
# ODataRequest.Token.Basic

Tokens of path segments and expressions. Only spaces and tabs stand between tokens. Literals are
found by their beginning and are checked where the beginning leaves a doubt: a number has to be a
literal as a whole, and a word in front of a quoted text has to be a known one or a qualified name.
Operators such as `eq` are identifiers here.

A token is told by its first character and the number of its further characters (`lexeme?`), so a
token is never empty and its text is a piece of the input. The list of tokens ends with a token for
the end of the text, which tells whether blank space stands before the end.
-/

namespace ODataRequest

/-- What a token is. -/
inductive TokenKind where
  | identifier
  | literal
  | enumLiteral
  | parameterAlias
  | dollar
  | openParen
  | closeParen
  | comma
  | slash
  | equals
  | semicolon
  | colon
  | star
  | minus
  | endOfText
deriving DecidableEq, Repr

/-- A token: its text, the number of bytes in front of it, and whether blank space stands directly
in front of it. -/
structure Token where
  kind : TokenKind
  text : String
  offset : Nat
  spaceBefore : Bool
deriving DecidableEq, Repr

/-- Is the token the given identifier? -/
def Token.isWord (t : Token) (word : String) : Bool :=
  t.kind == .identifier && t.text == word

namespace Lexeme

/-- Blank space between tokens. -/
def isSpace (c : Char) : Bool :=
  c == ' ' || c == '\t'

/-- A character a number can go on with; dates, times and hyphenated identifiers start like a
number. -/
def isNumberPart (c : Char) : Bool :=
  c.isAlphanum || ['.', ':', '+', '-'].contains c

/-- Tokens of one character. -/
def punctuation? : Char → Option TokenKind
  | '(' => some .openParen
  | ')' => some .closeParen
  | ',' => some .comma
  | '/' => some .slash
  | '=' => some .equals
  | ';' => some .semicolon
  | ':' => some .colon
  | '*' => some .star
  | _ => none

/-- The number of characters of a quoted text behind its opening quote, the closing quote included;
two quotes in a row do not close. -/
def quotedLength? : List Char → Option Nat
  | [] => none
  | '\'' :: '\'' :: cs => (quotedLength? cs).map (· + 2)
  | c :: cs => if c = '\'' then some 1 else (quotedLength? cs).map (· + 1)

/-- The number of characters of an identifier, or of several with dots between them, behind the
first character. A dot belongs to it if another identifier follows. -/
def wordLength : List Char → Nat
  | [] => 0
  | c :: cs =>
    if isIdentifierPart c then wordLength cs + 1
    else if c = '.' ∧ (cs.head?.any isIdentifierStart) = true then wordLength cs + 1
    else 0

/-- The number of characters at the start of a text that satisfy `p`. -/
def runLength (p : Char → Bool) (cs : List Char) : Nat :=
  (cs.takeWhile p).length

/-- Words in front of a quoted text that make a literal of it. -/
def quotedLiteralWords : List (List Char) :=
  ["duration".toList, "binary".toList, "geography".toList, "geometry".toList]

/-- Words that are literals. -/
def literalWords : List (List Char) :=
  ["true".toList, "false".toList, "null".toList, "INF".toList, "NaN".toList]

/-- A token that starts with a digit or with a minus that belongs to it. -/
def number? (c : Char) (cs : List Char) : Option (TokenKind × Nat) :=
  let n := runLength isNumberPart cs
  if (PrimitiveValue.infer? (c :: cs.take n)).isSome then some (.literal, n) else none

/-- A token that starts with a letter: a literal, a literal of an enumeration, or an identifier. A
hyphenated unique identifier may start with a letter. -/
def word? (c : Char) (cs : List Char) : Option (TokenKind × Nat) :=
  let n := wordLength cs
  let word := c :: cs.take n
  match cs.drop n with
  | '\'' :: rest =>
    (quotedLength? rest).bind fun m =>
      if quotedLiteralWords.contains word then some (.literal, n + 1 + m)
      else if word.contains '.' then some (.enumLiteral, n + 1 + m)
      else none
  | _ =>
    if literalWords.contains word then some (.literal, n)
    else if (Guid.parse? (c :: cs.take 35)).isSome then some (.literal, 35)
    else some (.identifier, n)

/-- The token that starts with the character `c`: what it is, and how many of the characters that
follow belong to it. -/
def lexeme? (c : Char) (cs : List Char) : Option (TokenKind × Nat) :=
  match punctuation? c with
  | some kind => some (kind, 0)
  | none =>
    if c = '\'' then (quotedLength? cs).map fun n => (.literal, n)
    else if c = '@' ∨ c = '$' then
      let n := runLength isIdentifierPart cs
      if n = 0 then none else some (if c = '@' then .parameterAlias else .dollar, n)
    else if c = '-' then
      if (cs.head?.any Char.isDigit) = true ∨ "INF".toList.isPrefixOf cs = true then number? c cs
      else some (.minus, 0)
    else if c.isDigit then number? c cs
    else if isIdentifierStart c then word? c cs
    else none

/-- The number of bytes of a text. -/
def byteLength (cs : List Char) : Nat :=
  cs.foldr (fun c n => c.utf8Size + n) 0

/-- The tokens of a text, where `offset` bytes stand in front of it. -/
def tokensFrom (offset : Nat) (spaceBefore : Bool) : List Char → Option (List Token)
  | [] => some [⟨.endOfText, "", offset, spaceBefore⟩]
  | c :: cs =>
    if isSpace c then tokensFrom (offset + 1) true cs
    else
      match lexeme? c cs with
      | none => none
      | some (kind, n) =>
        let text := c :: cs.take n
        (tokensFrom (offset + byteLength text) false (cs.drop n)).map
          (⟨kind, String.ofList text, offset, spaceBefore⟩ :: ·)
termination_by cs => cs.length
decreasing_by all_goals simp only [List.length_cons, List.length_drop]; omega

end Lexeme

/-- The tokens of a text, the last of them for its end. -/
def tokenize (text : String) : Except GrammarError (List Token) :=
  match Lexeme.tokensFrom 0 false text.toList with
  | some tokens => .ok tokens
  | none => .error (.malformed text)

end ODataRequest
