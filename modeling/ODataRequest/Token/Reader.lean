import ODataRequest.Request.Resolution
import ODataRequest.Token.Basic

/-!
# ODataRequest.Token.Reader

Reading tokens from left to right. A reader gets the tokens that are left and gives a value and the
tokens after it, never more than there were (`Remaining`). Loops go through `foldWhile`, which ends
because it skips a token before each step; every other reader is put together from it.

A reader knows the whole text its tokens come from, since that is what a grammar error reports.
-/

namespace ODataRequest

/-- The tokens that are left of a list of tokens. -/
abbrev Remaining (tokens : List Token) :=
  { rest : List Token // rest.length ≤ tokens.length }

/-- A reader of tokens of a given text. -/
def TokenReader (α : Type) : Type :=
  (source : String) → (tokens : List Token) → Resolution (α × Remaining tokens)

namespace TokenReader

/-- Give a value and leave all tokens. -/
def pure {α : Type} (value : α) : TokenReader α :=
  fun _ tokens => .done (value, ⟨tokens, Nat.le_refl _⟩)

/-- One reader after another. -/
def bind {α β : Type} (x : TokenReader α) (f : α → TokenReader β) : TokenReader β :=
  fun source tokens => do
    let (a, ⟨rest, h⟩) ← x source tokens
    let (b, ⟨rest', h'⟩) ← f a source rest
    return (b, ⟨rest', Nat.le_trans h' h⟩)

instance : Monad TokenReader where
  pure := TokenReader.pure
  bind := TokenReader.bind

/-- A resolution that reads no tokens. -/
def ofResolution {α : Type} (x : Resolution α) : TokenReader α :=
  fun _ tokens => do return (← x, ⟨tokens, Nat.le_refl _⟩)

instance : MonadLift Resolution TokenReader where
  monadLift := ofResolution

/-- Report the whole text. -/
def malformed {α : Type} : TokenReader α :=
  fun source _ => Resolution.refuse (.malformed source)

/-- The next token but `n`; behind the last token stands the last token again. -/
def peekAt (n : Nat) : TokenReader Token :=
  fun _ tokens =>
    let token := (tokens[n]?.or tokens.getLast?).getD ⟨.endOfText, "", 0, false⟩
    .done (token, ⟨tokens, Nat.le_refl _⟩)

/-- The next token, which is left in place. -/
def peek : TokenReader Token :=
  peekAt 0

/-- The next token; the end of the text is never passed. -/
def next : TokenReader Token :=
  fun _ tokens =>
    match tokens with
    | [] => .done (⟨.endOfText, "", 0, false⟩, ⟨[], Nat.le_refl _⟩)
    | t :: rest =>
      if t.kind = .endOfText then .done (t, ⟨t :: rest, Nat.le_refl _⟩)
      else .done (t, ⟨rest, Nat.le_succ _⟩)

/-- Is the next token of a kind? -/
def sees (kind : TokenKind) : TokenReader Bool := do
  return (← peek).kind == kind

/-- Skip the next token if it is of a kind, and tell whether it was. -/
def skips (kind : TokenKind) : TokenReader Bool := do
  if ← sees kind then
    let _ ← next
    return true
  else return false

/-- The next token, which has to be of a kind. -/
def expect (kind : TokenKind) : TokenReader Token := do
  if ← sees kind then next else malformed

/-- Nothing may be left. -/
def finish : TokenReader Unit := do
  if ← sees .endOfText then return () else malformed

/-- As long as the next token selects a step, skip the token and take the step. -/
def foldWhile {σ : Type} (select : σ → Token → Option (TokenReader σ)) (state : σ) :
    TokenReader σ :=
  fun source tokens =>
    match tokens with
    | [] => .done (state, ⟨[], Nat.le_refl _⟩)
    | t :: ts =>
      match select state t with
      | none => .done (state, ⟨t :: ts, Nat.le_refl _⟩)
      | some step => do
        let (state, ⟨rest, h⟩) ← step source ts
        let (state, ⟨rest', h'⟩) ← foldWhile select state source rest
        return (state, ⟨rest', by simp only [List.length_cons]; omega⟩)
termination_by _ tokens => tokens.length
decreasing_by simp only [List.length_cons]; omega

/-- A step, and further ones as long as a token of the given kind stands between them. -/
def foldSeparated {σ : Type} (separator : TokenKind) (step : σ → TokenReader σ) (state : σ) :
    TokenReader σ := do
  foldWhile (fun s t => if t.kind = separator then some (step s) else none) (← step state)

/-- One or more items with commas between them. -/
def commaSeparated {α : Type} (item : TokenReader α) : TokenReader (List α) := do
  return (← foldSeparated .comma (fun items => return (← item) :: items) []).reverse

/-- Read a whole text with a reader that has to use all its tokens. -/
def readAll {α : Type} (x : TokenReader α) (text : String) : Resolution α := do
  let tokens ← Resolution.ofGrammar (tokenize text)
  let (value, rest) ← x text tokens
  let _ ← finish text rest.1
  return value

end TokenReader

end ODataRequest
