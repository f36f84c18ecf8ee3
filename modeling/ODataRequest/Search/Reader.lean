import ODataRequest.Search.Basic

/-!
# ODataRequest.Search.Reader

Reading search expressions. Neighbours without an operator between them are a conjunction.
Conjunctions and disjunctions group to the left. Parentheses and negations nest up to a limit; the
recursion follows what is left of it, and inside one level the loops follow the tokens.
-/

namespace ODataRequest.SearchExpression

/-- A reader of search tokens: it uses at least one of them. -/
abbrev Reader :=
  (tokens : List SearchToken) →
    Except GrammarError
      (SearchExpression × { rest : List SearchToken // rest.length < tokens.length })

/-- Read on with fewer tokens, for a place where there were more. -/
def within {few many : List SearchToken} (h : few.length < many.length)
    (x : Except GrammarError
      (SearchExpression × { rest : List SearchToken // rest.length < few.length })) :
    Except GrammarError
      (SearchExpression × { rest : List SearchToken // rest.length < many.length }) :=
  x.map fun r => (r.1, ⟨r.2.1, Nat.lt_trans r.2.2 h⟩)

/-- A word, a phrase, or what `nested` reads between parentheses. -/
def primary (source : String) (nested : Reader) : Reader
  | .word text :: rest => .ok (.term text, ⟨rest, Nat.lt_succ_self _⟩)
  | .phrase text :: rest => .ok (.phrase text, ⟨rest, Nat.lt_succ_self _⟩)
  | .opening :: rest =>
    match nested rest with
    | .error e => .error e
    | .ok (e, ⟨.closing :: rest', h⟩) =>
      .ok (e, ⟨rest', by simp only [List.length_cons] at h ⊢; omega⟩)
    | .ok _ => .error (.malformedSearch source)
  | _ => .error (.malformedSearch source)

/-- A negation of what `operand` reads, or else a primary expression. -/
def negation (source : String) (operand nested : Reader) : Reader
  | .not :: rest => within (Nat.lt_succ_self _) ((operand rest).map fun r => (.not r.1, r.2))
  | tokens => primary source nested tokens

/-- What a reader gives that may use no tokens at all. -/
abbrev Continued (tokens : List SearchToken) :=
  Except GrammarError
    (SearchExpression × { rest : List SearchToken // rest.length ≤ tokens.length })

/-- Read on with fewer tokens, for a place where there were more. -/
def further {few many : List SearchToken} (h : few.length ≤ many.length) (x : Continued few) :
    Continued many :=
  x.map fun r => (r.1, ⟨r.2.1, Nat.le_trans r.2.2 h⟩)

/-- Can an expression that is no conjunction or disjunction start with the token? -/
def startsUnit : SearchToken → Bool
  | .not | .opening | .word _ | .phrase _ => true
  | .and | .or | .closing => false

/-- Go on with a conjunction, `left` being read already. -/
def conjunctionFrom (unit : Reader) (left : SearchExpression) :
    (tokens : List SearchToken) → Continued tokens
  | [] => .ok (left, ⟨[], Nat.le_refl _⟩)
  | t :: rest =>
    if t = .and then
      match unit rest with
      | .error e => .error e
      | .ok (right, ⟨rest', h⟩) =>
        further (Nat.le_succ_of_le (Nat.le_of_lt h))
          (conjunctionFrom unit (.and left right) rest')
    else if startsUnit t then
      match unit (t :: rest) with
      | .error e => .error e
      | .ok (right, ⟨rest', h⟩) =>
        further (Nat.le_of_lt h) (conjunctionFrom unit (.and left right) rest')
    else .ok (left, ⟨t :: rest, Nat.le_refl _⟩)
termination_by tokens => tokens.length
decreasing_by
  · simp only [List.length_cons]
    omega
  · exact h

/-- A conjunction of what `unit` reads. -/
def conjunction (unit : Reader) : Reader := fun tokens =>
  match unit tokens with
  | .error e => .error e
  | .ok (left, ⟨rest, h⟩) =>
    (conjunctionFrom unit left rest).map fun r => (r.1, ⟨r.2.1, Nat.lt_of_le_of_lt r.2.2 h⟩)

/-- Go on with a disjunction, `left` being read already. -/
def disjunctionFrom (unit : Reader) (left : SearchExpression) :
    (tokens : List SearchToken) → Continued tokens
  | [] => .ok (left, ⟨[], Nat.le_refl _⟩)
  | t :: rest =>
    if t = .or then
      match conjunction unit rest with
      | .error e => .error e
      | .ok (right, ⟨rest', h⟩) =>
        further (Nat.le_succ_of_le (Nat.le_of_lt h)) (disjunctionFrom unit (.or left right) rest')
    else .ok (left, ⟨t :: rest, Nat.le_refl _⟩)
termination_by tokens => tokens.length
decreasing_by
  simp only [List.length_cons]
  omega

/-- A disjunction of conjunctions of what `unit` reads. -/
def disjunction (unit : Reader) : Reader := fun tokens =>
  match conjunction unit tokens with
  | .error e => .error e
  | .ok (left, ⟨rest, h⟩) =>
    (disjunctionFrom unit left rest).map fun r => (r.1, ⟨r.2.1, Nat.lt_of_le_of_lt r.2.2 h⟩)

/-- A negation or a primary expression, with so many levels of nesting left of a limit. -/
def unit (source : String) (limit : Nat) : Nat → Reader
  | 0 =>
    let tooDeep : Reader := fun _ => .error (.tooDeeplyNested (toString (limit + 1)))
    negation source tooDeep tooDeep
  | room + 1 =>
    negation source (unit source limit room) (disjunction (unit source limit room))

/-- Read a search expression with at most `limit` levels of parentheses and negations. -/
def parse (limit : Nat) (text : String) : Except GrammarError SearchExpression :=
  match SearchToken.tokens? text.toList with
  | none => .error (.malformedSearch text)
  | some tokens =>
    match disjunction (unit text limit limit) tokens with
    | .error e => .error e
    | .ok (e, ⟨[], _⟩) => .ok e
    | .ok _ => .error (.malformedSearch text)

end ODataRequest.SearchExpression
