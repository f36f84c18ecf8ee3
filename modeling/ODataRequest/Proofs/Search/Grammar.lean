import ODataRequest.Search.Reader

/-!
# ODataRequest.Proofs.Search.Grammar

The grammar of search expressions (`SearchExpression.Derives`), apart from any reader:

* a disjunction is a conjunction, or a disjunction, `OR` and a conjunction;
* a conjunction is a negation, or a conjunction and a negation, with `AND` between them or not;
* a negation is `NOT` and a negation, or a primary expression;
* a primary expression is a word, a phrase, or a disjunction in parentheses.

The rules for `OR` and `AND` are left-recursive, so these operators associate to the left. A
derivation counts how deep negations and parentheses nest in it.
-/

namespace ODataRequest.SearchExpression

/-- The parts that search expressions are made of. -/
inductive Part where
  | disjunction
  | conjunction
  | negation
  | primary
deriving DecidableEq, Repr

/-- The tokens derive the expression as a part of the given sort, with at most `depth` negations and
parentheses inside each other. -/
inductive Derives : Part → (depth : Nat) → List SearchToken → SearchExpression → Prop
  | word {depth : Nat} (text : String) : Derives .primary depth [.word text] (.term text)
  | phrase {depth : Nat} (text : String) : Derives .primary depth [.phrase text] (.phrase text)
  | group {depth : Nat} {ts : List SearchToken} {e : SearchExpression}
      (inner : Derives .disjunction depth ts e) :
      Derives .primary (depth + 1) (.opening :: (ts ++ [.closing])) e
  | primary {depth : Nat} {ts : List SearchToken} {e : SearchExpression}
      (only : Derives .primary depth ts e) : Derives .negation depth ts e
  | not {depth : Nat} {ts : List SearchToken} {e : SearchExpression}
      (operand : Derives .negation depth ts e) : Derives .negation (depth + 1) (.not :: ts) (.not e)
  | negation {depth : Nat} {ts : List SearchToken} {e : SearchExpression}
      (only : Derives .negation depth ts e) : Derives .conjunction depth ts e
  | and {depth : Nat} {ts us : List SearchToken} {l r : SearchExpression}
      (left : Derives .conjunction depth ts l) (right : Derives .negation depth us r) :
      Derives .conjunction depth (ts ++ .and :: us) (.and l r)
  | beside {depth : Nat} {ts us : List SearchToken} {l r : SearchExpression}
      (left : Derives .conjunction depth ts l) (right : Derives .negation depth us r) :
      Derives .conjunction depth (ts ++ us) (.and l r)
  | conjunction {depth : Nat} {ts : List SearchToken} {e : SearchExpression}
      (only : Derives .conjunction depth ts e) : Derives .disjunction depth ts e
  | or {depth : Nat} {ts us : List SearchToken} {l r : SearchExpression}
      (left : Derives .disjunction depth ts l) (right : Derives .conjunction depth us r) :
      Derives .disjunction depth (ts ++ .or :: us) (.or l r)

namespace Derives

variable {part : Part} {depth : Nat} {ts : List SearchToken} {e : SearchExpression}

/-- What may nest deeper may nest as deep as it does. -/
theorem mono (h : Derives part depth ts e) {more : Nat} (hle : depth ≤ more) :
    Derives part more ts e := by
  induction h generalizing more with
  | word text => exact .word text
  | phrase text => exact .phrase text
  | group _ ih =>
    obtain ⟨more, rfl⟩ : ∃ n, more = n + 1 := ⟨more - 1, by omega⟩
    exact .group (ih (by omega))
  | primary _ ih => exact .primary (ih hle)
  | not _ ih =>
    obtain ⟨more, rfl⟩ : ∃ n, more = n + 1 := ⟨more - 1, by omega⟩
    exact .not (ih (by omega))
  | negation _ ih => exact .negation (ih hle)
  | and _ _ ihLeft ihRight => exact .and (ihLeft hle) (ihRight hle)
  | beside _ _ ihLeft ihRight => exact .beside (ihLeft hle) (ihRight hle)
  | conjunction _ ih => exact .conjunction (ih hle)
  | or _ _ ihLeft ihRight => exact .or (ihLeft hle) (ihRight hle)

/-- Every part is made of words, phrases, negations and groups, so it starts with one of them. -/
theorem exists_startsUnit (h : Derives part depth ts e) :
    ∃ t us, ts = t :: us ∧ startsUnit t = true := by
  induction h with
  | word text => exact ⟨_, _, rfl, rfl⟩
  | phrase text => exact ⟨_, _, rfl, rfl⟩
  | group => exact ⟨_, _, rfl, rfl⟩
  | not => exact ⟨_, _, rfl, rfl⟩
  | primary _ ih => exact ih
  | negation _ ih => exact ih
  | conjunction _ ih => exact ih
  | and _ _ ih | beside _ _ ih | or _ _ ih =>
    obtain ⟨t, us, rfl, ht⟩ := ih
    exact ⟨t, _, rfl, ht⟩

end Derives

end ODataRequest.SearchExpression
