import ODataRequest.Proofs.Resolution
import ODataRequest.Token.Reader

/-!
# ODataRequest.Proofs.Token.Extends

Computations of which one goes further than the other. A resolution is *refined* by another one if
both ask the same questions and come to the same, but perhaps where the first one fails with an
error that is tolerated (`Resolution.Refines`). The second one may do anything there, also ask for
more. If the errors of limits are the tolerated ones, it is *extended* (`Resolution.Extends`).

The relation has a rule for each way to put resolutions and readers together, so two readers of the
same shape are compared part by part, and only where they differ something has to be said about it.
Nothing catches errors, so a part that fails makes the whole fail; therefore the rule for sequences
needs no condition on what the first part leads to.
-/

namespace ODataRequest

/-- The error means that a limit is exceeded: something nests too deep, or too many levels of a
recursive expansion are asked for. -/
inductive RequestError.IsLimit : RequestError → Prop
  | nesting (found : String) : IsLimit (.grammar (.tooDeeplyNested found))
  | levels (text : String) : IsLimit (.grammar (.wrongOptionValue "$levels" text))

namespace Resolution

variable {α β γ σ : Type} {tolerated : RequestError → Prop}

/-- The second resolution comes to what the first one comes to, unless that fails with an error that
is tolerated. -/
inductive Refines (tolerated : RequestError → Prop) : Resolution α → Resolution α → Prop
  | done (value : α) : Refines tolerated (.done value) (.done value)
  | fail (error : RequestError) : Refines tolerated (.fail error) (.fail error)
  | further {error : RequestError} (h : tolerated error) (y : Resolution α) :
      Refines tolerated (.fail error) y
  | ask {question : Question} {next next' : question.Answer → Resolution α}
      (h : ∀ answer, Refines tolerated (next answer) (next' answer)) :
      Refines tolerated (.ask question next) (.ask question next')

/-- The second resolution comes to what the first one comes to, unless that fails for a limit. -/
abbrev Extends (x y : Resolution α) : Prop :=
  Refines RequestError.IsLimit x y

namespace Refines

variable {x y : Resolution α}

theorem refl (x : Resolution α) : Refines tolerated x x := by
  induction x with
  | done value => exact .done value
  | fail error => exact .fail error
  | ask question next ih => exact .ask ih

theorem bind {f g : α → Resolution β} (h : Refines tolerated x y)
    (hf : ∀ a, Refines tolerated (f a) (g a)) : Refines tolerated (x >>= f) (y >>= g) := by
  show Refines tolerated (x.bind f) (y.bind g)
  induction h with
  | done value => exact hf value
  | fail error => exact .fail error
  | further h y => exact .further h _
  | ask _ ih => exact .ask ih

/-- A step in which they do not differ comes first. -/
theorem after (x : Resolution α) {f g : α → Resolution β}
    (hf : ∀ a, Refines tolerated (f a) (g a)) : Refines tolerated (x >>= f) (x >>= g) :=
  (refl x).bind hf

/-- What comes behind is the same. -/
theorem andThen (h : Refines tolerated x y) (f : α → Resolution β) :
    Refines tolerated (x >>= f) (y >>= f) :=
  h.bind fun a => refl (f a)

theorem mapM {f g : α → Resolution β} (hf : ∀ a, Refines tolerated (f a) (g a)) (as : List α) :
    Refines tolerated (as.mapM f) (as.mapM g) := by
  induction as with
  | nil => exact refl _
  | cons a as ih =>
    rw [List.mapM_cons, List.mapM_cons]
    exact (hf a).bind fun b => ih.andThen _

theorem foldlM {f g : σ → α → Resolution σ}
    (hf : ∀ state a, Refines tolerated (f state a) (g state a)) (as : List α) (state : σ) :
    Refines tolerated (as.foldlM f state) (as.foldlM g state) := by
  induction as generalizing state with
  | nil => exact refl _
  | cons a as ih =>
    rw [List.foldlM_cons, List.foldlM_cons]
    exact (hf state a).bind ih

/-- A check of the grammar that changes only where its error is tolerated. -/
theorem ofGrammar {x y : Except GrammarError α}
    (h : x = y ∨ ∃ e, x = .error e ∧ tolerated (.grammar e)) :
    Refines tolerated (Resolution.ofGrammar x) (Resolution.ofGrammar y) := by
  rcases h with rfl | ⟨e, rfl, htolerated⟩
  · exact refl _
  · exact .further htolerated _

/-- On any directory both do the same, or the first one fails with an error that is tolerated. -/
theorem runOn (h : Refines tolerated x y) (d : Directory) :
    y.runOn d = x.runOn d ∨ ∃ e, (x.runOn d).1 = .error e ∧ tolerated e := by
  induction h generalizing d with
  | done value => exact .inl rfl
  | fail error => exact .inl rfl
  | @further error htolerated y => exact .inr ⟨error, rfl, htolerated⟩
  | @ask question next next' _ ih =>
    unfold Resolution.runOn
    split
    · next answer d' _ => exact ih answer d'
    · exact .inl rfl

/-- What the first one comes to on a directory, the second one comes to as well. -/
theorem runOn_ok (h : Refines tolerated x y) {d after : Directory} {a : α}
    (hx : x.runOn d = (.ok a, after)) : y.runOn d = (.ok a, after) := by
  rcases h.runOn d with hsame | ⟨e, herror, -⟩
  · exact hsame.trans hx
  · rw [hx] at herror
    cases herror

end Refines

end Resolution

/-! ### Readers of tokens -/

namespace TokenReader

variable {α β σ : Type} {tolerated : RequestError → Prop}

/-- The second reader reads what the first one reads, unless that fails with an error that is
tolerated. -/
def Refines (tolerated : RequestError → Prop) (x y : TokenReader α) : Prop :=
  ∀ source tokens, (x source tokens).Refines tolerated (y source tokens)

/-- The second reader reads what the first one reads, unless that fails for a limit. -/
abbrev Extends (x y : TokenReader α) : Prop :=
  Refines RequestError.IsLimit x y

namespace Refines

variable {x y : TokenReader α}

theorem refl (x : TokenReader α) : Refines tolerated x x :=
  fun source tokens => .refl (x source tokens)

theorem bind {f g : α → TokenReader β} (h : Refines tolerated x y)
    (hf : ∀ a, Refines tolerated (f a) (g a)) : Refines tolerated (x >>= f) (y >>= g) := by
  intro source tokens
  refine (h source tokens).bind fun read => ?_
  exact (hf read.1 source read.2.1).andThen _

theorem after (x : TokenReader α) {f g : α → TokenReader β}
    (hf : ∀ a, Refines tolerated (f a) (g a)) : Refines tolerated (x >>= f) (x >>= g) :=
  (refl x).bind hf

theorem andThen (h : Refines tolerated x y) (f : α → TokenReader β) :
    Refines tolerated (x >>= f) (y >>= f) :=
  h.bind fun a => refl (f a)

/-- Loops whose steps are selected alike. -/
theorem foldWhile {select select' : σ → Token → Option (TokenReader σ)}
    (h : ∀ state t, Option.Rel (Refines tolerated) (select state t) (select' state t)) (state : σ) :
    Refines tolerated (foldWhile select state) (foldWhile select' state) := by
  intro source tokens
  -- by induction on the number of tokens, since each step takes one
  induction hn : tokens.length using Nat.strongRecOn generalizing tokens state with
  | ind n ih =>
    cases tokens with
    | nil =>
      rw [TokenReader.foldWhile, TokenReader.foldWhile]
      exact .refl _
    | cons t ts =>
      rw [TokenReader.foldWhile, TokenReader.foldWhile]
      have hselect := h state t
      generalize select state t = step at hselect
      generalize select' state t = step' at hselect
      cases hselect with
      | none => exact .refl _
      | some hstep =>
        refine (hstep source ts).bind fun read => ?_
        obtain ⟨state', rest, hrest⟩ := read
        have hlt : rest.length < n := by
          rw [← hn, List.length_cons]
          omega
        exact (ih rest.length hlt state' rest rfl).andThen _

/-- Steps with separators between them. -/
theorem foldSeparated {step step' : σ → TokenReader σ}
    (h : ∀ state, Refines tolerated (step state) (step' state)) (separator : TokenKind) (state : σ) :
    Refines tolerated (foldSeparated separator step state)
      (foldSeparated separator step' state) := by
  refine (h state).bind (foldWhile fun state t => ?_)
  split
  · exact .some (h state)
  · exact .none

theorem commaSeparated (h : Refines tolerated x y) :
    Refines tolerated (commaSeparated x) (commaSeparated y) := by
  have hitems : ∀ items : List α,
      Refines tolerated (do return (← x) :: items) (do return (← y) :: items) :=
    fun items => h.andThen _
  exact (foldSeparated hitems .comma []).andThen _

theorem readAll (h : Refines tolerated x y) (text : String) :
    (TokenReader.readAll x text).Refines tolerated (TokenReader.readAll y text) := by
  refine Resolution.Refines.after _ fun tokens => ?_
  exact (h text tokens).andThen _

end Refines

end TokenReader

end ODataRequest
