import ODataRequest.Proofs.Search.Grammar

/-!
# ODataRequest.Proofs.Search.Reader

Search expressions are read exactly as the grammar derives them. A reader is a greedy loop over
tokens, while a derivation may end anywhere, so what is read is compared with a derivation in front
of tokens that cannot go on with it (`EndsConjunction`, `EndsDisjunction`).

* `sound_unit`: the tokens a reader uses derive what it gives;
* `Derives.reads`: what is derived is read, and whatever follows is left over;
* `extends_unit`: with a greater limit nothing changes but where the smaller one was exceeded.
-/

namespace ODataRequest.SearchExpression

/-! ### Outcomes -/

/-- What is read and the tokens that are left, or the error. -/
def outcome {p : List SearchToken → Prop}
    (x : Except GrammarError (SearchExpression × { rest : List SearchToken // p rest })) :
    Except GrammarError (SearchExpression × List SearchToken) :=
  x.map fun r => (r.1, r.2.1)

section Outcomes

variable {p q : List SearchToken → Prop}

@[simp] theorem outcome_ok (e : SearchExpression) (rest : { rest // p rest }) :
    outcome (.ok (e, rest)) = .ok (e, rest.1) := rfl

@[simp] theorem outcome_error (error : GrammarError) :
    outcome (p := p) (.error error) = .error error := rfl

@[simp] theorem outcome_within {few many : List SearchToken} (h : few.length < many.length)
    (x : Except GrammarError
      (SearchExpression × { rest : List SearchToken // rest.length < few.length })) :
    outcome (within h x) = outcome x := by
  cases x <;> rfl

@[simp] theorem outcome_further {few many : List SearchToken} (h : few.length ≤ many.length)
    (x : Continued few) : outcome (further h x) = outcome x := by
  cases x <;> rfl

end Outcomes

section Readers

variable {source : String} {operand nested unit : Reader}

theorem outcome_primary_group (ts : List SearchToken) :
    outcome (primary source nested (.opening :: ts)) =
      match outcome (nested ts) with
      | .error error => .error error
      | .ok (e, .closing :: rest) => .ok (e, rest)
      | .ok _ => .error (.malformedSearch source) := by
  rw [primary]
  rcases nested ts with error | ⟨e, rest, h⟩
  · rfl
  · rcases rest with _ | ⟨t, rest⟩
    · rfl
    · cases t <;> rfl

theorem outcome_negation_not (ts : List SearchToken) :
    outcome (negation source operand nested (.not :: ts)) =
      (outcome (operand ts)).map fun r => (.not r.1, r.2) := by
  rw [negation, outcome_within]
  rcases operand ts with error | r <;> rfl

theorem negation_of_ne {t : SearchToken} (h : t ≠ .not) (ts : List SearchToken) :
    negation source operand nested (t :: ts) = primary source nested (t :: ts) := by
  cases t <;> first | rfl | exact absurd rfl h

theorem outcome_conjunction (ts : List SearchToken) :
    outcome (conjunction unit ts) =
      match outcome (unit ts) with
      | .error error => .error error
      | .ok (left, rest) => outcome (conjunctionFrom unit left rest) := by
  unfold conjunction
  rcases unit ts with error | ⟨left, rest, h⟩
  · rfl
  · show outcome ((conjunctionFrom unit left rest).map _) = outcome (conjunctionFrom unit left rest)
    rcases conjunctionFrom unit left rest with error | r <;> rfl

theorem outcome_disjunction (ts : List SearchToken) :
    outcome (disjunction unit ts) =
      match outcome (conjunction unit ts) with
      | .error error => .error error
      | .ok (left, rest) => outcome (disjunctionFrom unit left rest) := by
  unfold disjunction
  rcases conjunction unit ts with error | ⟨left, rest, h⟩
  · rfl
  · show outcome ((disjunctionFrom unit left rest).map _) = outcome (disjunctionFrom unit left rest)
    rcases disjunctionFrom unit left rest with error | r <;> rfl

/-- Behind `AND`, and also without it in front of a unit, a conjunction goes on. -/
theorem outcome_conjunctionFrom_and (left : SearchExpression) (ts : List SearchToken) :
    outcome (conjunctionFrom unit left (.and :: ts)) =
      match outcome (unit ts) with
      | .error error => .error error
      | .ok (right, rest) => outcome (conjunctionFrom unit (.and left right) rest) := by
  rw [conjunctionFrom, if_pos rfl]
  rcases unit ts with error | ⟨right, rest, h⟩
  · rfl
  · simp only [outcome_further, outcome_ok]

theorem outcome_conjunctionFrom_unit {t : SearchToken} (ht : startsUnit t = true)
    (left : SearchExpression) (ts : List SearchToken) :
    outcome (conjunctionFrom unit left (t :: ts)) =
      match outcome (unit (t :: ts)) with
      | .error error => .error error
      | .ok (right, rest) => outcome (conjunctionFrom unit (.and left right) rest) := by
  have hand : t ≠ .and := by
    rintro rfl
    cases ht
  rw [conjunctionFrom, if_neg hand, if_pos ht]
  rcases unit (t :: ts) with error | ⟨right, rest, h⟩
  · rfl
  · simp only [outcome_further, outcome_ok]

theorem outcome_disjunctionFrom_or (left : SearchExpression) (ts : List SearchToken) :
    outcome (disjunctionFrom unit left (.or :: ts)) =
      match outcome (conjunction unit ts) with
      | .error error => .error error
      | .ok (right, rest) => outcome (disjunctionFrom unit (.or left right) rest) := by
  rw [disjunctionFrom, if_pos rfl]
  rcases conjunction unit ts with error | ⟨right, rest, h⟩
  · rfl
  · simp only [outcome_further, outcome_ok]

/-! ### Where loops end -/

/-- No conjunction goes on with the tokens. -/
def EndsConjunction (rest : List SearchToken) : Prop :=
  ∀ t ∈ rest.head?, t ≠ .and ∧ startsUnit t = false

/-- No disjunction goes on with the tokens. -/
def EndsDisjunction (rest : List SearchToken) : Prop :=
  EndsConjunction rest ∧ ∀ t ∈ rest.head?, t ≠ .or

theorem endsDisjunction_nil : EndsDisjunction [] := by
  simp [EndsDisjunction, EndsConjunction]

theorem endsDisjunction_closing (rest : List SearchToken) :
    EndsDisjunction (.closing :: rest) := by
  simp [EndsDisjunction, EndsConjunction, startsUnit]

theorem endsConjunction_or (rest : List SearchToken) : EndsConjunction (.or :: rest) := by
  simp [EndsConjunction, startsUnit]

theorem outcome_conjunctionFrom_ends {rest : List SearchToken} (h : EndsConjunction rest)
    (left : SearchExpression) :
    outcome (conjunctionFrom unit left rest) = .ok (left, rest) := by
  cases rest with
  | nil => rw [conjunctionFrom, outcome_ok]
  | cons t ts =>
    obtain ⟨hand, hunit⟩ := h t rfl
    rw [conjunctionFrom, if_neg hand, if_neg (by simp [hunit]), outcome_ok]

theorem outcome_disjunctionFrom_ends {rest : List SearchToken} (h : EndsDisjunction rest)
    (left : SearchExpression) :
    outcome (disjunctionFrom unit left rest) = .ok (left, rest) := by
  cases rest with
  | nil => rw [disjunctionFrom, outcome_ok]
  | cons t ts => rw [disjunctionFrom, if_neg (h.2 t rfl), outcome_ok]

/-! ### What is read is derived -/

/-- The tokens that a reader uses derive what it gives, as a negation. -/
def Sound (depth : Nat) (unit : Reader) : Prop :=
  ∀ ⦃ts rest : List SearchToken⦄ ⦃e : SearchExpression⦄, outcome (unit ts) = .ok (e, rest) →
    ∃ used, ts = used ++ rest ∧ Derives .negation depth used e

namespace Sound

variable {depth : Nat} {ts rest : List SearchToken} {e : SearchExpression}

/-- A conjunction goes on until it cannot: what is read behind `before` makes one with it. -/
theorem conjunctionFrom (hunit : Sound depth unit) {before : List SearchToken}
    {left : SearchExpression} (hleft : Derives .conjunction depth before left)
    (h : outcome (conjunctionFrom unit left ts) = .ok (e, rest)) :
    ∃ used, ts = used ++ rest ∧ Derives .conjunction depth (before ++ used) e ∧
      EndsConjunction rest := by
  -- each turn of the loop leaves fewer tokens than it found
  induction hn : ts.length using Nat.strongRecOn generalizing ts before left with
  | ind n ih =>
    rcases ts with _ | ⟨t, ts⟩
    · rw [SearchExpression.conjunctionFrom] at h
      cases h
      exact ⟨[], rfl, by simpa using hleft, by simp [EndsConjunction]⟩
    by_cases hand : t = .and
    · subst hand
      rw [outcome_conjunctionFrom_and] at h
      rcases hright : outcome (unit ts) with error | ⟨right, ts'⟩ <;> rw [hright] at h
      · cases h
      obtain ⟨used, rfl, hused⟩ := hunit hright
      obtain ⟨more, rfl, hmore, hends⟩ := ih ts'.length
        (by simp only [← hn, List.length_cons, List.length_append]; omega)
        (hleft.and hused) h rfl
      exact ⟨.and :: (used ++ more), by simp, by simpa using hmore, hends⟩
    by_cases hstarts : startsUnit t = true
    · rw [outcome_conjunctionFrom_unit hstarts] at h
      rcases hright : outcome (unit (t :: ts)) with error | ⟨right, ts'⟩ <;> rw [hright] at h
      · cases h
      obtain ⟨used, hts, hused⟩ := hunit hright
      have hlength : ts'.length < n := by
        obtain ⟨u, us, rfl, -⟩ := hused.exists_startsUnit
        simp only [← hn, hts, List.length_append, List.length_cons]
        omega
      obtain ⟨more, rfl, hmore, hends⟩ := ih ts'.length hlength (hleft.beside hused) h rfl
      exact ⟨used ++ more, by simp [hts], by simpa using hmore, hends⟩
    · have hends : EndsConjunction (t :: ts) := by
        intro u hu
        cases hu
        exact ⟨hand, by simpa using hstarts⟩
      rw [outcome_conjunctionFrom_ends hends] at h
      cases h
      exact ⟨[], rfl, by simpa using hleft, hends⟩

theorem conjunction (hunit : Sound depth unit)
    (h : outcome (conjunction unit ts) = .ok (e, rest)) :
    ∃ used, ts = used ++ rest ∧ Derives .conjunction depth used e ∧ EndsConjunction rest := by
  rw [outcome_conjunction] at h
  rcases hleft : outcome (unit ts) with error | ⟨left, ts'⟩ <;> rw [hleft] at h
  · cases h
  obtain ⟨used, rfl, hused⟩ := hunit hleft
  obtain ⟨more, rfl, hmore, hends⟩ := hunit.conjunctionFrom hused.negation h
  exact ⟨used ++ more, by simp, hmore, hends⟩

theorem disjunctionFrom (hunit : Sound depth unit) {before : List SearchToken}
    {left : SearchExpression} (hleft : Derives .disjunction depth before left)
    (hts : EndsConjunction ts) (h : outcome (disjunctionFrom unit left ts) = .ok (e, rest)) :
    ∃ used, ts = used ++ rest ∧ Derives .disjunction depth (before ++ used) e ∧
      EndsDisjunction rest := by
  induction hn : ts.length using Nat.strongRecOn generalizing ts before left with
  | ind n ih =>
    by_cases hends : EndsDisjunction ts
    · rw [outcome_disjunctionFrom_ends hends] at h
      cases h
      exact ⟨[], rfl, by simpa using hleft, hends⟩
    obtain ⟨ts, rfl⟩ : ∃ us, ts = .or :: us := by
      rcases ts with _ | ⟨t, ts⟩
      · exact absurd endsDisjunction_nil hends
      · by_cases hor : t = .or
        · exact ⟨ts, by rw [hor]⟩
        · exact absurd ⟨hts, fun u hu => by cases hu; exact hor⟩ hends
    rw [outcome_disjunctionFrom_or] at h
    rcases hright : outcome (SearchExpression.conjunction unit ts) with error | ⟨right, ts'⟩ <;>
      rw [hright] at h
    · cases h
    obtain ⟨used, rfl, hused, hends'⟩ := hunit.conjunction hright
    obtain ⟨more, rfl, hmore, hrest⟩ := ih ts'.length
      (by simp only [← hn, List.length_cons, List.length_append]; omega)
      (hleft.or hused) hends' h rfl
    exact ⟨.or :: (used ++ more), by simp, by simpa using hmore, hrest⟩

theorem disjunction (hunit : Sound depth unit)
    (h : outcome (disjunction unit ts) = .ok (e, rest)) :
    ∃ used, ts = used ++ rest ∧ Derives .disjunction depth used e := by
  rw [outcome_disjunction] at h
  rcases hleft : outcome (SearchExpression.conjunction unit ts) with error | ⟨left, ts'⟩ <;>
    rw [hleft] at h
  · cases h
  obtain ⟨used, rfl, hused, hends⟩ := hunit.conjunction hleft
  obtain ⟨more, rfl, hmore, -⟩ := hunit.disjunctionFrom hused.conjunction hends h
  exact ⟨used ++ more, by simp, hmore⟩

/-- Words and phrases stand at any depth; what `nested` and `operand` read is one level deeper. -/
theorem negation
    (hoperand : ∀ {ts rest e}, outcome (operand ts) = .ok (e, rest) →
      ∃ used depth', ts = used ++ rest ∧ Derives .negation depth' used e ∧ depth' < depth)
    (hnested : ∀ {ts rest e}, outcome (nested ts) = .ok (e, rest) →
      ∃ used depth', ts = used ++ rest ∧ Derives .disjunction depth' used e ∧ depth' < depth) :
    Sound depth (negation source operand nested) := by
  intro ts rest e h
  rcases ts with _ | ⟨t, ts⟩
  · cases h
  by_cases hnot : t = .not
  · subst hnot
    rw [outcome_negation_not] at h
    rcases hop : outcome (operand ts) with error | ⟨e', rest'⟩ <;> rw [hop] at h
    · cases h
    · cases h
      obtain ⟨used, depth', rfl, hused, hlt⟩ := hoperand hop
      exact ⟨.not :: used, rfl, hused.not.mono hlt⟩
  rw [negation_of_ne hnot] at h
  cases t with
  | word text =>
    cases h
    exact ⟨[.word text], rfl, .primary (.word text)⟩
  | phrase text =>
    cases h
    exact ⟨[.phrase text], rfl, .primary (.phrase text)⟩
  | opening =>
    rw [outcome_primary_group] at h
    split at h
    · cases h
    · next e' rest' hin =>
      cases h
      obtain ⟨used, depth', rfl, hused, hlt⟩ := hnested hin
      exact ⟨.opening :: (used ++ [.closing]), by simp, .primary (hused.group.mono hlt)⟩
    · cases h
  | not => exact absurd rfl hnot
  | closing | and | or => cases h

end Sound

/-- Every level of the reader is sound. -/
theorem sound_unit (limit room : Nat) : Sound room (SearchExpression.unit source limit room) := by
  induction room with
  | zero => exact Sound.negation (fun h => by cases h) (fun h => by cases h)
  | succ room ih =>
    refine Sound.negation ?operand ?nested
    case operand =>
      intro ts rest e h
      obtain ⟨used, hts, hused⟩ := ih h
      exact ⟨used, room, hts, hused, Nat.lt_succ_self room⟩
    case nested =>
      intro ts rest e h
      obtain ⟨used, hts, hused⟩ := ih.disjunction h
      exact ⟨used, room, hts, hused, Nat.lt_succ_self room⟩

/-! ### What is derived is read -/

/-- The reader reads the tokens as the expression, whatever follows them; where a loop is not over
behind them, it goes on with the expression. -/
def Reads (unit : Reader) : Part → List SearchToken → SearchExpression → Prop
  | .primary, ts, e | .negation, ts, e => ∀ rest, outcome (unit (ts ++ rest)) = .ok (e, rest)
  | .conjunction, ts, e =>
    ∀ rest, outcome (conjunction unit (ts ++ rest)) = outcome (conjunctionFrom unit e rest)
  | .disjunction, ts, e =>
    ∀ rest, EndsConjunction rest →
      outcome (disjunction unit (ts ++ rest)) = outcome (disjunctionFrom unit e rest)

theorem Derives.reads {part : Part} {depth : Nat} {ts : List SearchToken} {e : SearchExpression}
    (h : Derives part depth ts e) (limit : Nat) {room : Nat} (hroom : depth ≤ room) :
    Reads (SearchExpression.unit source limit room) part ts e := by
  induction h generalizing room with
  | word text | phrase text =>
    intro rest
    cases room <;> rfl
  | @group depth ts e _ ih =>
    obtain ⟨room, rfl⟩ : ∃ n, room = n + 1 := ⟨room - 1, by omega⟩
    intro rest
    have hroom : depth ≤ room := Nat.le_of_succ_le_succ hroom
    have hin := ih hroom (.closing :: rest) (endsDisjunction_closing rest).1
    rw [outcome_disjunctionFrom_ends (endsDisjunction_closing rest)] at hin
    rw [SearchExpression.unit, List.cons_append, negation_of_ne (by simp), outcome_primary_group,
      List.append_assoc, List.singleton_append, hin]
  | primary _ ih => exact ih hroom
  | @not depth ts e _ ih =>
    obtain ⟨room, rfl⟩ : ∃ n, room = n + 1 := ⟨room - 1, by omega⟩
    intro rest
    have hroom : depth ≤ room := Nat.le_of_succ_le_succ hroom
    rw [SearchExpression.unit, List.cons_append, outcome_negation_not, ih hroom rest]
    rfl
  | negation _ ih =>
    intro rest
    rw [outcome_conjunction, ih hroom rest]
  | and _ _ ihLeft ihRight =>
    intro rest
    rw [List.append_assoc, List.cons_append, ihLeft hroom, outcome_conjunctionFrom_and,
      ihRight hroom rest]
  | @beside depth ts us l r _ right ihLeft ihRight =>
    -- a negation starts with a token that makes the conjunction go on
    obtain ⟨u, us, rfl, hu⟩ := right.exists_startsUnit
    intro rest
    rw [List.append_assoc, ihLeft hroom, List.cons_append, outcome_conjunctionFrom_unit hu,
      ← List.cons_append, ihRight hroom rest]
  | conjunction _ ih =>
    intro rest hrest
    rw [outcome_disjunction, ih hroom rest, outcome_conjunctionFrom_ends hrest]
  | or _ _ ihLeft ihRight =>
    intro rest hrest
    rw [List.append_assoc, List.cons_append, ihLeft hroom _ (endsConjunction_or _),
      outcome_disjunctionFrom_or, ihRight hroom rest, outcome_conjunctionFrom_ends hrest]

/-- All of the tokens are read when they derive an expression. -/
theorem Derives.outcome_disjunction {depth : Nat} {ts : List SearchToken} {e : SearchExpression}
    (h : Derives .disjunction depth ts e) (limit : Nat) {room : Nat} (hroom : depth ≤ room) :
    outcome (disjunction (SearchExpression.unit source limit room) ts) = .ok (e, []) := by
  have hread : outcome (disjunction (SearchExpression.unit source limit room) (ts ++ [])) =
      outcome (disjunctionFrom (SearchExpression.unit source limit room) e []) :=
    h.reads limit hroom [] endsDisjunction_nil.1
  rw [List.append_nil, outcome_disjunctionFrom_ends endsDisjunction_nil] at hread
  exact hread

/-- Tokens derive one expression at most, however deep. -/
theorem Derives.unique {depth depth' : Nat} {ts : List SearchToken} {e e' : SearchExpression}
    (h : Derives .disjunction depth ts e) (h' : Derives .disjunction depth' ts e') : e = e' := by
  have hread : outcome (disjunction (SearchExpression.unit "" 0 (max depth depth')) ts) =
      .ok (e, []) := h.outcome_disjunction 0 (Nat.le_max_left depth depth')
  rw [h'.outcome_disjunction 0 (Nat.le_max_right depth depth')] at hread
  cases hread
  rfl

/-! ### Greater limits -/

/-- The second outcome is the first one, but perhaps where the first one is that `error`. -/
def Unless (error : GrammarError) (x y : Except GrammarError (SearchExpression × List SearchToken)) :
    Prop :=
  x = y ∨ x = .error error

/-- `y` reads as `x` does, but perhaps where `x` gives the error. -/
def Extends (error : GrammarError) (x y : Reader) : Prop :=
  ∀ ts, Unless error (outcome (x ts)) (outcome (y ts))

namespace Extends

variable {tooDeep : GrammarError} {unit' operand' nested' : Reader}

theorem conjunctionFrom (h : Extends tooDeep unit unit') (left : SearchExpression)
    (ts : List SearchToken) :
    Unless tooDeep (outcome (conjunctionFrom unit left ts))
      (outcome (conjunctionFrom unit' left ts)) := by
  obtain ⟨n, hn⟩ : ∃ n, ts.length = n := ⟨_, rfl⟩
  induction n using Nat.strongRecOn generalizing ts left with
  | ind n ih =>
    rcases ts with _ | ⟨t, ts⟩
    · exact .inl (by simp only [SearchExpression.conjunctionFrom, outcome_ok])
    by_cases hand : t = .and
    · subst hand
      rw [outcome_conjunctionFrom_and, outcome_conjunctionFrom_and]
      rcases hs : unit ts with error | ⟨right, ts', hlt⟩ <;>
        rcases h ts with heq | heq <;> rw [hs] at heq
      · exact .inl (by rw [← heq, outcome_error])
      · exact .inr heq
      · rw [← heq]
        exact ih ts'.length (by simp only [List.length_cons] at hn; omega) _ _ rfl
      · cases heq
    by_cases hstarts : startsUnit t = true
    · rw [outcome_conjunctionFrom_unit hstarts, outcome_conjunctionFrom_unit hstarts]
      rcases hs : unit (t :: ts) with error | ⟨right, ts', hlt⟩ <;>
        rcases h (t :: ts) with heq | heq <;> rw [hs] at heq
      · exact .inl (by rw [← heq, outcome_error])
      · exact .inr heq
      · rw [← heq]
        exact ih ts'.length (by omega) _ _ rfl
      · cases heq
    · have hends : EndsConjunction (t :: ts) := by
        intro u hu
        cases hu
        exact ⟨hand, by simpa using hstarts⟩
      exact .inl (by rw [outcome_conjunctionFrom_ends hends, outcome_conjunctionFrom_ends hends])

theorem conjunction (h : Extends tooDeep unit unit') :
    Extends tooDeep (conjunction unit) (conjunction unit') := by
  intro ts
  rw [outcome_conjunction, outcome_conjunction]
  rcases h ts with heq | heq <;> rw [heq]
  · rcases outcome (unit' ts) with error | ⟨left, rest⟩
    · exact .inl rfl
    · exact h.conjunctionFrom left rest
  · exact .inr rfl

theorem disjunctionFrom (h : Extends tooDeep unit unit') (left : SearchExpression)
    (ts : List SearchToken) :
    Unless tooDeep (outcome (disjunctionFrom unit left ts))
      (outcome (disjunctionFrom unit' left ts)) := by
  obtain ⟨n, hn⟩ : ∃ n, ts.length = n := ⟨_, rfl⟩
  induction n using Nat.strongRecOn generalizing ts left with
  | ind n ih =>
    rcases ts with _ | ⟨t, ts⟩
    · exact .inl (by simp only [SearchExpression.disjunctionFrom, outcome_ok])
    by_cases hor : t = .or
    · subst hor
      rw [outcome_disjunctionFrom_or, outcome_disjunctionFrom_or]
      rcases hs : SearchExpression.conjunction unit ts with error | ⟨right, ts', hlt⟩ <;>
        rcases h.conjunction ts with heq | heq <;> rw [hs] at heq
      · exact .inl (by rw [← heq, outcome_error])
      · exact .inr heq
      · rw [← heq]
        exact ih ts'.length (by simp only [List.length_cons] at hn; omega) _ _ rfl
      · cases heq
    · exact .inl (by
        simp only [SearchExpression.disjunctionFrom, if_neg hor, outcome_ok])

theorem disjunction (h : Extends tooDeep unit unit') :
    Extends tooDeep (disjunction unit) (disjunction unit') := by
  intro ts
  rw [outcome_disjunction, outcome_disjunction]
  rcases h.conjunction ts with heq | heq <;> rw [heq]
  · rcases outcome (SearchExpression.conjunction unit' ts) with error | ⟨left, rest⟩
    · exact .inl rfl
    · exact h.disjunctionFrom left rest
  · exact .inr rfl

theorem negation (hoperand : Extends tooDeep operand operand')
    (hnested : Extends tooDeep nested nested') :
    Extends tooDeep (negation source operand nested) (negation source operand' nested') := by
  intro ts
  rcases ts with _ | ⟨t, ts⟩
  · exact .inl rfl
  by_cases hnot : t = .not
  · subst hnot
    rw [outcome_negation_not, outcome_negation_not]
    rcases hoperand ts with heq | heq <;> rw [heq]
    · exact .inl rfl
    · exact .inr rfl
  rw [negation_of_ne hnot, negation_of_ne hnot]
  by_cases hopening : t = .opening
  · subst hopening
    rw [outcome_primary_group, outcome_primary_group]
    rcases hnested ts with heq | heq <;> rw [heq]
    · exact .inl rfl
    · exact .inr rfl
  · cases t <;> first | exact .inl rfl | exact absurd rfl hopening

end Extends

/-- With more room everything is read as before that did not nest too deep. -/
theorem extends_unit (limit limit' : Nat) {room room' : Nat} (hle : room ≤ room') :
    Extends (.tooDeeplyNested (toString (limit + 1))) (SearchExpression.unit source limit room)
      (SearchExpression.unit source limit' room') := by
  induction room generalizing room' with
  | zero =>
    cases room' <;> exact Extends.negation (fun _ => .inr rfl) (fun _ => .inr rfl)
  | succ room ih =>
    obtain ⟨room', rfl⟩ : ∃ n, room' = n + 1 := ⟨room' - 1, by omega⟩
    have hunit := ih (Nat.le_of_succ_le_succ hle)
    exact hunit.negation hunit.disjunction

end Readers

/-! ### Whole texts -/

theorem parse_eq (limit : Nat) (text : String) :
    parse limit text =
      match SearchToken.tokens? text.toList with
      | none => .error (.malformedSearch text)
      | some tokens =>
        match outcome (disjunction (unit text limit limit) tokens) with
        | .error error => .error error
        | .ok (e, []) => .ok e
        | .ok _ => .error (.malformedSearch text) := by
  unfold parse
  rcases SearchToken.tokens? text.toList with _ | tokens
  · rfl
  · rcases hread : disjunction (unit text limit limit) tokens with error | ⟨e, rest, h⟩
    · simp only [hread, outcome_error]
    · cases rest <;> simp only [hread, outcome_ok]

/-- An expression is read from a text exactly when the tokens of the text derive it within the
limit. -/
theorem parse_eq_ok {limit : Nat} {text : String} {e : SearchExpression} :
    parse limit text = .ok e ↔
      ∃ tokens, SearchToken.tokens? text.toList = some tokens ∧
        Derives .disjunction limit tokens e := by
  rw [parse_eq]
  constructor
  · intro h
    rcases htokens : SearchToken.tokens? text.toList with _ | tokens <;> rw [htokens] at h
    · cases h
    · refine ⟨tokens, rfl, ?_⟩
      dsimp only at h
      split at h
      · cases h
      · next e' hread =>
        cases h
        obtain ⟨used, rfl, hused⟩ := (sound_unit limit limit).disjunction hread
        rwa [List.append_nil]
      · cases h
  · intro ⟨tokens, htokens, hderives⟩
    rw [htokens]
    simp only [hderives.outcome_disjunction limit (Nat.le_refl limit)]

/-- Search expressions are read by their grammar alone: exactly what the tokens of a text derive
within the limit is read, tokens derive one expression at most, and a greater limit only matters
where the smaller one is exceeded. -/
theorem parse_grammar (limit : Nat) (text : String) :
    (∀ e, parse limit text = .ok e ↔
      ∃ tokens, SearchToken.tokens? text.toList = some tokens ∧
        Derives .disjunction limit tokens e) ∧
    (∀ tokens depth depth' e e', Derives .disjunction depth tokens e →
      Derives .disjunction depth' tokens e' → e = e') ∧
    (∀ more, limit ≤ more → parse more text = parse limit text ∨
      parse limit text = .error (.tooDeeplyNested (toString (limit + 1)))) := by
  refine ⟨fun e => parse_eq_ok, fun tokens depth depth' e e' => Derives.unique, ?_⟩
  intro more hle
  rw [parse_eq, parse_eq]
  rcases SearchToken.tokens? text.toList with _ | tokens
  · exact .inl rfl
  · have hunit : Extends _ (unit text limit limit) (unit text more more) :=
      extends_unit limit more hle
    rcases hunit.disjunction tokens with heq | heq
    · exact .inl (by simp only [heq])
    · exact .inr (by simp only [heq])

/-- A text that needs both of the levels it is given: a negation in a group. -/
theorem parse_grammar_nested :
    let text := "sky (red OR NOT \"dark blue\") AND day"
    let e : SearchExpression :=
      .and (.and (.term "sky") (.or (.term "red") (.not (.phrase "dark blue")))) (.term "day")
    parse 2 text = .ok e ∧
      (∃ tokens, SearchToken.tokens? text.toList = some tokens ∧ Derives .disjunction 2 tokens e) ∧
      parse 7 text = .ok e ∧ (parse 1 text).toOption = none := by
  intro text e
  have hsome : (parse 2 text).toOption = some e := by decide +kernel
  have hread : parse 2 text = .ok e := by
    rcases hx : parse 2 text with error | e' <;> rw [hx] at hsome <;> cases hsome
    rfl
  refine ⟨hread, ((parse_grammar 2 text).1 e).1 hread, ?_, by decide +kernel⟩
  rcases (parse_grammar 2 text).2.2 7 (by decide) with hmore | hdeep
  · rw [hmore, hread]
  · rw [hread] at hdeep
    cases hdeep

end ODataRequest.SearchExpression
