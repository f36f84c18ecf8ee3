import ODataRequest.Proofs.Resolution
import ODataRequest.Token.Reader

/-!
# ODataRequest.Proofs.Token.Reader

What readers of tokens may read. `Reads` says that a reader gives a value and leaves some tokens;
there is one rule for each way to put readers together, and each of them is an equivalence, so it
serves to open a reading as well as to show that it succeeds.
-/

namespace ODataRequest

/-- The first of some tokens, or the end of the text. -/
def firstToken (tokens : List Token) : Token :=
  tokens.head?.getD ⟨.endOfText, "", 0, false⟩

@[simp] theorem firstToken_cons (t : Token) (ts : List Token) : firstToken (t :: ts) = t := rfl

namespace TokenReader

variable {α β σ : Type} {answers : Answers} {source : String}

/-- The reader gives the value and leaves the tokens `rest` of `tokens`. -/
def Reads (answers : Answers) (x : TokenReader α) (source : String) (tokens : List Token)
    (value : α) (rest : List Token) : Prop :=
  ∃ h, (x source tokens).Gives answers (value, ⟨rest, h⟩)

/-! ### Rules -/

@[simp] theorem reads_pure {a b : α} {ts rest : List Token} :
    Reads answers (Pure.pure a : TokenReader α) source ts b rest ↔ a = b ∧ rest = ts := by
  show Reads answers (TokenReader.pure a) source ts b rest ↔ _
  unfold Reads TokenReader.pure
  simp only [Resolution.gives_done]
  constructor
  · rintro ⟨_, h⟩
    cases h
    exact ⟨rfl, rfl⟩
  · rintro ⟨rfl, rfl⟩
    exact ⟨Nat.le_refl _, rfl⟩

@[simp] theorem reads_bind {x : TokenReader α} {f : α → TokenReader β} {b : β}
    {ts rest : List Token} : Reads answers (x >>= f) source ts b rest ↔
      ∃ a between, Reads answers x source ts a between ∧
        Reads answers (f a) source between b rest := by
  show Reads answers (x.bind f) source ts b rest ↔ _
  unfold Reads TokenReader.bind
  simp only [Resolution.gives_bind, Resolution.gives_pure]
  constructor
  · rintro ⟨_, ⟨a, between, h⟩, ha, ⟨_, rest', h'⟩, hb, heq⟩
    cases heq
    exact ⟨a, between, ⟨h, ha⟩, h', hb⟩
  · rintro ⟨a, between, ⟨h, ha⟩, h', hb⟩
    exact ⟨Nat.le_trans h' h, ⟨a, between, h⟩, ha, ⟨b, rest, h'⟩, hb, rfl⟩

@[simp] theorem reads_lift {x : Resolution α} {a : α} {ts rest : List Token} :
    Reads answers (liftM x : TokenReader α) source ts a rest ↔ x.Gives answers a ∧ rest = ts := by
  show Reads answers (ofResolution x) source ts a rest ↔ _
  unfold Reads ofResolution
  simp only [Resolution.gives_bind, Resolution.gives_pure]
  constructor
  · rintro ⟨_, b, hb, heq⟩
    cases heq
    exact ⟨hb, rfl⟩
  · rintro ⟨ha, rfl⟩
    exact ⟨Nat.le_refl _, a, ha, rfl⟩

/-- What is read is put into something else. -/
theorem reads_bind_pure {x : TokenReader α} {f : α → β} {b : β} {ts rest : List Token} :
    Reads answers (x >>= fun a => Pure.pure (f a)) source ts b rest ↔
      ∃ a, Reads answers x source ts a rest ∧ b = f a := by
  simp only [reads_bind, reads_pure]
  constructor
  · rintro ⟨a, _, ha, rfl, rfl⟩
    exact ⟨a, ha, rfl⟩
  · rintro ⟨a, ha, rfl⟩
    exact ⟨a, rest, ha, rfl, rfl⟩

/-- A question about the model is asked before more is read. -/
theorem reads_lift_bind {x : Resolution α} {f : α → TokenReader β} {b : β} {ts rest : List Token} :
    Reads answers ((liftM x : TokenReader α) >>= f) source ts b rest ↔
      ∃ a, x.Gives answers a ∧ Reads answers (f a) source ts b rest := by
  rw [reads_bind]
  constructor
  · rintro ⟨a, between, ha, hb⟩
    obtain ⟨hgives, rfl⟩ := reads_lift.mp ha
    exact ⟨a, hgives, hb⟩
  · rintro ⟨a, ha, hb⟩
    exact ⟨a, ts, reads_lift.mpr ⟨ha, rfl⟩, hb⟩

/-- An answer that has to be there is waited for before more is read. -/
theorem reads_require_bind {x : Resolution (Option α)} {e : SemanticError} {f : α → TokenReader β}
    {b : β} {ts rest : List Token} :
    Reads answers ((liftM x : TokenReader (Option α)) >>= fun o =>
      (liftM (Resolution.require e o) : TokenReader α) >>= f) source ts b rest ↔
      ∃ a, x.Gives answers (some a) ∧ Reads answers (f a) source ts b rest := by
  simp only [reads_lift_bind, Resolution.gives_require]
  constructor
  · rintro ⟨_, hx, a, rfl, ha⟩
    exact ⟨a, hx, ha⟩
  · rintro ⟨a, hx, ha⟩
    exact ⟨some a, hx, a, rfl, ha⟩

@[simp] theorem not_reads_malformed {a : α} {ts rest : List Token} :
    ¬Reads answers (malformed : TokenReader α) source ts a rest := by
  rintro ⟨_, h⟩
  exact Resolution.not_gives_refuse h

/-- A reader that depends on a condition. -/
theorem reads_ite {c : Prop} [Decidable c] {x y : TokenReader α} {a : α} {ts rest : List Token} :
    Reads answers (if c then x else y) source ts a rest ↔
      (c ∧ Reads answers x source ts a rest) ∨ (¬c ∧ Reads answers y source ts a rest) := by
  by_cases hc : c <;> simp [hc]

theorem reads_peekAt {n : Nat} {t : Token} {ts rest : List Token} :
    Reads answers (peekAt n) source ts t rest ↔
      t = (ts[n]?.or ts.getLast?).getD ⟨.endOfText, "", 0, false⟩ ∧ rest = ts := by
  unfold Reads peekAt
  simp only [Resolution.gives_done]
  constructor
  · rintro ⟨_, h⟩
    cases h
    exact ⟨rfl, rfl⟩
  · rintro ⟨rfl, rfl⟩
    exact ⟨Nat.le_refl _, rfl⟩

@[simp] theorem reads_peek {t : Token} {ts rest : List Token} :
    Reads answers peek source ts t rest ↔ t = firstToken ts ∧ rest = ts := by
  unfold peek
  rw [reads_peekAt]
  cases ts <;> simp [firstToken]

/-- A token is passed over unless it is the end of the text. -/
@[simp] theorem reads_next_cons {t u : Token} {ts rest : List Token} :
    Reads answers next source (t :: ts) u rest ↔
      u = t ∧ rest = if t.kind = .endOfText then t :: ts else ts := by
  unfold Reads next
  by_cases hend : t.kind = .endOfText
  · simp only [hend, if_true, Resolution.gives_done]
    constructor
    · rintro ⟨_, h⟩
      cases h
      exact ⟨rfl, rfl⟩
    · rintro ⟨rfl, rfl⟩
      exact ⟨Nat.le_refl _, rfl⟩
  · simp only [hend, if_false, Resolution.gives_done]
    constructor
    · rintro ⟨_, h⟩
      cases h
      exact ⟨rfl, rfl⟩
    · rintro ⟨rfl, rfl⟩
      exact ⟨Nat.le_succ _, rfl⟩

@[simp] theorem reads_next_nil {u : Token} {rest : List Token} :
    Reads answers next source [] u rest ↔ u = ⟨.endOfText, "", 0, false⟩ ∧ rest = [] := by
  unfold Reads next
  simp only [Resolution.gives_done]
  constructor
  · rintro ⟨_, h⟩
    cases h
    exact ⟨rfl, rfl⟩
  · rintro ⟨rfl, rfl⟩
    exact ⟨Nat.le_refl _, rfl⟩

/-- A token that is not the end of the text has been passed over. -/
theorem reads_next {t : Token} {ts rest : List Token} (h : t.kind ≠ .endOfText) :
    Reads answers next source ts t rest ↔ ts = t :: rest := by
  cases ts with
  | nil =>
    simp only [reads_next_nil, reduceCtorEq, iff_false]
    rintro ⟨rfl, -⟩
    exact h rfl
  | cons u us =>
    rw [reads_next_cons]
    constructor
    · rintro ⟨rfl, rfl⟩
      rw [if_neg h]
    · intro heq
      cases heq
      exact ⟨rfl, by rw [if_neg h]⟩

@[simp] theorem reads_sees {kind : TokenKind} {b : Bool} {ts rest : List Token} :
    Reads answers (sees kind) source ts b rest ↔
      b = ((firstToken ts).kind == kind) ∧ rest = ts := by
  unfold sees
  simp only [reads_bind, reads_peek, reads_pure]
  constructor
  · rintro ⟨_, _, ⟨rfl, rfl⟩, rfl, rfl⟩
    exact ⟨rfl, rfl⟩
  · rintro ⟨rfl, rfl⟩
    exact ⟨_, _, ⟨rfl, rfl⟩, rfl, rfl⟩

theorem firstToken_kind_eq {kind : TokenKind} (hkind : kind ≠ .endOfText) {ts : List Token}
    (h : (firstToken ts).kind = kind) : ∃ t rest, ts = t :: rest ∧ t.kind = kind := by
  cases ts with
  | nil => exact absurd h.symm hkind
  | cons t rest => exact ⟨t, rest, rfl, h⟩

/-- A token of a kind is skipped if there is one. -/
theorem reads_skips {kind : TokenKind} (hkind : kind ≠ .endOfText) {b : Bool}
    {ts rest : List Token} : Reads answers (skips kind) source ts b rest ↔
      (b = true ∧ ∃ t, ts = t :: rest ∧ t.kind = kind) ∨
        (b = false ∧ (firstToken ts).kind ≠ kind ∧ rest = ts) := by
  unfold skips
  simp only [reads_bind, reads_sees, reads_ite, reads_pure]
  constructor
  · rintro ⟨_, _, ⟨rfl, rfl⟩, ⟨hsees, t, r, hnext, rfl, rfl⟩ | ⟨hsees, rfl, rfl⟩⟩
    · obtain ⟨u, us, rfl, hu⟩ := firstToken_kind_eq hkind (by simpa using hsees)
      rw [reads_next_cons, if_neg (by rw [hu]; exact hkind)] at hnext
      obtain ⟨rfl, rfl⟩ := hnext
      exact Or.inl ⟨rfl, _, rfl, hu⟩
    · exact Or.inr ⟨rfl, by simpa using hsees, rfl⟩
  · rintro (⟨rfl, t, rfl, ht⟩ | ⟨rfl, hne, rfl⟩)
    · refine ⟨_, _, ⟨rfl, rfl⟩, Or.inl ⟨by simpa using ht, t, rest, ?_, rfl, rfl⟩⟩
      rw [reads_next (by rw [ht]; exact hkind)]
    · exact ⟨_, _, ⟨rfl, rfl⟩, Or.inr ⟨by simpa using hne, rfl, rfl⟩⟩

/-- A token of a kind that has to be there. -/
theorem reads_expect {kind : TokenKind} (hkind : kind ≠ .endOfText) {t : Token}
    {ts rest : List Token} : Reads answers (expect kind) source ts t rest ↔
      ts = t :: rest ∧ t.kind = kind := by
  unfold expect
  simp only [reads_bind, reads_sees, reads_ite, not_reads_malformed, and_false, or_false]
  constructor
  · rintro ⟨_, _, ⟨rfl, rfl⟩, hsees, hnext⟩
    obtain ⟨u, us, rfl, hu⟩ := firstToken_kind_eq hkind (by simpa using hsees)
    rw [reads_next_cons, if_neg (by rw [hu]; exact hkind)] at hnext
    obtain ⟨rfl, rfl⟩ := hnext
    exact ⟨rfl, hu⟩
  · rintro ⟨rfl, ht⟩
    refine ⟨_, _, ⟨rfl, rfl⟩, by simpa using ht, ?_⟩
    rw [reads_next (by rw [ht]; exact hkind)]

@[simp] theorem reads_finish {u : Unit} {ts rest : List Token} :
    Reads answers finish source ts u rest ↔ (firstToken ts).kind = .endOfText ∧ rest = ts := by
  unfold finish
  simp only [reads_bind, reads_sees, reads_ite, reads_pure, not_reads_malformed, and_false,
    or_false]
  constructor
  · rintro ⟨_, _, ⟨rfl, rfl⟩, hsees, -, rfl⟩
    exact ⟨by simpa using hsees, rfl⟩
  · rintro ⟨hend, rfl⟩
    exact ⟨_, _, ⟨rfl, rfl⟩, by simpa using hend, trivial, rfl⟩

/-! ### Loops -/

/-- One round of a loop, or its end. -/
theorem reads_foldWhile {select : σ → Token → Option (TokenReader σ)} {state final : σ}
    {ts rest : List Token} : Reads answers (foldWhile select state) source ts final rest ↔
      ((∀ t ∈ ts.head?, select state t = none) ∧ final = state ∧ rest = ts) ∨
        ∃ t us step state' between, ts = t :: us ∧ select state t = some step ∧
          Reads answers step source us state' between ∧
          Reads answers (foldWhile select state') source between final rest := by
  cases ts with
  | nil =>
    unfold Reads
    rw [foldWhile]
    simp only [Resolution.gives_done]
    constructor
    · rintro ⟨_, h⟩
      cases h
      exact Or.inl ⟨by simp, rfl, rfl⟩
    · rintro (⟨-, rfl, rfl⟩ | ⟨_, _, _, _, _, h, _⟩)
      · exact ⟨Nat.le_refl _, rfl⟩
      · cases h
  | cons t us =>
    unfold Reads
    rw [foldWhile]
    cases hselect : select state t with
    | none =>
      simp only [Resolution.gives_done]
      constructor
      · rintro ⟨_, h⟩
        cases h
        exact Or.inl ⟨by simpa using hselect, rfl, rfl⟩
      · rintro (⟨-, rfl, rfl⟩ | ⟨_, _, _, _, _, h, hsome, _⟩)
        · exact ⟨Nat.le_refl _, rfl⟩
        · cases h
          rw [hselect] at hsome
          cases hsome
    | some step =>
      simp only [Resolution.gives_bind, Resolution.gives_pure]
      constructor
      · rintro ⟨_, ⟨state', between, h⟩, hstep, ⟨final', rest', h'⟩, hfinal, heq⟩
        cases heq
        exact Or.inr ⟨t, us, step, state', between, rfl, hselect, ⟨h, hstep⟩, h', hfinal⟩
      · rintro (⟨hnone, -⟩ | ⟨_, _, step', state', between, heq, hsome, ⟨h, hstep⟩, h', hfinal⟩)
        · rw [hnone t (by simp)] at hselect
          cases hselect
        · cases heq
          rw [hselect] at hsome
          cases hsome
          refine ⟨?_, ⟨state', between, h⟩, hstep, ⟨final, rest, h'⟩, hfinal, rfl⟩
          exact Nat.le_succ_of_le (Nat.le_trans h' h)

/-- The rule for loops: what holds in front of the loop and is kept by each step holds behind it,
and the next token selects no step. -/
theorem Reads.foldWhile_rule {select : σ → Token → Option (TokenReader σ)}
    (Inv : σ → List Token → Prop)
    (step : ∀ state t us reader state' between, Inv state (t :: us) →
      select state t = some reader → Reads answers reader source us state' between →
        Inv state' between)
    {state final : σ} {ts rest : List Token}
    (h : Reads answers (foldWhile select state) source ts final rest) (init : Inv state ts) :
    Inv final rest ∧ ∀ t ∈ rest.head?, select final t = none := by
  -- by induction on the number of tokens, since each step takes one
  induction hn : ts.length using Nat.strongRecOn generalizing ts state with
  | ind n ih =>
    rcases reads_foldWhile.mp h with
      ⟨hnone, rfl, rfl⟩ | ⟨t, us, reader, state', between, rfl, hselect, hstep, hfinal⟩
    · exact ⟨init, hnone⟩
    · have hle : between.length ≤ us.length := hstep.1
      have hlt : between.length < n := by
        rw [← hn, List.length_cons]
        omega
      exact ih _ hlt hfinal (step _ _ _ _ _ _ init hselect hstep) rfl

/-- Items with commas between them, and no comma behind them. -/
inductive ReadsItems (answers : Answers) (item : TokenReader α) (source : String) :
    List Token → List α → List Token → Prop
  | last {ts rest : List Token} {a : α} (h : Reads answers item source ts a rest)
      (stop : (firstToken rest).kind ≠ .comma) : ReadsItems answers item source ts [a] rest
  | more {ts us rest : List Token} {t : Token} {a : α} {as : List α}
      (h : Reads answers item source ts a (t :: us)) (comma : t.kind = .comma)
      (others : ReadsItems answers item source us as rest) :
      ReadsItems answers item source ts (a :: as) rest

/-- Nothing more is read where no separator follows. -/
theorem select_separator_eq_none {separator : TokenKind} (hsep : separator ≠ .endOfText)
    {step : TokenReader σ} {ts : List Token} :
    (∀ t ∈ ts.head?, (if t.kind = separator then some step else none) = none) ↔
      (firstToken ts).kind ≠ separator := by
  cases ts with
  | nil =>
    refine ⟨fun _ => hsep.symm, fun _ t ht => ?_⟩
    cases ht
  | cons t us => simp

/-- A step, and either no separator behind it or one with the further steps behind that. -/
theorem reads_foldSeparated {separator : TokenKind} (hsep : separator ≠ .endOfText)
    {step : σ → TokenReader σ} {state final : σ} {ts rest : List Token} :
    Reads answers (foldSeparated separator step state) source ts final rest ↔
      ∃ state' between, Reads answers (step state) source ts state' between ∧
        (((firstToken between).kind ≠ separator ∧ final = state' ∧ rest = between) ∨
          ∃ t us, between = t :: us ∧ t.kind = separator ∧
            Reads answers (foldSeparated separator step state') source us final rest) := by
  unfold foldSeparated
  simp only [reads_bind]
  constructor
  · rintro ⟨state', between, hstep, hfold⟩
    refine ⟨state', between, hstep, ?_⟩
    rcases reads_foldWhile.mp hfold with
      ⟨hnone, rfl, rfl⟩ | ⟨t, us, reader, state'', between', rfl, hselect, hreader, hfold⟩
    · exact Or.inl ⟨(select_separator_eq_none hsep).mp hnone, rfl, rfl⟩
    · by_cases hkind : t.kind = separator
      · rw [if_pos hkind] at hselect
        cases hselect
        exact Or.inr ⟨t, us, rfl, hkind, state'', between', hreader, hfold⟩
      · rw [if_neg hkind] at hselect
        cases hselect
  · rintro ⟨state', between, hstep, ⟨hkind, rfl, rfl⟩ |
      ⟨t, us, rfl, hkind, state'', between', hreader, hfold⟩⟩
    · exact ⟨final, rest, hstep, reads_foldWhile.mpr
        (Or.inl ⟨(select_separator_eq_none hsep).mpr hkind, rfl, rfl⟩)⟩
    · exact ⟨state', t :: us, hstep, reads_foldWhile.mpr
        (Or.inr ⟨t, us, _, state'', between', rfl, if_pos hkind, hreader, hfold⟩)⟩

/-- The rule for steps with separators between them: what holds in front of the first step and is
kept by each of them holds behind the last one. -/
theorem Reads.foldSeparated_rule {separator : TokenKind} {step : σ → TokenReader σ} (Inv : σ → Prop)
    (hstep : ∀ state state' ts rest, Inv state → Reads answers (step state) source ts state' rest →
      Inv state')
    {state final : σ} {ts rest : List Token}
    (h : Reads answers (foldSeparated separator step state) source ts final rest)
    (init : Inv state) : Inv final := by
  unfold foldSeparated at h
  obtain ⟨state', between, hfirst, hfold⟩ := reads_bind.mp h
  refine (hfold.foldWhile_rule (fun state _ => Inv state) ?_ (hstep _ _ _ _ init hfirst)).1
  intro state t us reader state' between hinv hselect hread
  by_cases hkind : t.kind = separator
  · rw [if_pos hkind] at hselect
    cases hselect
    exact hstep _ _ _ _ hinv hread
  · rw [if_neg hkind] at hselect
    cases hselect

/-- Read one more item, onto those that are read already. -/
def itemOnto (item : TokenReader α) (earlier : List α) : TokenReader (List α) := do
  return (← item) :: earlier

theorem reads_itemOnto {item : TokenReader α} {earlier final : List α} {ts rest : List Token} :
    Reads answers (itemOnto item earlier) source ts final rest ↔
      ∃ a, Reads answers item source ts a rest ∧ final = a :: earlier := by
  unfold itemOnto
  simp only [reads_bind, reads_pure]
  constructor
  · rintro ⟨a, _, ha, rfl, rfl⟩
    exact ⟨a, ha, rfl⟩
  · rintro ⟨a, ha, rfl⟩
    exact ⟨a, rest, ha, rfl, rfl⟩

theorem reads_itemsOnto_of_readsItems {item : TokenReader α} {ts rest : List Token} {as : List α}
    (h : ReadsItems answers item source ts as rest) (earlier : List α) :
    Reads answers (foldSeparated .comma (itemOnto item) earlier) source ts
      (as.reverse ++ earlier) rest := by
  induction h generalizing earlier with
  | @last ts rest a h stop =>
    exact (reads_foldSeparated (by decide)).mpr
      ⟨a :: earlier, rest, reads_itemOnto.mpr ⟨a, h, rfl⟩, Or.inl ⟨stop, rfl, rfl⟩⟩
  | @more ts us rest t a as h comma _ ih =>
    refine (reads_foldSeparated (by decide)).mpr
      ⟨a :: earlier, t :: us, reads_itemOnto.mpr ⟨a, h, rfl⟩, Or.inr ⟨t, us, rfl, comma, ?_⟩⟩
    simpa using ih (a :: earlier)

/-- Reading items onto those that are read already, the last one first. -/
theorem readsItems_of_reads_itemsOnto {item : TokenReader α} {ts rest : List Token}
    {earlier final : List α}
    (h : Reads answers (foldSeparated .comma (itemOnto item) earlier) source ts final rest) :
    ∃ as, final = as.reverse ++ earlier ∧ ReadsItems answers item source ts as rest := by
  -- by induction on a bound for the number of tokens, since each further item takes a comma
  induction hn : ts.length using Nat.strongRecOn generalizing ts earlier with
  | ind n ih =>
    obtain ⟨state, between, hitem, hend⟩ := (reads_foldSeparated (by decide)).mp h
    obtain ⟨a, ha, rfl⟩ := reads_itemOnto.mp hitem
    rcases hend with ⟨hstop, rfl, rfl⟩ | ⟨t, us, rfl, hcomma, hrest⟩
    · exact ⟨[a], rfl, .last ha hstop⟩
    · have hle : us.length + 1 ≤ ts.length := ha.1
      obtain ⟨as, rfl, has⟩ := ih us.length (by omega) hrest rfl
      exact ⟨a :: as, by simp, .more ha hcomma has⟩

/-- Each item has been read. -/
theorem ReadsItems.exists_of_mem {item : TokenReader α} {ts rest : List Token} {as : List α}
    (h : ReadsItems answers item source ts as rest) {a : α} (ha : a ∈ as) :
    ∃ us vs, Reads answers item source us a vs := by
  induction h with
  | last h =>
    rw [List.mem_singleton] at ha
    subst ha
    exact ⟨_, _, h⟩
  | more h _ _ ih =>
    rcases List.mem_cons.mp ha with rfl | ha
    · exact ⟨_, _, h⟩
    · exact ih ha

theorem reads_commaSeparated {item : TokenReader α} {ts rest : List Token} {as : List α} :
    Reads answers (commaSeparated item) source ts as rest ↔
      ReadsItems answers item source ts as rest := by
  show Reads answers (foldSeparated .comma (itemOnto item) [] >>= fun items =>
    Pure.pure items.reverse) source ts as rest ↔ _
  simp only [reads_bind, reads_pure]
  constructor
  · rintro ⟨final, _, hfold, rfl, rfl⟩
    obtain ⟨as, rfl, has⟩ := readsItems_of_reads_itemsOnto hfold
    simpa using has
  · intro h
    exact ⟨_, rest, reads_itemsOnto_of_readsItems h [], by simp, rfl⟩

/-! ### Whole texts -/

/-- Reading a whole text uses all its tokens. -/
theorem gives_readAll {x : TokenReader α} {text : String} {a : α} :
    (readAll x text).Gives answers a ↔ ∃ tokens rest, tokenize text = .ok tokens ∧
      Reads answers x text tokens a rest ∧ (firstToken rest).kind = .endOfText := by
  unfold readAll
  simp only [Resolution.gives_bind, Resolution.gives_ofGrammar, Resolution.gives_pure]
  constructor
  · rintro ⟨tokens, htokens, ⟨_, rest, hle⟩, hx, ⟨u, _, hle'⟩, hfinish, rfl⟩
    have hend := reads_finish.mp ⟨hle', hfinish⟩
    exact ⟨tokens, rest, htokens, ⟨hle, hx⟩, hend.1⟩
  · rintro ⟨tokens, rest, htokens, ⟨hle, hx⟩, hend⟩
    obtain ⟨hle', hfinish⟩ : Reads answers finish text rest () rest := by simpa using hend
    exact ⟨tokens, htokens, ⟨a, rest, hle⟩, hx, ⟨(), rest, hle'⟩, hfinish, rfl⟩

end TokenReader

end ODataRequest
