import ODataRequest.Proofs.Directory.Steady

/-!
# ODataRequest.Proofs.Outcome

What a resolution comes to on a directory of a source, whatever calls have been made on it before
(`Source.ComesTo`). Its questions are calls, so a resolution leaves a directory that some further
calls have been made on (`Resolution.exists_after`); this is why resolutions can be put one behind
the other (`ComesTo.bind`).

Where the namespaces and aliases of the source can be told apart, the first answer is the answer
for good (`comesTo_of_runOn`). Elsewhere it may not be, since what a directory has stored under a
name may hide what the source would answer.
-/

namespace ODataRequest

variable {α β : Type}

theorem DirectoryCall.after_append (calls calls' : List DirectoryCall) (d : Directory) :
    after (calls ++ calls') d = after calls' (after calls d) := by
  induction calls generalizing d with
  | nil => rfl
  | cons c calls ih => exact ih _

/-- A resolution leaves the directory that the calls for its questions leave. -/
theorem Resolution.exists_after (x : Resolution α) (d : Directory) :
    ∃ calls, (x.runOn d).2 = DirectoryCall.after calls d := by
  induction x generalizing d with
  | done value => exact ⟨[], rfl⟩
  | fail error => exact ⟨[], rfl⟩
  | ask q next ih =>
    have hcall := q.run_call d
    unfold runOn
    rcases hrun : q.ask.runOn d with ⟨answer | answer, d'⟩
    · rw [hrun] at hcall
      exact ⟨[q.call], hcall.symm⟩
    · rw [hrun] at hcall
      obtain ⟨calls, hcalls⟩ := ih answer d'
      refine ⟨q.call :: calls, ?_⟩
      rw [DirectoryCall.after, hcall]
      exact hcalls

/-! ### Outcomes -/

namespace Source

/-- Whatever calls have been made on a directory of the source, the resolution comes to the value
on it. -/
def ComesTo (s : Source) (x : Resolution α) (a : α) : Prop :=
  ∀ calls, (x.runOn (DirectoryCall.after calls (.ofSource s))).1 = .ok a

/-- The resolution comes to the value on a directory without history. If names cannot be told apart,
it also does so on a directory with any history. -/
structure Settles (s : Source) (x : Resolution α) (a : α) : Prop where
  fresh : (x.runOn (.ofSource s)).1 = .ok a
  always : s.WellNamed ∨ s.ComesTo x a

variable {s : Source}

/-- What a resolution comes to on a directory without history it always comes to, if names can be
told apart. -/
theorem comesTo_of_runOn (names : s.WellNamed) {x : Resolution α} {a : α}
    (h : (x.runOn (.ofSource s)).1 = .ok a) : s.ComesTo x a := by
  intro calls
  rw [(x.runOn_consistent names (DirectoryCall.after_consistent names calls (.ofSource s))).1, h]

theorem Settles.comesTo {x : Resolution α} {a : α} (h : s.Settles x a) : s.ComesTo x a := by
  rcases h.always with names | hcomes
  · exact comesTo_of_runOn names h.fresh
  · exact hcomes

namespace ComesTo

theorem done (a : α) : s.ComesTo (pure a) a :=
  fun _ => rfl

/-- What is given without any answers. -/
theorem of_gives {x : Resolution α} {a : α} (h : x.Gives .none a) : s.ComesTo x a :=
  fun _ => by rw [Resolution.runOn_of_gives h]

theorem bind {x : Resolution α} {f : α → Resolution β} {a : α} {b : β} (hx : s.ComesTo x a)
    (hf : s.ComesTo (f a) b) : s.ComesTo (x >>= f) b := by
  intro calls
  obtain ⟨calls', hcalls'⟩ := x.exists_after (DirectoryCall.after calls (.ofSource s))
  have ha := hx calls
  show ((x.bind f).runOn _).1 = _
  rw [Resolution.runOn_bind]
  rcases hrun : x.runOn (DirectoryCall.after calls (.ofSource s)) with ⟨r, d⟩
  rw [hrun] at ha hcalls'
  have hr : r = .ok a := ha
  have hd : d = DirectoryCall.after (calls ++ calls') (.ofSource s) := by
    rw [DirectoryCall.after_append]
    exact hcalls'
  rw [hr, hd]
  exact hf _

/-- A resolution whose value is put into something that determines it. -/
theorem of_bind_pure {x : Resolution α} {f : α → β} {a : α}
    (hf : ∀ a', f a' = f a → a' = a) (h : s.ComesTo (x >>= fun a => pure (f a)) (f a)) :
    s.ComesTo x a := by
  intro calls
  have hcalls : ((x.bind fun a => pure (f a)).runOn _).1 = _ := h calls
  rw [Resolution.runOn_bind] at hcalls
  rcases hrun : x.runOn (DirectoryCall.after calls (.ofSource s)) with ⟨e | a', d⟩
  · rw [hrun] at hcalls
    cases hcalls
  · rw [hrun] at hcalls
    have ha' : f a' = f a := Except.ok.inj hcalls
    rw [hf a' ha']

/-- What a resolution always comes to is given by it. -/
theorem gives {x : Resolution α} {a : α} (h : s.ComesTo x a) : x.Gives .any a :=
  Resolution.gives_of_runOn (h [])

theorem mapM {f : α → Resolution β} {as : List α} {bs : List β}
    (h : List.Forall₂ (fun a b => s.ComesTo (f a) b) as bs) : s.ComesTo (as.mapM f) bs := by
  induction h with
  | nil => exact .done []
  | @cons a b as bs hab _ ih =>
    rw [List.mapM_cons]
    exact hab.bind (ih.bind (.done (b :: bs)))

end ComesTo

end Source

end ODataRequest
