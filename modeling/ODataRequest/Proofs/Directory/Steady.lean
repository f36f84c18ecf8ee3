import ODataRequest.Proofs.CallHistory
import ODataRequest.Proofs.Resolution

/-!
# ODataRequest.Proofs.Directory.Steady

Answers of a directory whatever its source is. An answer is *steady* if the directory gives it
whenever it is asked, whatever calls it has had in between, and it is *seen* if the directory gives
it after some calls. What is given with steady answers is what a resolution comes to; what it comes
to is given with seen ones. Where the names of a source can be told apart all its answers are
steady; here nothing is assumed about them.
-/

namespace ODataRequest

namespace Question

/-- The call that puts a question to a directory. -/
def call : Question → DirectoryCall
  | .entityType name => .entityType name
  | .type name => .resolveType name
  | .enumType name => .enumType name
  | .container => .container none
  | .unboundAction name => .unboundAction name
  | .unboundFunction name parameters => .unboundFunction name parameters
  | .boundAction name binding => .boundAction name binding
  | .boundFunction name binding parameters => .boundFunction name binding parameters

theorem run_call (q : Question) (d : Directory) : (q.call.run d).2 = (q.ask.runOn d).2 := by
  cases q <;> rfl

end Question

theorem DirectoryCall.after_concat (calls : List DirectoryCall) (c : DirectoryCall)
    (d : Directory) : after (calls ++ [c]) d = (c.run (after calls d)).2 := by
  induction calls generalizing d with
  | nil => rfl
  | cons c' calls ih => exact ih _

namespace Directory

/-- The answers that the directory gives whenever it is asked. -/
def steadyAnswers (d : Directory) : Answers :=
  fun q answer => ∀ calls, (q.ask.runOn (DirectoryCall.after calls d)).1 = .ok answer

/-- The answers that the directory gives after some calls. -/
def seenAnswers (d : Directory) : Answers :=
  fun q answer => ∃ calls, (q.ask.runOn (DirectoryCall.after calls d)).1 = .ok answer

end Directory

namespace Resolution

variable {α : Type} {x : Resolution α} {d : Directory} {a : α}

/-- What is given with steady answers is what the resolution comes to after any calls. -/
theorem runOn_of_gives_steady (h : x.Gives d.steadyAnswers a) (calls : List DirectoryCall) :
    (x.runOn (DirectoryCall.after calls d)).1 = .ok a := by
  induction h generalizing calls with
  | done => rfl
  | @ask q next answer value possible h ih =>
    have hanswer := possible calls
    have hafter := ih (calls ++ [q.call])
    rw [DirectoryCall.after_concat, q.run_call] at hafter
    unfold runOn
    rcases hrun : q.ask.runOn (DirectoryCall.after calls d) with ⟨r, d'⟩
    rw [hrun] at hanswer hafter
    have hr : r = .ok answer := hanswer
    subst hr
    exact hafter

/-- What the resolution comes to after some calls is given with answers that are seen. -/
theorem gives_seen_of_runOn {calls : List DirectoryCall}
    (h : (x.runOn (DirectoryCall.after calls d)).1 = .ok a) : x.Gives d.seenAnswers a := by
  induction x generalizing calls with
  | done value =>
    cases h
    exact .done _
  | fail error => cases h
  | ask q next ih =>
    unfold runOn at h
    rcases hrun : q.ask.runOn (DirectoryCall.after calls d) with ⟨r, d'⟩
    rw [hrun] at h
    cases r with
    | error e => cases h
    | ok answer =>
      have hseen : d.seenAnswers q answer := ⟨calls, by rw [hrun]⟩
      have hafter : DirectoryCall.after (calls ++ [q.call]) d = d' := by
        rw [DirectoryCall.after_concat, q.run_call, hrun]
      have hrest : ((next answer).runOn (DirectoryCall.after (calls ++ [q.call]) d)).1 = .ok a := by
        rw [hafter]
        exact h
      exact .ask hseen (ih answer hrest)

end Resolution

end ODataRequest
