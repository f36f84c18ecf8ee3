import ODataRequest.Proofs.Directory.Schemas
import ODataRequest.Proofs.Resolution

/-!
# ODataRequest.Proofs.Directory.Answers

What a source answers. A resolution gives a value with the answers of a source (`Source.answers`) if
and only if it comes to this value on the directories of the source, whatever these have resolved
before.
-/

namespace ODataRequest

/-- The answers that a directory of the source gives. -/
def Source.answers (s : Source) : Answers :=
  fun q answer => q.ask.result s = .ok answer

namespace Resolution

variable {α : Type} {s : Source} {x : Resolution α} {a : α}

/-- What is given with the answers of a source is what the resolution comes to. -/
theorem runOn_of_gives_answers (names : s.WellNamed) (h : x.Gives s.answers a) {d : Directory}
    (hd : d.Consistent s) : (x.runOn d).1 = .ok a := by
  induction h generalizing d with
  | done => rfl
  | @ask q next answer value possible h ih =>
    obtain ⟨hanswer, hafter⟩ := Question.ask_settled names q d hd
    rw [possible] at hanswer
    unfold runOn
    rcases hrun : q.ask.runOn d with ⟨r, d'⟩
    rw [hrun] at hanswer hafter
    have hanswer : r = .ok answer := hanswer
    subst hanswer
    exact ih hafter

/-- What a resolution comes to is given with the answers of the source. -/
theorem gives_answers_of_runOn (names : s.WellNamed) {d : Directory} (hd : d.Consistent s)
    (h : (x.runOn d).1 = .ok a) : x.Gives s.answers a := by
  induction x generalizing d with
  | done value =>
    cases h
    exact .done _
  | fail error => cases h
  | ask q next ih =>
    obtain ⟨hanswer, hafter⟩ := Question.ask_settled names q d hd
    unfold runOn at h
    rcases hrun : q.ask.runOn d with ⟨r, d'⟩
    rw [hrun] at h hanswer hafter
    cases r with
    | error e => cases h
    | ok answer => exact .ask hanswer.symm (ih answer hafter h)

/-- With the answers of a source one value is given. -/
theorem Gives.unique (names : s.WellNamed) {b : α} (h : x.Gives s.answers a)
    (h' : x.Gives s.answers b) : a = b := by
  have hrun := runOn_of_gives_answers names h (.ofSource s)
  rw [runOn_of_gives_answers names h' (.ofSource s)] at hrun
  exact (Except.ok.inj hrun).symm

end Resolution

end ODataRequest
