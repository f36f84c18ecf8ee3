import Mathlib.Data.List.Forall2
import ODataRequest.Request.Resolution

/-!
# ODataRequest.Proofs.Resolution

What a resolution may come to. A value is *given* by a resolution if it is done with it for some
answers to the questions it asks, where `answers` says which ones are possible. What is said about
all given values with any answers holds on every directory, whatever the model and the state of its
stores; a value that is given without any answers is what the resolution comes to everywhere.
-/

namespace ODataRequest

/-- The possible answers to each question. -/
abbrev Answers := (question : Question) → question.Answer → Prop

/-- Any answer is possible. -/
def Answers.any : Answers :=
  fun _ _ => True

/-- No answer is possible. -/
def Answers.none : Answers :=
  fun _ _ => False

namespace Resolution

variable {α β : Type} {answers : Answers}

instance : LawfulMonad Resolution :=
  LawfulMonad.mk' Resolution bind_done pure_bind bind_assoc

/-- The resolution is done with the value, for some possible answers to its questions. -/
inductive Gives (answers : Answers) : Resolution α → α → Prop
  | done (value : α) : Gives answers (.done value) value
  | ask {question : Question} {next : question.Answer → Resolution α} {answer : question.Answer}
      {value : α} (possible : answers question answer) (h : Gives answers (next answer) value) :
      Gives answers (.ask question next) value

/-- What a resolution comes to on a directory is given. -/
theorem gives_of_runOn {x : Resolution α} {d : Directory} {a : α} (h : (x.runOn d).1 = .ok a) :
    x.Gives .any a := by
  induction x generalizing d with
  | done value =>
    cases h
    exact .done _
  | fail error => cases h
  | ask question next ih =>
    unfold runOn at h
    split at h
    · exact .ask trivial (ih _ h)
    · cases h

/-- What is given without any answers is what the resolution comes to on every directory, and the
directory stays as it is. -/
theorem runOn_of_gives {x : Resolution α} {a : α} (h : x.Gives .none a) (d : Directory) :
    x.runOn d = (.ok a, d) := by
  cases h with
  | done => rfl
  | ask possible => exact possible.elim

/-! ### Rules -/

@[simp] theorem gives_done {a b : α} : (Resolution.done a).Gives answers b ↔ a = b := by
  constructor
  · rintro ⟨⟩
    rfl
  · rintro rfl
    exact .done a

@[simp] theorem gives_pure {a b : α} : (pure a : Resolution α).Gives answers b ↔ a = b :=
  gives_done

@[simp] theorem not_gives_fail {e : RequestError} {a : α} : ¬(Resolution.fail e).Gives answers a :=
  nofun

@[simp] theorem not_gives_refuse {e : GrammarError} {a : α} : ¬(refuse e).Gives answers a :=
  nofun

@[simp] theorem not_gives_reject {e : SemanticError} {a : α} : ¬(reject e).Gives answers a :=
  nofun

@[simp] theorem gives_bind {x : Resolution α} {f : α → Resolution β} {b : β} :
    (x >>= f).Gives answers b ↔ ∃ a, x.Gives answers a ∧ (f a).Gives answers b := by
  show (x.bind f).Gives answers b ↔ _
  constructor
  · intro h
    induction x with
    | done a => exact ⟨a, .done a, h⟩
    | fail e => cases h
    | ask question next ih =>
      cases h with
      | ask possible h =>
        obtain ⟨a, ha, hb⟩ := ih _ h
        exact ⟨a, .ask possible ha, hb⟩
  · rintro ⟨a, ha, hb⟩
    induction ha with
    | done a => exact hb
    | ask possible _ ih => exact .ask possible (ih hb)

@[simp] theorem gives_answerTo {q : Question} {answer : q.Answer} :
    (answerTo q).Gives answers answer ↔ answers q answer := by
  constructor
  · intro h
    cases h with
    | ask possible h =>
      cases gives_done.mp h
      exact possible
  · exact fun h => .ask h (.done answer)

@[simp] theorem gives_require {e : SemanticError} {o : Option α} {a : α} :
    (require e o).Gives answers a ↔ o = some a := by
  cases o <;> simp [require]

@[simp] theorem gives_ofGrammar {x : Except GrammarError α} {a : α} :
    (ofGrammar x).Gives answers a ↔ x = .ok a := by
  cases x <;> simp [ofGrammar]

@[simp] theorem gives_ofSemantic {x : Except SemanticError α} {a : α} :
    (ofSemantic x).Gives answers a ↔ x = .ok a := by
  cases x <;> simp [ofSemantic]

/-! ### What has to be there -/

@[simp] theorem gives_requireType {name : QualifiedName} {type : ModelType} :
    (requireType name).Gives answers type ↔ answers (.type name) (some type) := by
  have hanswer : (answerTo (.type name)).Gives answers (some type) ↔
      answers (.type name) (some type) := gives_answerTo
  simp [requireType, Option.exists, hanswer]

@[simp] theorem gives_requireEntityType {name : QualifiedName} {type : EntityType} :
    (requireEntityType name).Gives answers type ↔ answers (.entityType name) (some type) := by
  have hanswer : (answerTo (.entityType name)).Gives answers (some type) ↔
      answers (.entityType name) (some type) := gives_answerTo
  simp [requireEntityType, Option.exists, hanswer]

@[simp] theorem gives_requireContainer {container : Container} :
    requireContainer.Gives answers container ↔ answers .container (some container) := by
  have hanswer : (answerTo .container).Gives answers (some container) ↔
      answers .container (some container) := gives_answerTo
  simp [requireContainer, hanswer]

@[simp] theorem gives_requireName {text : String} {name : QualifiedName} :
    (requireName text).Gives answers name ↔ QualifiedName.ofString? text = some name := by
  unfold requireName
  cases QualifiedName.ofString? text <;> simp

/-! ### Traversals -/

/-- A traversal gives a value for each element. -/
theorem gives_mapM {f : α → Resolution β} {as : List α} {bs : List β} :
    (as.mapM f).Gives answers bs ↔ List.Forall₂ (fun a b => (f a).Gives answers b) as bs := by
  induction as generalizing bs with
  | nil =>
    simp only [List.mapM_nil, gives_pure, List.forall₂_nil_left_iff]
    exact eq_comm
  | cons a as ih =>
    simp only [List.mapM_cons, gives_bind, gives_pure]
    constructor
    · rintro ⟨b, hb, bs, hbs, rfl⟩
      exact .cons hb (ih.mp hbs)
    · intro h
      cases h with
      | @cons _ b _ bs hb hbs => exact ⟨b, hb, bs, ih.mpr hbs, rfl⟩

/-- A traversal that carries a state: what holds in front of it and is kept by each step holds
behind it. -/
theorem Gives.foldlM_rule {α σ : Type} {f : σ → α → Resolution σ} (Inv : σ → Prop)
    (step : ∀ state a state', Inv state → (f state a).Gives answers state' → Inv state')
    {as : List α} {state final : σ} (h : (as.foldlM f state).Gives answers final)
    (init : Inv state) : Inv final := by
  induction as generalizing state with
  | nil =>
    rw [List.foldlM_nil, gives_pure] at h
    rwa [← h]
  | cons a as ih =>
    rw [List.foldlM_cons, gives_bind] at h
    obtain ⟨state', hstep, hrest⟩ := h
    exact ih hrest (step state a state' init hstep)

end Resolution

end ODataRequest
