import Mathlib.Data.List.Forall2
import ODataRequest.Proofs.Directory.Consistent
import ODataRequest.Proofs.Except

/-!
# ODataRequest.Proofs.Directory.Settled

Computations whose result does not depend on what a directory has resolved before. A computation
*settles* to a result if it gives this result on every consistent directory and leaves a consistent
directory behind. A directory without history is consistent, so the result is the one that such a
directory gives, and a computation is called *settled* if it settles to that.

Settled computations compose. The operations of a directory are therefore settled one by one, from
requests and stores up, and only requests, stores and aliases look at the directory itself.
-/

namespace ODataRequest.InDirectory

variable {α β : Type} {s : Source}

/-- Every consistent directory gives the result, and is consistent afterwards. -/
def Settles (s : Source) (x : InDirectory α) (r : Except DirectoryError α) : Prop :=
  ∀ d : Directory, d.Consistent s → (x.runOn d).1 = r ∧ (x.runOn d).2.Consistent s

/-- Nothing that a directory has resolved before changes the result. -/
def Settled (s : Source) (x : InDirectory α) : Prop :=
  Settles s x (x.result s)

theorem Settles.result_eq {x : InDirectory α} {r : Except DirectoryError α} (h : Settles s x r) :
    x.result s = r :=
  (h _ (.ofSource s)).1

theorem Settles.settled {x : InDirectory α} {r : Except DirectoryError α} (h : Settles s x r) :
    Settled s x := by
  unfold Settled
  rw [h.result_eq]
  exact h

/-! ### Rules -/

theorem Settles.pure (a : α) : Settles s (pure a) (.ok a) :=
  fun _ hd => ⟨rfl, hd⟩

theorem Settles.throw (e : DirectoryError) : Settles s (throw e : InDirectory α) (.error e) :=
  fun _ hd => ⟨rfl, hd⟩

/-- The second computation settles for each value that the first one settles to. -/
theorem Settles.bind {x : InDirectory α} {f : α → InDirectory β} {r : Except DirectoryError α}
    {g : α → Except DirectoryError β} (hx : Settles s x r)
    (hf : ∀ a, r = .ok a → Settles s (f a) (g a)) : Settles s (x >>= f) (r >>= g) := by
  intro d hd
  have hrun := hx d hd
  rw [runOn_bind]
  rcases hxd : x.runOn d with ⟨o, d'⟩
  rw [hxd] at hrun
  obtain ⟨rfl, hd'⟩ := hrun
  cases o with
  | error e => exact ⟨rfl, hd'⟩
  | ok a => exact hf a rfl d' hd'

theorem Settles.bind_ok {x : InDirectory α} {f : α → InDirectory β} {a : α}
    {r : Except DirectoryError β} (hx : Settles s x (.ok a)) (hf : Settles s (f a) r) :
    Settles s (x >>= f) r :=
  hx.bind (g := fun _ => r) fun b hb => by cases hb; exact hf

/-- After a computation that settles to a value, the second one runs on the directory it leaves. -/
theorem Settles.runOn_bind_ok {x : InDirectory α} {f : α → InDirectory β} {a : α}
    (hx : Settles s x (.ok a)) {d : Directory} (hd : d.Consistent s) :
    (x >>= f).runOn d = (f a).runOn (x.runOn d).2 := by
  rw [InDirectory.runOn_bind]
  have hresult := (hx d hd).1
  rcases hxd : x.runOn d with ⟨r, d'⟩
  rw [hxd] at hresult
  cases hresult
  rfl

theorem Settles.bind_settled {x : InDirectory α} {f : α → InDirectory β} {a : α}
    (hx : Settles s x (.ok a)) (hf : Settled s (f a)) : Settled s (x >>= f) :=
  (hx.bind_ok hf).settled

theorem Settles.inContext {x : InDirectory α} {r : Except DirectoryError α}
    (context : DirectoryError → DirectoryError) (hx : Settles s x r) :
    Settles s (inContext context x) (r.mapError context) := by
  intro d hd
  rw [runOn_inContext]
  exact ⟨congrArg (Except.mapError context) (hx d hd).1, (hx d hd).2⟩

/-- A computation that cannot fail, for all elements of a list. -/
theorem Settles.mapM {f : α → InDirectory β} {g : α → β} {as : List α}
    (hf : ∀ a ∈ as, Settles s (f a) (.ok (g a))) : Settles s (as.mapM f) (.ok (as.map g)) := by
  induction as with
  | nil => exact .pure []
  | cons a as ih =>
    rw [List.mapM_cons]
    refine (hf a List.mem_cons_self).bind_ok ?_
    exact (ih fun x hx => hf x (List.mem_cons_of_mem a hx)).bind_ok (.pure _)

theorem Settles.optionMapM {f : α → InDirectory β} {g : α → β} {o : Option α}
    (hf : ∀ a, o = some a → Settles s (f a) (.ok (g a))) :
    Settles s (o.mapM f) (.ok (o.map g)) := by
  cases o with
  | none => exact Settles.pure none
  | some a => exact (hf a rfl).bind_ok (.pure (some (g a)))

theorem Settled.pure (a : α) : Settled s (pure a : InDirectory α) :=
  Settles.pure a

theorem Settled.throw (e : DirectoryError) : Settled s (throw e : InDirectory α) :=
  Settles.throw e

theorem Settled.bind {x : InDirectory α} {f : α → InDirectory β} (hx : Settled s x)
    (hf : ∀ a, x.result s = .ok a → Settled s (f a)) : Settled s (x >>= f) :=
  (Settles.bind hx hf).settled

/-- What a sequence of settled computations gives can be found on directories without history. -/
theorem Settled.result_bind {x : InDirectory α} {f : α → InDirectory β} (hx : Settled s x)
    (hf : ∀ a, x.result s = .ok a → Settled s (f a)) :
    (x >>= f).result s = x.result s >>= fun a => (f a).result s :=
  (Settles.bind hx hf).result_eq

theorem Settled.bind_eq_ok {x : InDirectory α} {f : α → InDirectory β} {b : β} (hx : Settled s x)
    (hf : ∀ a, x.result s = .ok a → Settled s (f a)) :
    (x >>= f).result s = .ok b ↔ ∃ a, x.result s = .ok a ∧ (f a).result s = .ok b := by
  rw [hx.result_bind hf]
  exact except_bind_eq_ok

/-- What holds of every result of the second computation holds of the results of both together. -/
theorem Settled.bind_result {x : InDirectory α} {f : α → InDirectory β} {P : β → Prop}
    (hx : Settled s x) (hf : ∀ a, x.result s = .ok a →
      Settled s (f a) ∧ ∀ b, (f a).result s = .ok b → P b) :
    Settled s (x >>= f) ∧ ∀ b, (x >>= f).result s = .ok b → P b := by
  have hboth := Settles.bind (g := fun a => (f a).result s) hx fun a ha => (hf a ha).1
  refine ⟨hboth.settled, fun b hb => ?_⟩
  rw [hboth.result_eq] at hb
  obtain ⟨a, ha, hb⟩ := except_bind_eq_ok.mp hb
  exact (hf a ha).2 b hb

theorem Settled.pure_result {P : α → Prop} {a : α} (h : P a) :
    Settled s (Pure.pure a : InDirectory α) ∧
      ∀ b, (Pure.pure a : InDirectory α).result s = .ok b → P b := by
  refine ⟨.pure a, fun b hb => ?_⟩
  cases hb
  exact h

theorem Settled.inContext {x : InDirectory α} (context : DirectoryError → DirectoryError)
    (hx : Settled s x) : Settled s (inContext context x) :=
  (Settles.inContext context hx).settled

theorem Settled.mapM {f : α → InDirectory β} {as : List α} (hf : ∀ a ∈ as, Settled s (f a)) :
    Settled s (as.mapM f) := by
  induction as with
  | nil => exact .pure []
  | cons a as ih =>
    rw [List.mapM_cons]
    refine (hf a List.mem_cons_self).bind fun b _ => ?_
    refine (ih fun x hx => hf x (List.mem_cons_of_mem a hx)).bind fun bs _ => ?_
    exact .pure (b :: bs)

/-- A traversal gives a value for each element. -/
theorem Settled.mapM_eq_ok {f : α → InDirectory β} {as : List α} {bs : List β}
    (hf : ∀ a ∈ as, Settled s (f a)) :
    (as.mapM f).result s = .ok bs ↔ List.Forall₂ (fun a b => (f a).result s = .ok b) as bs := by
  induction as generalizing bs with
  | nil =>
    rw [List.mapM_nil, (Settles.pure []).result_eq, List.forall₂_nil_left_iff]
    constructor
    · rintro ⟨⟩
      rfl
    · rintro rfl
      rfl
  | cons a as ih =>
    obtain ⟨ha, has⟩ := List.forall_mem_cons.mp hf
    rw [List.mapM_cons, ha.bind_eq_ok fun b _ => Settled.bind (.mapM has) fun bs _ => .pure (b :: bs)]
    constructor
    · rintro ⟨b, hb, hrest⟩
      obtain ⟨bs, hbs, ⟨⟩⟩ := ((Settled.mapM has).bind_eq_ok fun bs _ => .pure (b :: bs)).mp hrest
      exact .cons hb ((ih has).mp hbs)
    · intro h
      cases h with
      | @cons _ b _ bs hb hbs =>
        refine ⟨b, hb, ((Settled.mapM has).bind_eq_ok fun bs _ => .pure (b :: bs)).mpr ?_⟩
        exact ⟨bs, (ih has).mpr hbs, rfl⟩

theorem Settled.optionMapM {f : α → InDirectory β} {o : Option α}
    (hf : ∀ a, o = some a → Settled s (f a)) : Settled s (o.mapM f) := by
  cases o with
  | none => exact Settled.pure none
  | some a => exact (hf a rfl).bind fun b _ => .pure (some b)

/-- A computation that comes to the same whatever it reads of a consistent directory first. -/
theorem Settles.readDirectory {f : Directory → InDirectory α} {r : Except DirectoryError α}
    (hf : ∀ d : Directory, d.Consistent s → Settles s (f d) r) : Settles s (get >>= f) r := by
  intro d hd
  rw [runOn_bind, runOn_get]
  exact hf d hd d hd

theorem Settles.modify {g : Directory → Directory}
    (hg : ∀ d : Directory, d.Consistent s → (g d).Consistent s) :
    Settles s (modify g) (.ok ()) :=
  fun d hd => ⟨rfl, hg d hd⟩

/-! ### Requests -/

/-- The source answers as its schemas say. -/
theorem askSource_settles (r : SourceRequest) : Settles s (askSource r) (.ok (s.answer r)) := by
  intro d hd
  have hrun : (askSource r).runOn d = (.ok (d.source.answer r), { d with log := r :: d.log }) := by
    unfold askSource
    simp [runOn_bind, hd.failing, hd.failingOnce]
  rw [hrun]
  exact ⟨by rw [hd.source], { hd with }⟩

/-! ### Stores -/

section Stores

variable {κ : Type} [DecidableEq κ] {store : StoreIn κ α} {Right : κ → α → Prop}

theorem mem_of_lookup {entries : Store κ α} {key : κ} {value : α}
    (h : entries.lookup key = some value) : (key, value) ∈ entries := by
  obtain ⟨before, behind, rfl, -⟩ := List.lookup_eq_some_iff.mp h
  exact List.mem_append_right before List.mem_cons_self

/-- What the rest of a computation sees of a store: nothing, or a right element. -/
theorem Settles.find {key : κ} {f : Option α → InDirectory β} {r : Except DirectoryError β}
    (keeps : store.Keeps s Right) (hnone : Settles s (f none) r)
    (hsome : ∀ value, Right key value → Settles s (f (some value)) r) :
    Settles s (store.find? key >>= f) r := by
  intro d hd
  have hfind : (store.find? key).runOn d = (.ok ((store.entries d).lookup key), d) := rfl
  rw [runOn_bind, hfind]
  cases hl : (store.entries d).lookup key with
  | none => exact hnone d hd
  | some value => exact hsome value (keeps.stored d hd _ (mem_of_lookup hl)) d hd

/-- Putting the only right element under a key gives that element. -/
theorem put_settles (keeps : store.Keeps s Right) {key : κ} {value : α} (right : Right key value)
    (unique : ∀ other, Right key other → other = value) :
    Settles s (store.put key value) (.ok value) := by
  intro d hd
  unfold StoreIn.put
  rw [runOn_bind, runOn_get]
  cases hl : (store.entries d).lookup key with
  | some present =>
    have : present = value := unique _ (keeps.stored d hd _ (mem_of_lookup hl))
    simp [hl, this, hd]
  | none =>
    simp only [hl]
    rw [runOn_bind, runOn_modify]
    exact ⟨rfl, keeps.put d key value hd right⟩

/-- The rule for stores: what is remembered is what would be made. -/
theorem remembered_settles (keeps : store.Keeps s Right) {key : κ}
    {make : InDirectory (Option α)} (hmake : Settled s make)
    (hright : ∀ value, Right key value ↔ make.result s = .ok (some value)) :
    Settles s (store.remembered key make) (make.result s) := by
  have unique : ∀ {value}, Right key value → ∀ other, Right key other → other = value := by
    intro value hv other ho
    rw [hright] at hv ho
    simpa using ho.symm.trans hv
  refine Settles.find keeps ?_ fun value hv => ?_
  · have hbind : make.result s = make.result s >>= Pure.pure := (bind_pure _).symm
    rw [hbind]
    refine Settles.bind hmake fun o ho => ?_
    cases o with
    | none => exact .pure none
    | some value =>
      have right := (hright value).mpr ho
      exact (put_settles keeps right (unique right)).bind_ok (.pure _)
  · rw [(hright value).mp hv]
    exact .pure _

end Stores

end ODataRequest.InDirectory
