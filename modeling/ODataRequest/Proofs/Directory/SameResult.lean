import ODataRequest.Proofs.Directory.Settled

/-!
# ODataRequest.Proofs.Directory.SameResult

Computations that come to the same on the directories of two sources, whatever these have resolved
before. The relation has a rule for each way to put computations together, so that two computations
of the same shape are compared part by part; only their requests are compared by what the sources
answer (`SameResult.bind_settles`).
-/

namespace ODataRequest.InDirectory

variable {α β γ : Type} {s s' : Source}

/-- The computations settle to the same result, one for each source. -/
def SameResult (s s' : Source) (x x' : InDirectory α) : Prop :=
  ∃ r, Settles s x r ∧ Settles s' x' r

namespace SameResult

variable {x x' : InDirectory α}

theorem settled (h : SameResult s s' x x') : Settled s x ∧ Settled s' x' := by
  obtain ⟨r, hx, hx'⟩ := h
  exact ⟨hx.settled, hx'.settled⟩

theorem result_eq (h : SameResult s s' x x') : x.result s = x'.result s' := by
  obtain ⟨r, hx, hx'⟩ := h
  exact hx.result_eq.trans hx'.result_eq.symm

/-- The result is the same on any two directories of the sources. -/
theorem runOn_eq (h : SameResult s s' x x') {d d' : Directory} (hd : d.Consistent s)
    (hd' : d'.Consistent s') : (x.runOn d).1 = (x'.runOn d').1 := by
  obtain ⟨r, hx, hx'⟩ := h
  exact (hx d hd).1.trans (hx' d' hd').1.symm

theorem of_settles {r r' : Except DirectoryError α} (hx : Settles s x r) (hx' : Settles s' x' r')
    (h : r = r') : SameResult s s' x x' :=
  ⟨r, hx, h ▸ hx'⟩

theorem of_settled (hx : Settled s x) (hx' : Settled s' x') (h : x.result s = x'.result s') :
    SameResult s s' x x' :=
  of_settles hx hx' h

/-! ### Rules -/

theorem pure (a : α) : SameResult s s' (pure a) (pure a) :=
  ⟨_, .pure a, .pure a⟩

theorem throw (e : DirectoryError) : SameResult s s' (throw e : InDirectory α) (throw e) :=
  ⟨_, .throw e, .throw e⟩

theorem bind {f f' : α → InDirectory β} (hx : SameResult s s' x x')
    (hf : ∀ a, SameResult s s' (f a) (f' a)) : SameResult s s' (x >>= f) (x' >>= f') := by
  obtain ⟨r, hx, hx'⟩ := hx
  cases r with
  | error e =>
    exact ⟨.error e, hx.bind (g := fun _ => .error e) nofun, hx'.bind (g := fun _ => .error e) nofun⟩
  | ok a =>
    obtain ⟨r, hfa, hfa'⟩ := hf a
    exact ⟨r, hx.bind_ok hfa, hx'.bind_ok hfa'⟩

/-- The values of the first computations may differ if the second ones make up for it. -/
theorem bind_settles {y : InDirectory α} {y' : InDirectory γ} {f : α → InDirectory β}
    {f' : γ → InDirectory β} {a : α} {a' : γ} (hy : Settles s y (.ok a))
    (hy' : Settles s' y' (.ok a')) (hf : SameResult s s' (f a) (f' a')) :
    SameResult s s' (y >>= f) (y' >>= f') := by
  obtain ⟨r, hfa, hfa'⟩ := hf
  exact ⟨r, hy.bind_ok hfa, hy'.bind_ok hfa'⟩

theorem inContext (context : DirectoryError → DirectoryError) (h : SameResult s s' x x') :
    SameResult s s' (inContext context x) (inContext context x') := by
  obtain ⟨r, hx, hx'⟩ := h
  exact ⟨_, hx.inContext context, hx'.inContext context⟩

/-- Traversals of a list and of its image. -/
theorem mapM_map {f : α → InDirectory β} {f' : γ → InDirectory β} {g : α → γ}
    (hf : ∀ a, SameResult s s' (f a) (f' (g a))) (as : List α) :
    SameResult s s' (as.mapM f) ((as.map g).mapM f') := by
  induction as with
  | nil => exact pure []
  | cons a as ih =>
    rw [List.map_cons, List.mapM_cons, List.mapM_cons]
    exact (hf a).bind fun b => ih.bind fun bs => pure (b :: bs)

theorem mapM {f f' : γ → InDirectory β} (hf : ∀ a, SameResult s s' (f a) (f' a)) (as : List γ) :
    SameResult s s' (as.mapM f) (as.mapM f') := by
  have h := mapM_map (g := id) hf as
  rwa [List.map_id] at h

theorem optionMapM_map {f : α → InDirectory β} {f' : γ → InDirectory β} {g : α → γ}
    (hf : ∀ a, SameResult s s' (f a) (f' (g a))) (o : Option α) :
    SameResult s s' (o.mapM f) ((o.map g).mapM f') := by
  cases o with
  | none => exact pure none
  | some a => exact (hf a).bind fun b => pure (some b)

/-- What is remembered is the same if what would be made is. -/
theorem remembered {κ : Type} [DecidableEq κ] {store : StoreIn κ α} {Right Right' : κ → α → Prop}
    {key : κ} {make make' : InDirectory (Option α)} (keeps : store.Keeps s Right)
    (keeps' : store.Keeps s' Right')
    (hright : ∀ value, Right key value ↔ make.result s = .ok (some value))
    (hright' : ∀ value, Right' key value ↔ make'.result s' = .ok (some value))
    (h : SameResult s s' make make') :
    SameResult s s' (store.remembered key make) (store.remembered key make') :=
  of_settles (remembered_settles keeps h.settled.1 hright)
    (remembered_settles keeps' h.settled.2 hright') h.result_eq

end SameResult

end ODataRequest.InDirectory
