import ODataRequest.Directory.Elements
import ODataRequest.Proofs.Directory.Types

/-!
# ODataRequest.Proofs.Directory.Elements

The look-ups of terms, annotations and containers are settled. The default container is the one case
where two keys lead to one element: what it was found as the first time is also what its name gives
(`Source.container?_default`), so it does not matter which of the two a directory was asked for
before.
-/

namespace ODataRequest

open InDirectory

variable {s : Source}

/-! ### Terms and annotations -/

theorem resolveTerm_settled (name : QualifiedName) (t : Csdl.Term) :
    Settled s (resolveTerm name t) := by
  refine (resolveReference_settles t.type).bind_settled ?_
  refine Settled.bind (.optionMapM fun base _ => (resolveAlias_settles base).settled) fun _ _ => ?_
  exact .pure _

theorem loadTerm_settled (name : QualifiedName) : Settled s (loadTerm name) :=
  (askSource_settles (.term name)).bind_settled (.optionMapM fun t _ => resolveTerm_settled name t)

theorem term_settled (name : QualifiedName) : Settled s (term name) :=
  (resolveAlias_settles name).bind_settled
    (remembered_load_settled (termStore_keeps s) (loadTerm_settled _))

/-- A declared annotation with its alias replaced. -/
def Source.annotation (s : Source) (a : Csdl.Annotation) : Annotation :=
  { term := s.actualName a.term, qualifier := a.qualifier, value := AnnotationValue.ofDeclared a }

theorem resolveAnnotation_settles (a : Csdl.Annotation) :
    Settles s ( resolveAnnotation a) (.ok (s.annotation a)) :=
  (resolveAlias_settles a.term).bind_ok (.pure _)

/-- The annotations of a real target under a qualifier, with their aliases replaced. -/
def Source.annotationGroup? (s : Source) (target : QualifiedName) (qualifier : Option String) :
    Option AnnotationGroup :=
  (s.annotations? target qualifier).map fun g =>
    { target, qualifier, annotations := g.annotations.map s.annotation }

theorem loadAnnotations_settles (target : QualifiedName) (qualifier : Option String) :
    Settles s (loadAnnotations target qualifier) (.ok (s.annotationGroup? target qualifier)) := by
  refine (askSource_settles (.annotations target qualifier)).bind_ok ?_
  refine Settles.optionMapM fun g _ => ?_
  exact (Settles.mapM fun a _ => resolveAnnotation_settles a).bind_ok (.pure _)

theorem annotationGroup_settles (target : QualifiedName) (qualifier : Option String) :
    Settles s (annotationGroup target qualifier)
      (.ok (s.annotationGroup? (s.actualName target) qualifier)) := by
  refine (resolveAlias_settles target).bind_ok ?_
  have hload := loadAnnotations_settles (s := s) (s.actualName target) qualifier
  rw [← hload.result_eq]
  exact remembered_settles (annotationStore_keeps s) hload.settled fun _ => Iff.rfl

theorem annotationGroup_settled (target : QualifiedName) (qualifier : Option String) :
    Settled s (annotationGroup target qualifier) :=
  (annotationGroup_settles target qualifier).settled

/-! ### Containers -/

namespace Source

/-- The container that is the default one is also found under its name, which has no alias. -/
theorem container?_default (names : s.WellNamed) {name : QualifiedName} {c : Csdl.Container}
    (h : s.container? none = some (name, c)) :
    s.container? (some name) = some (name, c) ∧ s.actualName name = name := by
  obtain ⟨schema, hschema, hfound⟩ := List.exists_of_findSome?_eq_some h
  obtain ⟨c', hc', hpair⟩ := Option.map_eq_some_iff.mp hfound
  cases hpair
  refine ⟨?_, names.actualName_of_mem hschema c.name⟩
  have hof : containerOf? schema = some (⟨schema.space, c.name⟩, c) := hfound
  simp [container?, names.schema?_eq_some hschema, hof]

end Source

/-- A declared container with its aliases replaced. -/
def Source.containerAs (s : Source) (name : QualifiedName) (c : Csdl.Container) : Container :=
  { name
    entitySets := c.entitySets.map fun e =>
      { e with entityType := s.actualName e.entityType, container := name }
    singletons := c.singletons.map fun e =>
      { e with entityType := s.actualName e.entityType, container := name }
    actionImports := c.actionImports.map fun i => { i with action := s.actualName i.action }
    functionImports := c.functionImports.map fun i => { i with function := s.actualName i.function } }

theorem resolveContainer_settles (name : QualifiedName) (c : Csdl.Container) :
    Settles s (resolveContainer name c) (.ok (s.containerAs name c)) := by
  have hset (e : Csdl.EntitySet) : Settles s (do
      return ({ e with entityType := ← resolveAlias e.entityType, container := name } : EntitySet))
      (.ok { e with entityType := s.actualName e.entityType, container := name }) :=
    (resolveAlias_settles e.entityType).bind_ok (.pure _)
  have hsingleton (e : Csdl.Singleton) : Settles s (do
      return ({ e with entityType := ← resolveAlias e.entityType, container := name } : Singleton))
      (.ok { e with entityType := s.actualName e.entityType, container := name }) :=
    (resolveAlias_settles e.entityType).bind_ok (.pure _)
  have haction (i : Csdl.ActionImport) : Settles s (do
      return { i with action := ← resolveAlias i.action })
      (.ok { i with action := s.actualName i.action }) :=
    (resolveAlias_settles i.action).bind_ok (.pure _)
  have hfunction (i : Csdl.FunctionImport) : Settles s (do
      return { i with function := ← resolveAlias i.function })
      (.ok { i with function := s.actualName i.function }) :=
    (resolveAlias_settles i.function).bind_ok (.pure _)
  refine (Settles.mapM fun e _ => hset e).bind_ok ?_
  refine (Settles.mapM fun e _ => hsingleton e).bind_ok ?_
  refine (Settles.mapM fun i _ => haction i).bind_ok ?_
  exact (Settles.mapM fun i _ => hfunction i).bind_ok (.pure _)

theorem resolveContainer_settled (name : QualifiedName) (c : Csdl.Container) :
    Settled s (resolveContainer name c) :=
  (resolveContainer_settles name c).settled

/-- The container that the source gives for a name, resolved. -/
def resolvedContainer (s : Source) (name : Option QualifiedName) :
    Except DirectoryError (Option Container) :=
  match s.container? name with
  | none => .ok none
  | some (found, c) => do return some (← (resolveContainer found c).result s)

theorem loadContainer_settles (name : QualifiedName) :
    Settles s (loadContainer name) (resolvedContainer s (some name)) := by
  refine (askSource_settles (.container (some name))).bind_ok ?_
  unfold resolvedContainer
  rw [show s.answer (.container (some name)) = s.container? (some name) from rfl]
  rcases s.container? (some name) with _ | ⟨found, c⟩
  · exact .pure none
  · exact Settles.bind (resolveContainer_settled found c) fun made _ => .pure (some made)

theorem containerNamed_settles (name : QualifiedName) :
    Settles s (containerNamed name) (resolvedContainer s (some (s.actualName name))) := by
  refine (resolveAlias_settles name).bind_ok ?_
  have hload := loadContainer_settles (s := s) (s.actualName name)
  rw [← hload.result_eq]
  exact remembered_settles (containerStore_keeps s) hload.settled fun _ => Iff.rfl

theorem container_some_settles (name : QualifiedName) :
    Settles s (container (some name)) (resolvedContainer s (some (s.actualName name))) :=
  Settles.readDirectory fun _ _ => containerNamed_settles name

/-- The default container is remembered by its name, and means the same then. -/
theorem container_none_settles (names : s.WellNamed) :
    Settles s (container none) (resolvedContainer s none) := by
  refine Settles.readDirectory fun d hd => ?_
  cases hdefault : d.defaultContainer with
  | some name =>
    obtain ⟨c, hc⟩ := hd.defaultContainer name hdefault
    obtain ⟨hnamed, hname⟩ := Source.container?_default names hc
    have hsame : resolvedContainer s none = resolvedContainer s (some (s.actualName name)) := by
      unfold resolvedContainer
      rw [hname, hnamed, hc]
    rw [hsame]
    exact containerNamed_settles name
  | none =>
    refine (askSource_settles (.container none)).bind_ok ?_
    rw [show s.answer (.container none) = s.container? none from rfl]
    rcases hc : s.container? none with _ | ⟨found, c⟩
    · simp only [resolvedContainer, hc]
      exact .pure none
    · obtain ⟨hnamed, hname⟩ := Source.container?_default names hc
      have hsome : resolvedContainer s none = do
          return some (← (resolveContainer found c).result s) := by
        simp only [resolvedContainer, hc]
      rw [hsome]
      have halias := resolveAlias_settles (s := s) found
      rw [hname] at halias
      refine halias.bind_ok (Settles.bind (resolveContainer_settled found c) fun made hmade => ?_)
      have right : (loadContainer found).result s = .ok (some made) := by
        rw [(loadContainer_settles found).result_eq]
        simp [resolvedContainer, hnamed, hmade]
      have known : ∀ d : Directory, d.Consistent s →
          ({ d with defaultContainer := some found } : Directory).Consistent s := fun d hd =>
        { hd with defaultContainer := fun name hname => ⟨c, by rw [← Option.some.inj hname, hc]⟩ }
      refine (put_settles (containerStore_keeps s) right fun other hother => ?_).bind_ok ?_
      · simpa using hother.symm.trans right
      · exact (Settles.modify known).bind_ok (.pure _)

theorem container_settled (names : s.WellNamed) (name : Option QualifiedName) :
    Settled s (container name) := by
  cases name with
  | none => exact (container_none_settles names).settled
  | some name => exact (container_some_settles name).settled

end ODataRequest
