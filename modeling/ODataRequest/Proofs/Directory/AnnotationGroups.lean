import ODataRequest.Proofs.CallHistory
import ODataRequest.Proofs.Directory.SchemaElements

/-!
# ODataRequest.Proofs.Directory.AnnotationGroups

The annotations that a schema declares. A group is found again by its target and its qualifier among
the groups of all schemas. If no two groups have the same ones, the aliases in their targets
replaced (`Source.TargetsApart`), a schema lists its own groups, each with its own annotations and
in the order of the declaration, as long as the target is a qualified name
(`schema_annotations`). A group whose target is the path of a property is left out
(`schema_annotations_property`).
-/

namespace ODataRequest

open InDirectory

variable {s : Source}

/-! ### Targets -/

namespace Source

/-- A target with its alias replaced: the target is a qualified name, or a path that starts with
one. Any other text stands for itself. -/
def actualTarget (s : Source) (target : String) : String :=
  match QualifiedName.ofString? target with
  | some name => (s.actualName name).text
  | none =>
    match Text.cutAt? '/' target.toList with
    | none => target
    | some (front, path) =>
      match QualifiedName.ofString? (String.ofList front) with
      | none => target
      | some name => (s.actualName name).text ++ "/" ++ String.ofList path

/-- No two groups of annotations, in whatever schemas, have the same target and qualifier. -/
def TargetsApart (s : Source) : Prop :=
  ((s.schemas.flatMap (·.annotations)).map fun g => (s.actualTarget g.target, g.qualifier)).Nodup

/-- A declared group of annotations under the name that its target is. -/
def annotationGroup (s : Source) (target : QualifiedName) (g : Csdl.AnnotationGroup) :
    AnnotationGroup :=
  { target := s.actualName target
    qualifier := g.qualifier
    annotations := g.annotations.map s.annotation }

/-- What a group is for is its target, with aliases replaced. -/
theorem targets_iff (names : s.WellNamed) {target : QualifiedName} {g : Csdl.AnnotationGroup} :
    s.targets target g = true ↔
      ∃ name, QualifiedName.ofString? g.target = some name ∧ s.actualName name = target := by
  unfold targets
  cases QualifiedName.ofString? g.target with
  | none => simp
  | some name => simp [names.realName_eq_actualName]

/-- Groups that are apart are found by their targets and qualifiers. -/
theorem annotations?_of_mem (names : s.WellNamed) (apart : s.TargetsApart)
    {declared : Csdl.Schema} (hs : declared ∈ s.schemas) {g : Csdl.AnnotationGroup}
    (hg : g ∈ declared.annotations) {target : QualifiedName}
    (htarget : QualifiedName.ofString? g.target = some target) :
    s.annotations? (s.actualName target) g.qualifier = some g := by
  have hmem : g ∈ s.schemas.flatMap (·.annotations) := List.mem_flatMap.mpr ⟨declared, hs, hg⟩
  have hown : (g.qualifier == g.qualifier && s.targets (s.actualName target) g) = true := by
    rw [beq_self_eq_true, Bool.true_and]
    exact (targets_iff names).mpr ⟨target, htarget, rfl⟩
  unfold annotations?
  cases hfind : (s.schemas.flatMap (·.annotations)).find? fun g' =>
      g'.qualifier == g.qualifier && s.targets (s.actualName target) g' with
  | none => exact absurd hown (List.find?_eq_none.mp hfind g hmem)
  | some g' =>
    have hg' := List.find?_some hfind
    simp only [Bool.and_eq_true, beq_iff_eq] at hg'
    obtain ⟨hqualifier, htargets⟩ := hg'
    obtain ⟨name, hname, hactual⟩ := (targets_iff names).mp htargets
    have hkey : (s.actualTarget g'.target, g'.qualifier) =
        (s.actualTarget g.target, g.qualifier) := by
      simp only [actualTarget, hname, htarget, hactual, hqualifier]
    exact congrArg some
      (List.inj_on_of_nodup_map apart (List.mem_of_find?_eq_some hfind) hmem hkey)

end Source

/-! ### Schemas -/

/-- A schema that is answered with lists its own groups of annotations, in the order of their
declaration and with all that is in them. It leaves out those whose targets are no qualified
names. -/
theorem schema_annotations (names : s.WellNamed) (apart : s.TargetsApart) {d : Directory}
    (reachable : d.Reachable s) {declared : Csdl.Schema} (hs : declared ∈ s.schemas)
    {space : Namespace} (hspace : space = declared.space ∨ declared.aliasSpace? = some space)
    {listed : Schema} (h : ((schema space).runOn d).1 = .ok (some listed)) :
    listed.annotations = declared.annotations.filterMap fun g =>
      (QualifiedName.ofString? g.target).map fun target => s.annotationGroup target g := by
  rw [(schema_settles names hs hspace d (reachable.consistent names)).1] at h
  obtain ⟨made, hmade, ⟨⟩⟩ := except_bind_eq_ok.mp h
  unfold resolvedSchema at hmade
  simp only [except_bind_eq_ok] at hmade
  obtain ⟨_, -, _, -, _, -, _, -, _, -, _, -, _, -, _, -, annotations, hannotations, ⟨⟩⟩ := hmade
  cases (annotationGroups_settles (namedTargets declared.annotations)).result_eq.symm.trans
    hannotations
  rw [namedTargets, List.filterMap_filterMap]
  refine List.filterMap_congr fun g hg => ?_
  cases htarget : QualifiedName.ofString? g.target with
  | none => rfl
  | some target =>
    have hfound := s.annotations?_of_mem names apart hs hg htarget
    show s.annotationGroup? (s.actualName target) g.qualifier = _
    rw [Source.annotationGroup?, hfound]
    rfl

section Garden

private def gardenSpace : Namespace := ⟨⟨"Garden", by decide⟩, []⟩
private def gardenAlias : Identifier := ⟨"G", by decide⟩
private def flower : Identifier := ⟨"Flower", by decide⟩
private def stem : Identifier := ⟨"Stem", by decide⟩
private def caption : Identifier := ⟨"Caption", by decide⟩

private def captioned (target text : String) : Csdl.AnnotationGroup :=
  { target, qualifier := none
    annotations := [⟨⟨⟨gardenAlias, []⟩, caption⟩, none, some text, none, none, none⟩] }

private def gardenSchema : Csdl.Schema :=
  { space := gardenSpace
    aliasName := some gardenAlias
    entityTypes := []
    complexTypes :=
      [{ name := flower, baseType := none, isAbstract := false, isOpen := false
         properties := [⟨stem, ⟨PrimitiveKind.string.qualifiedName, false⟩, false, none, none, none,
           none⟩]
         navigationProperties := [] }]
    enumTypes := []
    typeDefinitions := []
    actions := []
    functions := []
    terms := []
    container := none
    annotations := [captioned "Garden.Flower/Stem" "in metres", captioned "G.Flower" "grows"] }

/-- A model with captions for a type and for one of its properties. -/
def garden : Source :=
  { basicOnly := false, schemas := [gardenSchema] }

private theorem garden_wellNamed : garden.WellNamed := ⟨by decide, by decide⟩

private theorem garden_targetsApart : garden.TargetsApart := by
  show List.Nodup _
  decide +kernel

/-- How many groups an answer lists. -/
private def listedGroups? (answer : Except DirectoryError (Option Schema)) : Option Nat :=
  (answer.toOption.bind id).map fun listed => listed.annotations.length

private theorem exists_of_listedGroups? {answer : Except DirectoryError (Option Schema)} {n : Nat}
    (h : listedGroups? answer = some n) :
    ∃ listed, answer = .ok (some listed) ∧ listed.annotations.length = n := by
  obtain ⟨listed, hlisted, hlength⟩ := Option.map_eq_some_iff.mp h
  obtain ⟨found, hfound, rfl⟩ := Option.bind_eq_some_iff.mp hlisted
  exact ⟨listed, except_toOption_eq_some.mp hfound, hlength⟩

/-- The caption of the type is listed, with the aliases replaced in its target and in its term. -/
theorem schema_annotations_garden :
    let d := DirectoryCall.after [.annotationGroup ⟨gardenSpace, flower⟩ none]
      (Directory.ofSource garden)
    ∃ listed, ((schema ⟨gardenAlias, []⟩).runOn d).1 = .ok (some listed) ∧
      listed.annotations = [⟨⟨gardenSpace, flower⟩, none,
        [⟨⟨gardenSpace, caption⟩, none, .string "grows"⟩]⟩] := by
  intro d
  have reachable : d.Reachable garden := Directory.Reachable.fresh.after _
  have hgroups : listedGroups? ((schema ⟨gardenAlias, []⟩).runOn d).1 = some 1 := by
    decide +kernel
  obtain ⟨listed, hlisted, -⟩ := exists_of_listedGroups? hgroups
  refine ⟨listed, hlisted, ?_⟩
  rw [schema_annotations garden_wellNamed garden_targetsApart reachable List.mem_cons_self
    (Or.inr rfl) hlisted]
  rfl

/-- The caption of the property is declared in the schema, and its target is apart from the other
one, but the schema does not list it. -/
theorem schema_annotations_property :
    ¬∀ s : Source, s.WellNamed → s.TargetsApart → ∀ d : Directory, d.Reachable s →
        ∀ declared ∈ s.schemas, ∀ listed,
          ((schema declared.space).runOn d).1 = .ok (some listed) →
          List.Forall₂ (fun (g : Csdl.AnnotationGroup) (made : AnnotationGroup) =>
            made.qualifier = g.qualifier ∧ made.annotations = g.annotations.map s.annotation)
            declared.annotations listed.annotations := by
  intro h
  have hgroups : listedGroups? ((schema gardenSchema.space).runOn (Directory.ofSource garden)).1 =
      some 1 := by
    decide +kernel
  obtain ⟨listed, hlisted, hlength⟩ := exists_of_listedGroups? hgroups
  have heach := h garden garden_wellNamed garden_targetsApart _ .fresh gardenSchema
    List.mem_cons_self listed hlisted
  have htwo : gardenSchema.annotations.length = listed.annotations.length := heach.length_eq
  rw [hlength] at htwo
  cases htwo

end Garden

end ODataRequest
