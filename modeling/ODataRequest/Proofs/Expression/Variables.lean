import ODataRequest.Proofs.Expression.WellTyped

/-!
# ODataRequest.Proofs.Expression.Variables

The variables of quantifiers are lexically scoped. A variable occurs in an expression inside some
quantifiers (`Expression.HasVariable`), and it belongs to the innermost of them that has its name:
its type is the type of the members of the collection which that quantifier is applied to
(`Scope.Types`).

An expression is read in a scope, and a variable may also belong to the scope; this is what makes the
statement an induction. The body of a quantifier is read in a scope with one variable more, and when
the quantifier is closed that variable belongs to it (`Scope.types_of_bind`).
-/

namespace ODataRequest

/-- A quantifier around a place in an expression: its variable, and what it is applied to. -/
structure Enclosing where
  name : String
  collection : Option Resource

/-- The quantifier is applied to a collection whose members are of the type, as casts narrow it. -/
def Enclosing.HasMembers (q : Enclosing) (type : ModelType) : Prop :=
  ∃ collection, q.collection = some collection ∧ collection.isCollection = true ∧
    collection.type? = some type

/-- The variable occurs in the expression, alone or at the start of a path, inside the quantifiers
`enclosing`, the innermost one first. A quantifier is applied to what is in front of it. -/
inductive Expression.HasVariable (name : String) (type : ModelType) :
    List Enclosing → Expression → Prop
  | alone : HasVariable name type [] (.boundVariable name type)
  | start {start : Option ModelType} {path : List Resource}
      (h : .lambdaVariable name type ∈ path) : HasVariable name type [] (.member start path)
  | left {enclosing : List Enclosing} {op : BinaryOperator} {left right : Expression}
      {result : Option ModelType} (h : HasVariable name type enclosing left) :
      HasVariable name type enclosing (.binary op left right result)
  | right {enclosing : List Enclosing} {op : BinaryOperator} {left right : Expression}
      {result : Option ModelType} (h : HasVariable name type enclosing right) :
      HasVariable name type enclosing (.binary op left right result)
  | operand {enclosing : List Enclosing} {op : UnaryOperator} {operand : Expression}
      {result : Option ModelType} (h : HasVariable name type enclosing operand) :
      HasVariable name type enclosing (.unary op operand result)
  | argument {enclosing : List Enclosing} {m : Method} {arguments : List Expression}
      {argument : Expression} (hmem : argument ∈ arguments)
      (h : HasVariable name type enclosing argument) :
      HasVariable name type enclosing (.call m arguments)
  | item {enclosing : List Enclosing} {items : List Expression} {item : Expression}
      (hmem : item ∈ items) (h : HasVariable name type enclosing item) :
      HasVariable name type enclosing (.list items)
  | body {enclosing : List Enclosing} {start : Option ModelType} {before behind : List Resource}
      {quantifier : Quantifier} {variableName : String} {body : Expression}
      (h : HasVariable name type enclosing body) :
      HasVariable name type (enclosing ++ [⟨variableName, before.getLast?⟩])
        (.member start (before ++ .lambda quantifier variableName body :: behind))

/-! ### The variables of an expression -/

/-- The variable that a resource stands for. -/
def Resource.lambdaVariable? : Resource → Option (String × ModelType)
  | .lambdaVariable name type => some (name, type)
  | _ => none

/-- The variables that the nodes of an expression stand for or start with. -/
def Expression.lambdaVariables (e : Expression) : List (String × ModelType) :=
  e.nodes.flatMap fun
    | .boundVariable name type => [(name, type)]
    | .member _ path => path.filterMap Resource.lambdaVariable?
    | _ => []

section Occurrences

variable {name : String} {type : ModelType} {enclosing : List Enclosing} {n : Expression}

theorem Resource.lambdaVariable?_eq_some {r : Resource} :
    r.lambdaVariable? = some (name, type) ↔ r = .lambdaVariable name type := by
  cases r <;> simp [lambdaVariable?]

open Expression in
/-- What occurs in a node of an expression occurs in the expression. -/
theorem exists_hasVariable_of_mem_nodes {e : Expression} (hn : n ∈ e.nodes)
    (h : n.HasVariable name type enclosing) :
    ∃ around, e.HasVariable name type (enclosing ++ around) := by
  match e with
  | .binary op left right result =>
    rw [nodes_binary, List.mem_cons, List.mem_append] at hn
    obtain rfl | hleft | hright := hn
    · exact ⟨[], by simpa using h⟩
    · obtain ⟨around, h⟩ := exists_hasVariable_of_mem_nodes hleft h
      exact ⟨around, .left h⟩
    · obtain ⟨around, h⟩ := exists_hasVariable_of_mem_nodes hright h
      exact ⟨around, .right h⟩
  | .unary op operand result =>
    rw [nodes_unary, List.mem_cons] at hn
    obtain rfl | hoperand := hn
    · exact ⟨[], by simpa using h⟩
    · obtain ⟨around, h⟩ := exists_hasVariable_of_mem_nodes hoperand h
      exact ⟨around, .operand h⟩
  | .call m arguments =>
    rw [nodes_call, List.mem_cons, mem_itemNodes] at hn
    obtain rfl | ⟨argument, hmem, hargument⟩ := hn
    · exact ⟨[], by simpa using h⟩
    · obtain ⟨around, h⟩ := exists_hasVariable_of_mem_nodes hargument h
      exact ⟨around, .argument hmem h⟩
  | .list items =>
    rw [nodes_list, List.mem_cons, mem_itemNodes] at hn
    obtain rfl | ⟨item, hmem, hitem⟩ := hn
    · exact ⟨[], by simpa using h⟩
    · obtain ⟨around, h⟩ := exists_hasVariable_of_mem_nodes hitem h
      exact ⟨around, .item hmem h⟩
  | .member start path =>
    rw [nodes_member, List.mem_cons, mem_pathNodes] at hn
    obtain rfl | ⟨quantifier, variableName, body, hmem, hbody⟩ := hn
    · exact ⟨[], by simpa using h⟩
    · have hsmaller : sizeOf body < sizeOf path := by
        have hstep := List.sizeOf_lt_of_mem hmem
        rw [Resource.lambda.sizeOf_spec] at hstep
        omega
      obtain ⟨around, h⟩ := exists_hasVariable_of_mem_nodes hbody h
      obtain ⟨before, behind, rfl⟩ := List.append_of_mem hmem
      refine ⟨around ++ [⟨variableName, before.getLast?⟩], ?_⟩
      rw [← List.append_assoc]
      exact .body h
  | .literal _ _ | .parameterAlias _ | .typeName _ | .enumeration _ _ | .boundVariable _ _ =>
    rw [List.mem_singleton.mp hn] at h
    exact ⟨[], by simpa using h⟩
termination_by sizeOf e

open Expression in
theorem hasVariable_of_mem_lambdaVariables {e : Expression} (h : (name, type) ∈ e.lambdaVariables) :
    ∃ enclosing, e.HasVariable name type enclosing := by
  obtain ⟨n, hn, h⟩ := List.mem_flatMap.mp h
  suffices hnode : n.HasVariable name type [] from exists_hasVariable_of_mem_nodes hn hnode
  split at h
  · cases List.mem_singleton.mp h
    exact .alone
  · obtain ⟨r, hr, hvariable⟩ := List.mem_filterMap.mp h
    exact .start (Resource.lambdaVariable?_eq_some.mp hvariable ▸ hr)
  · cases h

open Expression in
theorem mem_lambdaVariables_of_hasVariable {e : Expression}
    (h : e.HasVariable name type enclosing) : (name, type) ∈ e.lambdaVariables := by
  -- the node that a variable occurs in is one of the nodes of everything around it
  have lift {part whole : Expression} (hpart : (name, type) ∈ part.lambdaVariables)
      (hnodes : ∀ n ∈ part.nodes, n ∈ whole.nodes) : (name, type) ∈ whole.lambdaVariables := by
    obtain ⟨n, hn, hvariable⟩ := List.mem_flatMap.mp hpart
    exact List.mem_flatMap.mpr ⟨n, hnodes n hn, hvariable⟩
  induction h with
  | alone => exact List.mem_cons_self
  | start h =>
    have hmem := List.mem_filterMap.mpr ⟨_, h, Resource.lambdaVariable?_eq_some.mpr rfl⟩
    exact List.mem_flatMap.mpr ⟨_, List.mem_cons_self, hmem⟩
  | left _ ih => exact lift ih fun n hn => List.mem_cons_of_mem _ (List.mem_append_left _ hn)
  | right _ ih => exact lift ih fun n hn => List.mem_cons_of_mem _ (List.mem_append_right _ hn)
  | operand _ ih => exact lift ih fun n hn => List.mem_cons_of_mem _ hn
  | argument hmem _ ih => exact lift ih fun n hn => List.mem_cons_of_mem _ (mem_itemNodes.mpr ⟨_, hmem, hn⟩)
  | item hmem _ ih => exact lift ih fun n hn => List.mem_cons_of_mem _ (mem_itemNodes.mpr ⟨_, hmem, hn⟩)
  | body _ ih =>
    exact lift ih fun n hn => List.mem_cons_of_mem _
      (mem_pathNodes.mpr ⟨_, _, _, List.mem_append_right _ List.mem_cons_self, hn⟩)

/-- The variables of an expression are those that occur in it somewhere. -/
theorem Expression.mem_lambdaVariables_iff {e : Expression} :
    (name, type) ∈ e.lambdaVariables ↔ ∃ enclosing, e.HasVariable name type enclosing :=
  ⟨hasVariable_of_mem_lambdaVariables, fun ⟨_, h⟩ => mem_lambdaVariables_of_hasVariable h⟩

end Occurrences

/-! ### Scopes -/

/-- What the type of a variable is inside some quantifiers in a scope: the innermost one that has the
name decides, and the scope if there is none. -/
def Scope.Types (scope : Scope) (enclosing : List Enclosing) (name : String) (type : ModelType) :
    Prop :=
  match enclosing.find? (·.name == name) with
  | some innermost => innermost.HasMembers type
  | none => scope.boundType? name = some type

/-- When a quantifier is closed, its variable leaves the scope and belongs to the quantifier. -/
theorem Scope.types_of_bind {scope : Scope} {enclosing : List Enclosing} {name : String}
    {type member : ModelType} {q : Enclosing} (members : q.HasMembers member)
    (h : (scope.bind q.name member).Types enclosing name type) :
    scope.Types (enclosing ++ [q]) name type := by
  unfold Types at h ⊢
  rw [List.find?_append]
  cases hfind : enclosing.find? (·.name == name) with
  | some innermost =>
    rw [hfind] at h
    exact h
  | none =>
    rw [hfind] at h
    by_cases hname : q.name = name
    · have htype : member = type := by
        simpa [boundType?, bind, List.lookup_cons, hname] using h
      simpa [hname, htype] using members
    · have hne : (name == q.name) = false := beq_eq_false_iff_ne.mpr (Ne.symm hname)
      simpa [boundType?, bind, List.lookup_cons, hname, hne] using h

/-- Every variable in the expression has the type that the quantifiers around it and the scope say. -/
def Expression.VariablesTyped (scope : Scope) (e : Expression) : Prop :=
  ∀ enclosing name type, e.HasVariable name type enclosing → scope.Types enclosing name type

/-! ### Paths -/

/-- What a path has led to, the last resource first: a variable at its start belongs to the scope, and
the variables in a condition have their types inside its quantifier. -/
inductive StepsTyped (scope : Scope) : List Resource → Prop
  | origin : StepsTyped scope []
  | plain {r : Resource} {earlier : List Resource}
      (noVariable : ∀ name type, r ≠ .lambdaVariable name type)
      (noQuantifier : ∀ quantifier name body, r ≠ .lambda quantifier name body)
      (before : StepsTyped scope earlier) : StepsTyped scope (r :: earlier)
  | lambdaVariable {name : String} {type : ModelType} {earlier : List Resource}
      (bound : scope.boundType? name = some type) (before : StepsTyped scope earlier) :
      StepsTyped scope (.lambdaVariable name type :: earlier)
  | lambda {quantifier : Quantifier} {variableName : String} {body : Expression}
      {earlier : List Resource}
      (inside : ∀ enclosing name type, body.HasVariable name type enclosing →
        scope.Types (enclosing ++ [⟨variableName, earlier.head?⟩]) name type)
      (before : StepsTyped scope earlier) :
      StepsTyped scope (.lambda quantifier variableName body :: earlier)

namespace StepsTyped

variable {scope : Scope} {r : Resource} {later earlier steps : List Resource}

theorem before (h : StepsTyped scope (r :: earlier)) : StepsTyped scope earlier := by
  cases h with
  | plain _ _ before => exact before
  | lambdaVariable _ before => exact before
  | lambda _ before => exact before

theorem suffix (h : StepsTyped scope (later ++ earlier)) : StepsTyped scope earlier := by
  induction later with
  | nil => exact h
  | cons r later ih => exact ih h.before

theorem plain_of_ofExpression (h : StepsTyped scope earlier) (plain : r.ofExpression = false) :
    StepsTyped scope (r :: earlier) := by
  refine .plain ?_ ?_ h
  · rintro name type rfl
    cases plain
  · rintro quantifier name body rfl
    cases plain

/-- A step of a path keeps the variables typed: a cast changes no variable and no quantifier, and the
condition of a quantifier has been read in a scope with its variable. -/
theorem step {answers : Answers} {steps' : List Resource} (h : StepsTyped scope steps)
    (effect : StepEffect answers Expression.VariablesTyped scope steps steps') :
    StepsTyped scope steps' := by
  cases effect with
  | kept => exact h
  | narrowed last plain =>
    subst last
    exact h.before.plain_of_ofExpression plain
  | resource plain => exact h.plain_of_ofExpression plain
  | it | notEmpty => exact .plain nofun nofun h
  | lambdaVariable bound => exact .lambdaVariable bound h
  | lambda last isCollection isMember inside =>
    subst last
    refine .lambda (fun enclosing name type hvariable => ?_) h
    exact Scope.types_of_bind ⟨_, rfl, isCollection, isMember⟩ (inside enclosing name type hvariable)

/-- The variables of a path are typed if those of its steps are. -/
theorem variablesTyped {start : Option ModelType} (h : StepsTyped scope steps) :
    (Expression.member start steps.reverse).VariablesTyped scope := by
  intro enclosing name type hvariable
  generalize hpath : steps.reverse = path at hvariable
  cases hvariable with
  | start hmem =>
    obtain ⟨later, earlier, rfl⟩ := List.append_of_mem (List.mem_reverse.mp (hpath ▸ hmem))
    cases h.suffix with
    | plain noVariable => exact absurd rfl (noVariable name type)
    | lambdaVariable bound => exact bound
  | @body enclosing _ before behind quantifier variableName body hvariable =>
    have hsteps : steps = behind.reverse ++ .lambda quantifier variableName body :: before.reverse := by
      rw [← List.reverse_reverse steps, hpath]
      simp
    subst hsteps
    cases h.suffix with
    | plain _ noQuantifier => exact absurd rfl (noQuantifier quantifier variableName body)
    | lambda inside =>
      rw [← List.head?_reverse]
      exact inside enclosing name type hvariable

end StepsTyped

/-! ### Expressions -/

namespace Expression

variable {answers : Answers} {scope : Scope} {source : String} {ts rest : List Token}
variable {e : Expression}

/-- Each way to make an accepted expression keeps its variables typed. -/
theorem variablesTyped_rule : ReadingRule answers (fun _ => True) VariablesTyped where
  literal scope text _ := by
    intro enclosing name type hvariable
    cases hvariable
  enumeration scope type members := by
    intro enclosing name type hvariable
    cases hvariable
  parameterAlias scope aliasName := by
    intro enclosing name type hvariable
    cases hvariable
  typeName scope type := by
    intro enclosing name type hvariable
    cases hvariable
  boundVariable scope name type bound := by
    intro enclosing name' type' hvariable
    cases hvariable with
    | alone => exact bound
  unary scope op operand result _ hoperand := by
    intro enclosing name type hvariable
    cases hvariable with
    | operand hvariable => exact hoperand enclosing name type hvariable
  call scope m arguments _ harguments := by
    intro enclosing name type hvariable
    cases hvariable with
    | argument hmem hvariable => exact harguments _ hmem enclosing name type hvariable
  list scope items hitems := by
    intro enclosing name type hvariable
    cases hvariable with
    | item hmem hvariable => exact hitems _ hmem enclosing name type hvariable
  binary scope op left right result _ hleft hright _ := by
    intro enclosing name type hvariable
    cases hvariable with
    | left hvariable => exact hleft enclosing name type hvariable
    | right hvariable => exact hright enclosing name type hvariable
  member scope p h := by
    have hsteps : StepsTyped scope p.steps :=
      h.rule (fun p => StepsTyped scope p.steps) (fun _ _ hp hstep => hp.step hstep.effect) .origin
    exact hsteps.variablesTyped

/-- Where no quantifier is open, a variable stands inside one that has its name, and the innermost of
these is applied to a collection with members of the type of the variable. -/
theorem exists_collection_of_hasVariable {config : Config} {enclosing : List Enclosing}
    {name : String} {type : ModelType} (hscope : scope.bound = [])
    (h : TokenReader.Reads answers (expression config scope) source ts e rest)
    (hvariable : e.HasVariable name type enclosing) :
    ∃ collection, enclosing.find? (·.name == name) = some ⟨name, some collection⟩ ∧
      collection.isCollection = true ∧ collection.type? = some type := by
  have htypes : scope.Types enclosing name type :=
    variablesTyped_rule.expression h enclosing name type hvariable
  unfold Scope.Types at htypes
  split at htypes
  · next innermost hfind =>
    obtain ⟨collection, hcollection, members⟩ := htypes
    have hname : innermost.name = name := by simpa using List.find?_some hfind
    refine ⟨collection, ?_, members⟩
    rw [hfind, ← hname, ← hcollection]
  · simp [Scope.boundType?, hscope] at htypes

end Expression

end ODataRequest
