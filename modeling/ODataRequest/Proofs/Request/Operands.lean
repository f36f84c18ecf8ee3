import ODataRequest.Proofs.Request.ExpandTree
import ODataRequest.Proofs.Request.WellTyped

/-!
# ODataRequest.Proofs.Request.Operands

What the operators in an accepted filter are applied to. The type of a path is that of one value, also
where the path leads to a collection, and an operator sees nothing but the types of its operands. So it
takes a collection if it takes a member of it in that place (`Request.read_operands`), and a filter does
apply operators to collections (`Request.read_operands_tags`). Collections of entities or of complex
values are compared at most (`Expression.TakesMembers.compares`).
-/

namespace ODataRequest

open SystemOption

variable {answers : Answers} {config : Config}

namespace Expression

/-! ### Parts -/

/-- What an operator is applied to. -/
def operands : Expression → List Expression
  | .binary _ left right _ => [left, right]
  | .unary _ operand _ => [operand]
  | _ => []

theorem mem_nodes_of_operands {e n operand : Expression} (hn : n ∈ e.nodes)
    (h : operand ∈ n.operands) : operand ∈ e.nodes := by
  refine mem_nodes_trans hn ?_
  cases n with
  | binary op left right result =>
    simp only [operands, List.mem_cons, List.not_mem_nil, or_false] at h
    rw [nodes_binary]
    obtain rfl | rfl := h
    · exact List.mem_cons_of_mem _ (List.mem_append_left _ (mem_nodes_self _))
    · exact List.mem_cons_of_mem _ (List.mem_append_right _ (mem_nodes_self _))
  | unary op operand result =>
    obtain rfl := List.mem_singleton.mp h
    exact List.mem_cons_of_mem _ (mem_nodes_self _)
  | _ => cases h

/-! ### Collections -/

/-- Is the expression a path to a collection? -/
def isCollection : Expression → Bool
  | .member _ path => path.getLast?.any Resource.isCollection
  | _ => false

/-- If the expression is a path to a collection, the type of the members has the property. -/
def MembersAre (P : ModelType → Prop) (e : Expression) : Prop :=
  e.isCollection = true → ∃ member, e.type? = some member ∧ P member

/-- Where an operator is applied to a collection, it takes members of it. -/
def TakesMembers : Expression → Prop
  | .unary op operand _ => operand.MembersAre fun member => op.fits member = true
  | .binary op left right _ =>
    left.MembersAre (fun member => (op.fittingType? (some member) right.type?).isSome = true) ∧
      right.MembersAre fun member => (op.fittingType? left.type? (some member)).isSome = true
  | _ => True

theorem MembersAre.of_type {P : ModelType → Prop} {e : Expression}
    (known : e.MembersAre fun _ => True) (h : ∀ member, e.type? = some member → P member) :
    e.MembersAre P := by
  intro hcollection
  obtain ⟨member, htype, -⟩ := known hcollection
  exact ⟨member, htype, h member htype⟩

/-- A collection has a type that its members are of. Only actions may have none, and there is no action
in a path of an expression. -/
theorem membersAre_of_members {joined : List String} {it : Option ModelType} {e : Expression}
    (h : e.Members (MemberShape joined it)) : e.MembersAre fun _ => True := by
  intro hcollection
  cases e with
  | member start path =>
    obtain ⟨last, hlast, hlastCollection⟩ := (Option.any_eq_true _ _).mp hcollection
    obtain ⟨before, rfl⟩ := List.getLast?_eq_some_iff.mp hlast
    have hshape := (h start _ (mem_nodes_self _)).steps before last [] rfl
    have htype : (Expression.member start (before ++ [last])).type? = last.type? := by
      simp [type?]
    rw [htype]
    cases last with
    | entitySet | navigation | property | function => exact ⟨_, rfl, trivial⟩
    | action => exact hshape.elim
    | _ => cases hlastCollection
  | _ => cases hcollection

/-- An expression that fits takes members of the collections it is applied to. -/
theorem Fits.takesMembers {n : Expression} (h : n.Fits)
    (known : ∀ operand ∈ n.operands, operand.MembersAre fun _ => True) : n.TakesMembers := by
  cases n with
  | unary op operand result =>
    refine (known operand List.mem_cons_self).of_type fun member hmember => ?_
    have hresult : op.resultType operand.type? = .ok result := h
    rw [hmember] at hresult
    by_contra hfits
    cases op <;> simp [UnaryOperator.resultType, hfits] at hresult
  | binary op left right result =>
    have hfits : (op.fittingType? left.type? right.type?).isSome = true := by
      have hresult := h.1
      unfold BinaryOperator.resultType at hresult
      split at hresult
      · next hfitting => exact Option.isSome_of_eq_some hfitting
      · cases hresult
    constructor
    · refine (known left List.mem_cons_self).of_type fun member hmember => ?_
      rwa [hmember] at hfits
    · refine (known right (List.mem_cons_of_mem _ List.mem_cons_self)).of_type fun member hmember => ?_
      rwa [hmember] at hfits
  | _ => trivial

/-- Operators that may be applied to collections of entities or of complex values. -/
def comparesStructures : BinaryOperator → Bool
  | .eq | .ne | .gt | .ge | .lt | .le | .isIn | .has => true
  | _ => false

/-- Logic and arithmetic take primitive values. -/
theorem isSome_primitive?_of_fitting {op : BinaryOperator} {left right : Option ModelType}
    {operand : ModelType} (hop : comparesStructures op = false)
    (h : (op.fittingType? left right).isSome = true)
    (hoperand : left = some operand ∨ right = some operand) : operand.primitive?.isSome = true := by
  have hboolean : ∀ {type : ModelType}, type.isBoolean = true → type.primitive?.isSome = true := by
    intro type htype
    exact Option.isSome_of_eq_some (eq_of_beq htype)
  cases op with
  | and | or =>
    simp only [BinaryOperator.fittingType?, Option.isSome_ite, Bool.and_eq_true,
      Option.all_eq_true] at h
    obtain rfl | rfl := hoperand
    · exact hboolean (h.1 operand rfl)
    · exact hboolean (h.2 operand rfl)
  | add | sub | mul | div | divby | mod =>
    obtain rfl | rfl := hoperand
    · cases hkind : operand.primitive? <;>
        cases right <;> simp_all [BinaryOperator.fittingType?, BinaryOperator.arithmeticType?]
    · cases hkind : operand.primitive? <;>
        cases left <;> simp_all [BinaryOperator.fittingType?, BinaryOperator.arithmeticType?]
  | _ => cases hop

/-- Logic and arithmetic are not applied to collections of entities or of complex values. -/
theorem TakesMembers.compares {op : BinaryOperator} {left right operand : Expression}
    {result : Option ModelType} (h : (binary op left right result).TakesMembers)
    (hoperand : operand = left ∨ operand = right) (hcollection : operand.isCollection = true)
    (hstructured : ∀ member, operand.type? = some member → member.structured?.isSome = true) :
    comparesStructures op = true := by
  have hprimitive : ∃ member, operand.type? = some member ∧
      (comparesStructures op = false → member.primitive?.isSome = true) := by
    obtain rfl | rfl := hoperand
    · obtain ⟨member, htype, hfits⟩ := h.1 hcollection
      exact ⟨member, htype, fun hop => isSome_primitive?_of_fitting hop hfits (Or.inl rfl)⟩
    · obtain ⟨member, htype, hfits⟩ := h.2 hcollection
      exact ⟨member, htype, fun hop => isSome_primitive?_of_fitting hop hfits (Or.inr rfl)⟩
  obtain ⟨member, htype, hmember⟩ := hprimitive
  have hmember' := hstructured member htype
  by_contra hop
  have hkind := hmember (by simpa using hop)
  cases member <;> simp [ModelType.structured?, ModelType.primitive?] at hmember' hkind

/-- A condition that is about members wherever it is about collections: if it is a collection itself,
its members are truth values, and an operator in it that is applied to a collection takes the members. -/
structure Memberwise (condition : Expression) : Prop where
  isTruth : condition.MembersAre fun member => member.isBoolean = true
  operators : ∀ n ∈ condition.nodes, n.TakesMembers

end Expression

/-! ### Requests -/

theorem Expression.IsRead.membersAre {e : Expression} (h : e.IsRead answers config) :
    ∀ n ∈ e.nodes, n.MembersAre fun _ => True := by
  obtain ⟨scope, source, ts, rest, -, hread⟩ := h
  intro n hn
  have hmembers : n.Members (MemberShape scope.joined scope.it) := fun start path hmem =>
    memberShape_rule.expression hread start path (mem_nodes_trans hn hmem)
  exact membersAre_of_members hmembers

namespace Request

/-- Whatever directory a request is read on, in whatever state: each filter, at the top or in an
expansion, is about members wherever it is about collections. -/
theorem read_operands {path : String} {query fragment : Option String} {d : Directory}
    {r : Request} (h : ((read config path query fragment).runOn d).1 = .ok r) :
    ∀ o, Within r.options o → ∀ condition, o.value = .filter condition → condition.Memberwise := by
  intro o ho condition hcondition
  have hread := read_expressions (Resolution.gives_of_runOn h) o ho
  have hmem : condition ∈ o.value.expressions := by
    simp [hcondition, OptionValue.expressions]
  have hisRead := hread.expressions condition hmem
  have hknown := hisRead.membersAre
  constructor
  · refine (hknown condition condition.mem_nodes_self).of_type fun member hmember => ?_
    have hboolean := isCondition_of_requireCondition (hread.condition condition hcondition)
    obtain rfl | ⟨definition, rfl, hunderlying⟩ := hboolean member hmember
    · rfl
    · simp [ModelType.isBoolean, ModelType.primitive?, hunderlying]
  · intro n hn
    exact (hisRead.wellTyped n hn).takesMembers fun operand hoperand =>
      hknown operand (Expression.mem_nodes_of_operands hn hoperand)

section Staff

/-- Is an operator in the filter of an accepted request applied to a collection? -/
def operatesOnCollection (answer : Except RequestError Request) : Bool :=
  match answer with
  | .ok r => r.options.any fun o =>
    match o.value with
    | .filter condition => condition.nodes.any fun n => n.operands.any Expression.isCollection
    | _ => false
  | .error _ => false

theorem exists_of_operatesOnCollection {answer : Except RequestError Request}
    (h : operatesOnCollection answer = true) :
    ∃ r o condition, answer = .ok r ∧ o ∈ r.options ∧ o.value = .filter condition ∧
      ∃ n ∈ condition.nodes, ∃ operand ∈ n.operands, operand.isCollection = true := by
  cases answer with
  | error e => cases h
  | ok r =>
    obtain ⟨o, ho, h⟩ := List.any_eq_true.mp h
    split at h
    · next condition hcondition =>
      obtain ⟨n, hn, h⟩ := List.any_eq_true.mp h
      exact ⟨r, o, condition, rfl, ho, hcondition, n, hn, List.any_eq_true.mp h⟩
    · cases h

/-- The tags of the members of a team are compared with a text, as if they were one. -/
theorem read_operands_team :
    ∃ r, ((read .standard "Persons" (some "$filter=Team/any(m:m/Tags eq 'new')") none).runOn
        (.ofSource staff)).1 = .ok r ∧
      operatesOnCollection (.ok r) = true ∧
      ∀ o, Within r.options o → ∀ condition, o.value = .filter condition →
        condition.Memberwise := by
  have hoperates : operatesOnCollection
      ((read .standard "Persons" (some "$filter=Team/any(m:m/Tags eq 'new')") none).runOn
        (.ofSource staff)).1 = true := by
    decide +kernel
  obtain ⟨r, -, -, hread, -⟩ := exists_of_operatesOnCollection hoperates
  rw [hread] at hoperates
  exact ⟨r, hread, hoperates, read_operands hread⟩

/-- A filter may apply operators to collections. -/
theorem read_operands_tags :
    ¬∀ (s : Source) (config : Config) (path : String) (query fragment : Option String) (r : Request),
        ((read config path query fragment).runOn (.ofSource s)).1 = .ok r →
        ∀ o, Within r.options o → ∀ condition, o.value = .filter condition →
          condition.isCollection = false ∧
            ∀ n ∈ condition.nodes, ∀ operand ∈ n.operands, operand.isCollection = false := by
  intro h
  have hoperates : operatesOnCollection
      ((read .standard "Persons" (some "$filter=Tags eq 'new'") none).runOn (.ofSource staff)).1 =
        true := by
    decide +kernel
  obtain ⟨r, o, condition, hread, ho, hcondition, n, hn, operand, hoperand, hcollection⟩ :=
    exists_of_operatesOnCollection hoperates
  have hnone := (h staff .standard "Persons" _ none r hread o (.here ho) condition hcondition).2 n hn
    operand hoperand
  rw [hcollection] at hnone
  cases hnone

end Staff

end Request

end ODataRequest
