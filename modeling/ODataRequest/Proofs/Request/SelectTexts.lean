import ODataRequest.Proofs.Query.SelectText

/-!
# ODataRequest.Proofs.Request.SelectTexts

The texts of the selections in an accepted request. A selection at any depth is read back from its text,
against the type that it has been read against, if no function is selected (`Request.read_selectTexts`).
A function is written with parentheses behind its name, which no selected item may have, so a selection
with a function may be refused (`Request.read_selectTexts_function`); its names alone are read back.
-/

namespace ODataRequest

open SystemOption

namespace Request

/-- Each selection of an accepted request, at the top or in an expansion, is read back from its text if
it has no function in it, and from its names in any case: whatever directory of the source it is read
on, the same items are selected. -/
theorem read_selectTexts {s : Source} {d : Directory} {config : Config} {path : String}
    {query fragment : Option String} {r : Request} (names : s.WellNamed) (hd : d.Reachable s)
    (h : ((read config path query fragment).runOn d).1 = .ok r) :
    ∀ level type o items, WithinAt r.address.target? r.options level type o →
      o.value = .select items → ∀ d' : Directory, d'.Reachable s →
        ((∀ i ∈ items, i.callsFunction = false) →
          ((selectItems type o.valueText).runOn d').1 = .ok items) ∧
        ((selectItems type (commaJoined (items.map SelectItem.nameText))).runOn d').1 =
          .ok items := by
  intro level type o items hwithin hvalue d' hd'
  have hgives := Resolution.gives_answers_of_runOn names (hd.consistent names) h
  obtain ⟨left, -, hoption⟩ := gives_optionValue_of_withinAt hgives hwithin
  rw [hvalue] at hoption
  have hitems := select_of_gives hoption
  have hread := Resolution.runOn_of_gives_answers names (selectItems_nameText names hitems)
    (hd'.consistent names)
  refine ⟨fun hcalls => ?_, hread⟩
  rw [valueText_of_select hvalue, texts_eq_nameTexts names hitems hcalls, hread]

section Fleet

private def fleetSpace : Namespace := ⟨⟨"Fleet", by decide⟩, []⟩

private def fleetName (name : Identifier) : QualifiedName :=
  ⟨fleetSpace, name⟩

private def vehicleName : QualifiedName := fleetName ⟨"Vehicle", by decide⟩
private def placeName : QualifiedName := fleetName ⟨"Place", by decide⟩
private def homeName : Identifier := ⟨"Home", by decide⟩

private def plainProperty (name : Identifier) (type : PrimitiveKind) : Csdl.Property :=
  ⟨name, ⟨type.qualifiedName, false⟩, false, none, none, none, none⟩

private def vehicleType : Csdl.EntityType :=
  { name := vehicleName.name, baseType := none, isAbstract := false, isOpen := false,
    properties := [plainProperty ⟨"Sign", rfl⟩ .string,
      ⟨homeName, ⟨placeName, false⟩, false, none, none, none, none⟩]
    navigationProperties := [⟨⟨"Trailer", by decide⟩, ⟨vehicleName, false⟩, true, none, false⟩]
    hasStream := false, key := [⟨"Sign", none⟩] }

private def truckType : Csdl.EntityType :=
  { name := ⟨"Truck", by decide⟩, baseType := some vehicleName, isAbstract := false, isOpen := false,
    properties := [plainProperty ⟨"Load", by decide⟩ (.integer .int32)], navigationProperties := [],
    hasStream := false, key := [] }

private def placeType : Csdl.StructuredType :=
  { name := placeName.name, baseType := none, isAbstract := false, isOpen := false,
    properties := [plainProperty ⟨"Street", by decide⟩ .string], navigationProperties := [] }

private def yardType : Csdl.StructuredType :=
  { name := ⟨"Yard", rfl⟩, baseType := some placeName, isAbstract := false, isOpen := false,
    properties := [plainProperty ⟨"Gates", by decide⟩ (.integer .int32)]
    navigationProperties := [] }

private def ofVehicle (name : Identifier) : Csdl.Operation :=
  { name, isBound := true, entitySetPath := none,
    parameters := [⟨⟨"it", by decide⟩, ⟨vehicleName, false⟩, false⟩] }

/-- A model with vehicles and their homes, some of which are trucks and yards. A vehicle may be sent to
a repair shop, and has a range. -/
def fleet : Source :=
  { basicOnly := false
    schemas :=
      [{ space := fleetSpace
         aliasName := some ⟨"f", by decide⟩
         entityTypes := [vehicleType, truckType]
         complexTypes := [placeType, yardType]
         enumTypes := []
         typeDefinitions := []
         actions := [{ ofVehicle ⟨"Repair", by decide⟩ with
           returnType := some ⟨⟨placeName, false⟩, false⟩ }]
         functions := [{ ofVehicle ⟨"Range", by decide⟩ with
           isComposable := false
           returnType := ⟨⟨(PrimitiveKind.integer .int32).qualifiedName, false⟩, false⟩ }]
         terms := []
         container := some
           { name := fleetSpace.first
             entitySets := [⟨⟨"Vehicles", by decide⟩, vehicleName, [], true⟩]
             singletons := []
             actionImports := []
             functionImports := [] }
         annotations := [] }] }

theorem fleet_wellNamed : fleet.WellNamed :=
  ⟨by decide, by decide⟩

/-- A selection of items of all kinds with the alias of the schema, and one in an expansion. -/
def vehicleQuery : String :=
  "$select=*, f.*,f.Truck/Load,Home/f.Yard/Gates,f.Repair/Street&" ++
    "$expand=Trailer($select=f.Truck/Trailer/Sign)"

/-- A star, the operations of the schema, casts, an action, and a selection in an expansion: they are
written with the full names and read back. -/
theorem read_selectTexts_vehicles :
    ∃ r, ((read .standard "Vehicles" (some vehicleQuery) none).runOn (.ofSource fleet)).1 = .ok r ∧
      acceptedOptions (.ok r) = some ("$expand=Trailer($select=Fleet.Truck/Trailer/Sign)&" ++
        "$select=*,f.*,Fleet.Truck/Load,Home/Fleet.Yard/Gates,Fleet.Repair/Street") ∧
      ∀ level type o items, WithinAt r.address.target? r.options level type o →
        o.value = .select items → ∀ d' : Directory, d'.Reachable fleet →
          ((∀ i ∈ items, i.callsFunction = false) →
            ((selectItems type o.valueText).runOn d').1 = .ok items) ∧
          ((selectItems type (commaJoined (items.map SelectItem.nameText))).runOn d').1 =
            .ok items := by
  have hoptions : acceptedOptions
      ((read .standard "Vehicles" (some vehicleQuery) none).runOn (.ofSource fleet)).1 =
        some ("$expand=Trailer($select=Fleet.Truck/Trailer/Sign)&" ++
          "$select=*,f.*,Fleet.Truck/Load,Home/Fleet.Yard/Gates,Fleet.Repair/Street") := by
    decide +kernel
  cases hread :
      ((read .standard "Vehicles" (some vehicleQuery) none).runOn (.ofSource fleet)).1 with
  | error e =>
    rw [hread] at hoptions
    cases hoptions
  | ok r =>
    rw [hread] at hoptions
    exact ⟨r, rfl, hoptions, read_selectTexts fleet_wellNamed .fresh hread⟩

/-- Is something selected in an accepted request, the text of which is refused? -/
def someRefused (answer : Except RequestError Request) : Bool :=
  match answer with
  | .ok r => r.options.any fun o =>
    match o.value with
    | .select _ => !((selectItems r.address.target? o.valueText).runOn (.ofSource fleet)).1.isOk
    | _ => false
  | .error _ => false

private theorem someRefused_range :
    someRefused
      ((read .standard "Vehicles" (some "$select=f.Range") none).runOn (.ofSource fleet)).1 = true := by
  decide +kernel

/-- A function that is selected has parentheses behind its name in the text, which is refused. -/
theorem read_selectTexts_function :
    ¬∀ (s : Source) (config : Config) (path : String) (query fragment : Option String) (r : Request),
        s.WellNamed → ((read config path query fragment).runOn (.ofSource s)).1 = .ok r →
        ∀ level type o items, WithinAt r.address.target? r.options level type o →
          o.value = .select items →
          ((selectItems type o.valueText).runOn (.ofSource s)).1 = .ok items := by
  intro h
  have hrefused := someRefused_range
  cases hread :
      ((read .standard "Vehicles" (some "$select=f.Range") none).runOn (.ofSource fleet)).1 with
  | error e =>
    rw [hread] at hrefused
    cases hrefused
  | ok r =>
    rw [hread] at hrefused
    obtain ⟨o, ho, htest⟩ := List.any_eq_true.mp hrefused
    split at htest
    · next items hvalue =>
      have hback := h fleet .standard "Vehicles" _ none r fleet_wellNamed hread 0 _ o items (.here ho)
        hvalue
      rw [hback] at htest
      cases htest
    · cases htest

end Fleet

end Request

end ODataRequest
