import FlowClass.Proofs.Program.Defaults

/-!
# Access by name

The switches of `GetVariable` and `SetVariable` have a case for each field that is neither static
nor constant. A declared field has the name of its declaration there, a local that became a field
the name it is emitted under, which can be the declared name of another field.
-/

namespace FlowClass

open List Assembly

/-- The variable is assigned under the label under which it is returned. -/
def Assigns (c : ClassDecl) (v : VariableSymbol) (s : SwitchSection) : Prop :=
  ∃ type, s = ⟨(getCase c v).labels,
    (Fragment.assign v.name ("(" ++ type ++ ")value") .assign).text⟩

theorem forall₂_setCases (c : ClassDecl) (vars : List VariableSymbol) (i : Imports) :
    Forall₂ (Assigns c) vars (vars.mapM (setCase c) i).1 := by
  induction vars generalizing i with
  | nil => exact .nil
  | cons v vars ih =>
    rw [mapM_cons]
    exact .cons ⟨_, rfl⟩ (ih _)

/-- A declared field has the name of its declaration. -/
theorem declaredName_field {c : ClassDecl} (hids : c.declIds.Nodup) {d : VariableDecl}
    (hd : d ∈ c.fields) {v : VariableSymbol} (hkey : v.key = .decl d.id) :
    declaredName c v = d.name := by
  have hsome : (c.fields.find? fun e => .decl e.id = v.key).isSome = true :=
    find?_isSome.2 ⟨d, hd, by simp [hkey]⟩
  obtain ⟨e, he⟩ := Option.isSome_iff_exists.1 hsome
  have hsame : e.id = d.id := by simpa [hkey] using find?_some he
  simp only [ClassDecl.declIds, nodup_append] at hids
  rw [declaredName, he, inj_on_of_nodup_map hids.1.1.1.1 (mem_of_find?_eq_some he) hd hsame]
  rfl

/-- After a pass, both switches have the same labels in the same order, and every declared field that
is neither static nor constant is found under its declared name. -/
theorem variables_found_by_name {graph : Graph Node} {config : Config} {gen : Generation Node}
    {s : State} (hstart : Generation.start graph config = .ok gen)
    (hrun : Emit.bodies gen.env gen.state = (.ok (), s)) (getName setName : String) (i : Imports) :
    (∃ sections, Forall₂ (Assigns graph.classDecl) (accessible s.symbols) sections ∧
      (variableAccessors graph.classDecl s.symbols getName setName i).1 =
        ["public object " ++ getName ++ "(string name) " ++ Code.braced (Code.lines
          [(Fragment.switch "name" ((accessible s.symbols).map (getCase graph.classDecl)) none).text,
            (Fragment.returnValue (some "null")).text]),
          "public void " ++ setName ++ "(string name, object value) " ++
            Code.braced (Fragment.switch "name" sections none).text]) ∧
    ∀ d ∈ graph.classDecl.fields, d.modifiers.isStatic = false → d.modifiers.isConst = false →
      ∃ v ∈ accessible s.symbols, v.key = .decl d.id ∧ getCase graph.classDecl v =
        ⟨[Code.stringLiteral d.name], (Fragment.returnValue (some v.name)).text⟩ := by
  refine ⟨⟨_, forall₂_setCases _ _ i, rfl⟩, fun d hd hstatic hconst => ?_⟩
  have hstored := Generation.stored hstart hrun
  have hids := Generation.nodup_declIds hstart
  obtain ⟨v, hv, hkey⟩ := mem_map.1 (Generation.variable_entered hstart hrun (.inl hd))
  obtain rfl := (Generation.start_eq hstart).1
  have hfield : v.key.isField gen.env.graph.classDecl = true := by
    rw [hkey, SymbolKey.isField, ClassDecl.functionOf?_field hids hd]
    rfl
  have hmodifiers := (hstored.modified v hv).1 d hd hkey
  refine ⟨v, ?_, hkey, by rw [getCase, declaredName_field hids hd hkey]⟩
  refine mem_filter.2 ⟨mem_filter.2 ⟨hv, decide_eq_true (hstored.fields v hv hfield)⟩, ?_⟩
  simp [VariableSymbol.isDeclared, hkey, hmodifiers, hstatic, hconst]

/-- The local of the function becomes a field, and is named after the keyword that is its name. -/
def keywordFields : Graph Node where
  name := "C"
  classDecl :=
    { name := "C"
      fields := [{ id := ⟨1⟩, name := "@int1", type := .int },
        { id := ⟨2⟩, name := "int", type := .int }]
      functions := [{ id := ⟨3⟩, name := "F", entry := some ⟨1⟩
                      locals := [{ id := ⟨4⟩, name := "int", type := .int }] }] }
  nodes :=
    [(⟨1⟩, .branch (.literal (.bool true)) (some ⟨2⟩) (some ⟨2⟩) none),
      (⟨2⟩, .setValue (.variable (.localOf ⟨3⟩ ⟨4⟩)) (.literal (.integer 5 .int)) .assign none)]

/-- The cases of the switches: what is asked for and what is found. -/
def State.cases (c : ClassDecl) (s : State) : List (String × String) :=
  (accessible s.symbols).map fun v => (declaredName c v, v.name)

/-- Two cases have one label, although all declared fields have different names. -/
theorem keywordFields_repeat_label : ∃ gen s,
    Generation.start keywordFields { optimizeAccess := true } = .ok gen ∧
    Emit.bodies gen.env gen.state = (.ok (), s) ∧ s.cases keywordFields.classDecl =
      [("@int1", "_int1"), ("int", "@int"), ("@int1", "@int1")] ∧
    (keywordFields.classDecl.fields.map VariableDecl.name).Nodup := by
  decide +kernel

/-- The field `int` is found all the same. -/
theorem keywordFields_found : ∃ gen s,
    Generation.start keywordFields { optimizeAccess := true } = .ok gen ∧
    Emit.bodies gen.env gen.state = (.ok (), s) ∧
    ∃ v ∈ accessible s.symbols, v.key = .decl ⟨2⟩ ∧ getCase keywordFields.classDecl v =
      ⟨[Code.stringLiteral "int"], (Fragment.returnValue (some v.name)).text⟩ := by
  obtain ⟨gen, s, hstart, hrun, _⟩ : Generation.EndsWith keywordFields { optimizeAccess := true }
      fun _ _ => True := by decide +kernel
  obtain ⟨_, hfound⟩ := variables_found_by_name hstart hrun "Get" "Set" {}
  exact ⟨gen, s, hstart, hrun, hfound _ (.tail _ (.head _)) rfl rfl⟩

end FlowClass
