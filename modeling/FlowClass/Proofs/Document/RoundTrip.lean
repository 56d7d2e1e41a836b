import FlowClass.Proofs.Document.Terms

/-!
# Documents survive being stored

Decoding the JSON value of a document gives the document back (`Document.decode_toJson`), if its
floating-point numbers are finite. Fields that are left out when they are empty come back by their
defaults, and a node comes back with all its fields from the object that holds its kind beside them.
-/

namespace FlowClass

open Decoder Json

/-! ## Declarations -/

def AttributeUse.reals (a : AttributeUse) : List Double :=
  a.args.flatMap Literal.reals

def VariableDecl.reals (v : VariableDecl) : List Double :=
  v.default.toList.flatMap Literal.reals ++ v.attributes.flatMap AttributeUse.reals

def ParamDecl.reals (p : ParamDecl) : List Double :=
  p.default.toList.flatMap Literal.reals

def FunctionDecl.reals (f : FunctionDecl) : List Double :=
  f.params.flatMap ParamDecl.reals ++ f.locals.flatMap VariableDecl.reals ++
    f.attributes.flatMap AttributeUse.reals

def PropertyDecl.reals (p : PropertyDecl) : List Double :=
  p.attributes.flatMap AttributeUse.reals

def ConstructorDecl.reals (c : ConstructorDecl) : List Double :=
  c.params.flatMap ParamDecl.reals

def EventDecl.reals (e : EventDecl) : List Double :=
  e.params.flatMap ParamDecl.reals

/-- The floating-point numbers in a class declaration. -/
def ClassDecl.reals (c : ClassDecl) : List Double :=
  c.attributes.flatMap AttributeUse.reals ++ c.fields.flatMap VariableDecl.reals ++
    c.functions.flatMap FunctionDecl.reals ++ c.properties.flatMap PropertyDecl.reals ++
    c.constructors.flatMap ConstructorDecl.reals ++ c.events.flatMap EventDecl.reals

theorem AttributeUse.restores (a : AttributeUse) (h : AllFinite a.reals) :
    Restores AttributeUse.decode a.toJson a := by
  refine .record (by simp) fun given hgiven => ?_
  rw [hgiven.required "ty" rfl a.type.restores, hgiven.list "args" rfl fun l hl => l.restores (h.part hl)]
  rfl

theorem AttributeUse.restores_list {as : List AttributeUse}
    (h : AllFinite (as.flatMap AttributeUse.reals)) :
    ∀ a ∈ as, Restores AttributeUse.decode a.toJson a :=
  fun a ha => a.restores (h.part ha)

theorem VariableDecl.restores (v : VariableDecl) (h : AllFinite v.reals) :
    Restores VariableDecl.decode v.toJson v := by
  obtain ⟨hdefault, hattributes⟩ := allFinite_append.1 h
  refine .record (by simp) fun given hgiven => ?_
  rw [hgiven.required "id" rfl v.id.restores, hgiven.required "name" rfl (.text v.name),
    hgiven.required "ty" rfl v.type.restores,
    hgiven.optional "default" rfl (Literal.restores_option hdefault),
    hgiven.withDefault "modifiers" rfl v.modifiers.restores,
    hgiven.list "attributes" rfl (AttributeUse.restores_list hattributes)]
  rfl

theorem ParamDecl.restores (p : ParamDecl) (h : AllFinite p.reals) :
    Restores ParamDecl.decode p.toJson p := by
  refine .record (by simp) fun given hgiven => ?_
  rw [hgiven.required "name" rfl (.text p.name), hgiven.required "ty" rfl p.type.restores,
    hgiven.withDefault "modifier" rfl p.passing.restores,
    hgiven.optional "default" rfl (Literal.restores_option h)]
  rfl

theorem ParamDecl.restores_list {ps : List ParamDecl} (h : AllFinite (ps.flatMap ParamDecl.reals)) :
    ∀ p ∈ ps, Restores ParamDecl.decode p.toJson p :=
  fun p hp => p.restores (h.part hp)

theorem FunctionDecl.restores (f : FunctionDecl) (h : AllFinite f.reals) :
    Restores FunctionDecl.decode f.toJson f := by
  obtain ⟨h, hattributes⟩ := allFinite_append.1 h
  obtain ⟨hparams, hlocals⟩ := allFinite_append.1 h
  refine .record (by simp) fun given hgiven => ?_
  rw [hgiven.required "id" rfl f.id.restores, hgiven.required "name" rfl (.text f.name),
    hgiven.withDefault "return_type" rfl f.returnType.restores,
    hgiven.list "params" rfl (ParamDecl.restores_list hparams),
    hgiven.list "generic_params" rfl fun s _ => .text s,
    hgiven.withDefault "modifiers" rfl f.modifiers.restores,
    hgiven.optional "entry" rfl (NodeId.restores_option f.entry),
    hgiven.list "locals" rfl fun v hv => v.restores (hlocals.part hv),
    hgiven.list "attributes" rfl (AttributeUse.restores_list hattributes)]
  rfl

theorem PropertyDecl.restores (p : PropertyDecl) (h : AllFinite p.reals) :
    Restores PropertyDecl.decode p.toJson p := by
  refine .record (by simp) fun given hgiven => ?_
  rw [hgiven.required "id" rfl p.id.restores, hgiven.required "name" rfl (.text p.name),
    hgiven.required "ty" rfl p.type.restores,
    hgiven.withDefault "modifiers" rfl p.modifiers.restores,
    hgiven.optional "getter" rfl (NodeId.restores_option p.getter),
    hgiven.optional "setter" rfl (NodeId.restores_option p.setter),
    hgiven.list "attributes" rfl (AttributeUse.restores_list h)]
  rfl

theorem ConstructorDecl.restores (c : ConstructorDecl) (h : AllFinite c.reals) :
    Restores ConstructorDecl.decode c.toJson c := by
  refine .record (by simp) fun given hgiven => ?_
  rw [hgiven.required "id" rfl c.id.restores,
    hgiven.list "params" rfl (ParamDecl.restores_list h),
    hgiven.withDefault "modifiers" rfl c.modifiers.restores,
    hgiven.optional "entry" rfl (NodeId.restores_option c.entry)]
  rfl

theorem EventDecl.restores (e : EventDecl) (h : AllFinite e.reals) :
    Restores EventDecl.decode e.toJson e := by
  refine .record (by simp) fun given hgiven => ?_
  rw [hgiven.required "id" rfl e.id.restores, hgiven.required "name" rfl (.text e.name),
    hgiven.list "params" rfl (ParamDecl.restores_list h),
    hgiven.optional "entry" rfl (NodeId.restores_option e.entry)]
  rfl

theorem ClassDecl.restores (c : ClassDecl) (h : AllFinite c.reals) :
    Restores ClassDecl.decode c.toJson c := by
  obtain ⟨h, hevents⟩ := allFinite_append.1 h
  obtain ⟨h, hconstructors⟩ := allFinite_append.1 h
  obtain ⟨h, hproperties⟩ := allFinite_append.1 h
  obtain ⟨h, hfunctions⟩ := allFinite_append.1 h
  obtain ⟨hattributes, hfields⟩ := allFinite_append.1 h
  refine .record (by simp) fun given hgiven => ?_
  rw [hgiven.required "name" rfl (.text c.name),
    hgiven.optional "namespace" rfl (restores_optionalText c.space),
    hgiven.list "usings" rfl fun s _ => .text s,
    hgiven.withDefault "modifiers" rfl c.modifiers.restores,
    hgiven.optional "base" rfl (Ty.restores_option c.base),
    hgiven.list "interfaces" rfl fun t _ => t.restores,
    hgiven.list "attributes" rfl (AttributeUse.restores_list hattributes),
    hgiven.items "variables" rfl fun v hv => v.restores (hfields.part hv),
    hgiven.items "functions" rfl fun f hf => f.restores (hfunctions.part hf),
    hgiven.items "properties" rfl fun p hp => p.restores (hproperties.part hp),
    hgiven.items "constructors" rfl fun k hk => k.restores (hconstructors.part hk),
    hgiven.items "events" rfl fun e he => e.restores (hevents.part he)]
  rfl

/-! ## Nodes -/

def SwitchArm.reals (a : SwitchArm) : List Double :=
  a.labels.flatMap Literal.reals

/-- The floating-point numbers in a node. -/
def Node.reals : Node → List Double
  | .sequence _ => []
  | .branch condition _ _ _ => condition.reals
  | .switch value cases _ _ => value.reals ++ cases.flatMap SwitchArm.reals
  | .forLoop start stop step _ _ => start.reals ++ stop.reals ++ step.reals
  | .forEach collection _ _ _ => collection.reals
  | .whileLoop condition _ _ => condition.reals
  | .invoke call _ => call.reals
  | .setValue target value _ _ => target.reals ++ value.reals
  | .localVariable _ _ value _ => value.reals
  | .returnValue value => value.reals
  | .wait seconds _ => seconds.reals
  | .stateScope _ _ => []
  | .stopUnit _ _ => []
  | .unitStatus _ _ => []
  | .literal value => value.reals
  | .member value => value.reals
  | .operator _ operands _ => operands.flatMap Term.reals
  | .lambda params _ _ => params.flatMap ParamDecl.reals

theorem SwitchArm.restores (a : SwitchArm) (h : AllFinite a.reals) :
    Restores SwitchArm.decode a.toJson a := by
  refine .object (by simp) fun given hgiven => ?_
  rw [hgiven.required "labels" rfl (.list fun l hl => l.restores (h.part hl)),
    hgiven.option "target" rfl (NodeId.restores_option a.target)]
  rfl

namespace Node

theorem find?_fieldNames (n : Node) : fieldNames.find? (·.1 == n.kindName) =
    some (n.kindName, n.fieldsJson.map (·.1)) := by
  cases n <;> rfl

theorem nodup_names (n : Node) : ("kind" :: n.fieldsJson.map (·.1)).Nodup := by
  cases n <;> simp [fieldsJson]

theorem isReadable_toJson (n : Node) : n.toJson.isReadable = true := by
  cases n <;> simp [toJson, fieldsJson, NodeId.toJson, SwitchArm.toJson, ParamDecl.toJson,
    Passing.toJson, Operator.toJson, AssignOp.toJson, UnitQuery.toJson, Option.all_map]

/-- A node is restored from the object of its fields with the kind before them. -/
theorem restores_of {n : Node} (hrecord : ∀ given, given.Holds (entries n.fieldsJson) →
    ofRecord n.kindName given = some n) : Restores Node.decode n.toJson n := by
  obtain ⟨hkind, hnodup⟩ := List.nodup_cons.1 n.nodup_names
  have hne (field : String × Json) (hfield : field ∈ n.fieldsJson) : field.1 ≠ "kind" := fun heq =>
    hkind (heq ▸ List.mem_map_of_mem (f := (·.1)) hfield)
  have hrest : kindAndRest n.toJson = some (n.kindName, .ofEntries (entries n.fieldsJson)) := by
    have hnone : n.fieldsJson.filter (·.1 == "kind") = [] :=
      List.filter_eq_nil_iff.2 fun field hfield => by simpa using hne field hfield
    have hall : n.fieldsJson.filter (·.1 != "kind") = n.fieldsJson :=
      List.filter_eq_self.2 fun field hfield => by simpa using hne field hfield
    rw [toJson, kindAndRest, List.filter_cons_of_pos rfl, hnone,
      List.filter_cons_of_neg (by simp), hall, ofEntries_entries]
  intro r hr
  have hdepth : (ofEntries (entries n.fieldsJson)).depth ≤ r.levels := by
    rw [toJson, depth, depthMembers] at hr
    rw [ofEntries_entries, depth]
    omega
  obtain ⟨given, hopen, hgiven⟩ :=
    record_members (r := { r with insideNode := true }) (n.fieldsJson.map (·.1))
      (names_entries _ ▸ hnodup) hdepth
  simp only [Node.decode, hrest, find?_fieldNames, hr, isReadable_toJson, hopen, hrecord given hgiven,
    Option.bind_eq_bind, Option.bind_some, decide_true, Bool.and_self, if_true]

theorem restores (n : Node) (h : AllFinite n.reals) : Restores Node.decode n.toJson n := by
  have hid := NodeId.restores_option
  -- the fields of each kind are found by name, and each comes back from its own decoder
  refine restores_of fun given hgiven => ?_
  cases n with
  | sequence outputs =>
    have houtputs := Restores.list fun (o : Option NodeId) (_ : o ∈ outputs) => .optional (hid o)
    simp only [kindName, ofRecord, hgiven.required "outputs" rfl houtputs]
    rfl
  | branch condition onTrue onFalse next =>
    simp only [kindName, ofRecord, hgiven.required "condition" rfl (condition.restores h),
      hgiven.option "on_true" rfl (hid onTrue), hgiven.option "on_false" rfl (hid onFalse),
      hgiven.option "next" rfl (hid next)]
    rfl
  | switch value cases default next =>
    obtain ⟨hvalue, hcases⟩ := allFinite_append.1 h
    simp only [kindName, ofRecord, hgiven.required "value" rfl (value.restores hvalue),
      hgiven.items "cases" rfl fun a ha => SwitchArm.restores a (hcases.part ha),
      hgiven.option "default" rfl (hid default), hgiven.option "next" rfl (hid next)]
    rfl
  | forLoop start stop step body next =>
    obtain ⟨h, hstep⟩ := allFinite_append.1 h
    obtain ⟨hstart, hstop⟩ := allFinite_append.1 h
    simp only [kindName, ofRecord, hgiven.required "start" rfl (start.restores hstart),
      hgiven.required "end" rfl (stop.restores hstop),
      hgiven.withDefault "step" rfl (step.restores hstep), hgiven.option "body" rfl (hid body),
      hgiven.option "next" rfl (hid next)]
    rfl
  | forEach collection element body next =>
    simp only [kindName, ofRecord, hgiven.required "collection" rfl (collection.restores h),
      hgiven.required "element" rfl element.restores, hgiven.option "body" rfl (hid body),
      hgiven.option "next" rfl (hid next)]
    rfl
  | whileLoop condition body next =>
    simp only [kindName, ofRecord, hgiven.required "condition" rfl (condition.restores h),
      hgiven.option "body" rfl (hid body), hgiven.option "next" rfl (hid next)]
    rfl
  | invoke call next =>
    simp only [kindName, ofRecord, hgiven.required "call" rfl (call.restores h),
      hgiven.option "next" rfl (hid next)]
    rfl
  | setValue target value op next =>
    obtain ⟨htarget, hvalue⟩ := allFinite_append.1 h
    simp only [kindName, ofRecord, hgiven.required "target" rfl (target.restores htarget),
      hgiven.required "value" rfl (value.restores hvalue),
      hgiven.withDefault "op" rfl op.restores, hgiven.option "next" rfl (hid next)]
    rfl
  | localVariable name type value next =>
    simp only [kindName, ofRecord, hgiven.required "name" rfl (.text name),
      hgiven.required "ty" rfl type.restores, hgiven.withDefault "value" rfl (value.restores h),
      hgiven.option "next" rfl (hid next)]
    rfl
  | returnValue value =>
    simp only [kindName, ofRecord, hgiven.withDefault "value" rfl (value.restores h)]
    rfl
  | wait seconds next =>
    simp only [kindName, ofRecord, hgiven.withDefault "seconds" rfl (seconds.restores h),
      hgiven.option "next" rfl (hid next)]
    rfl
  | stateScope body next =>
    simp only [kindName, ofRecord, hgiven.option "body" rfl (hid body),
      hgiven.option "next" rfl (hid next)]
    rfl
  | stopUnit target next =>
    simp only [kindName, ofRecord, hgiven.nullable "unit" rfl (.optional (hid target)),
      hgiven.option "next" rfl (hid next)]
    rfl
  | unitStatus target query =>
    simp only [kindName, ofRecord, hgiven.nullable "unit" rfl (.optional (hid target)),
      hgiven.required "query" rfl query.restores]
    rfl
  | literal value | member value =>
    simp only [kindName, ofRecord, hgiven.required "value" rfl (value.restores h)]
    rfl
  | operator op operands cast =>
    simp only [kindName, ofRecord, hgiven.required "op" rfl op.restores,
      hgiven.required "operands" rfl (.list fun t ht => Term.restores t (h.part ht)),
      hgiven.option "cast" rfl (Ty.restores_option cast)]
    rfl
  | lambda params returnType body =>
    simp only [kindName, ofRecord, hgiven.items "params" rfl (ParamDecl.restores_list h),
      hgiven.withDefault "return_type" rfl returnType.restores, hgiven.option "body" rfl (hid body)]
    rfl

end Node

/-! ## Documents -/

/-- The floating-point numbers in a document. -/
def Document.reals (d : Document Node) : List Double :=
  d.classDecl.reals ++ d.nodes.flatMap fun entry => entry.2.reals

theorem Document.restores_entry (entry : NodeId × Node) (h : AllFinite entry.2.reals) :
    Restores Document.decodeEntry
      (.object [("id", entry.1.toJson), ("node", entry.2.toJson)]) entry := by
  refine .object (by simp) fun given hgiven => ?_
  rw [hgiven.required "id" rfl entry.1.restores,
    hgiven.required "node" rfl (entry.2.restores h)]
  rfl

theorem Document.restores (d : Document Node) (h : AllFinite d.reals) :
    Restores Document.decode d.toJson d := by
  obtain ⟨hclass, hnodes⟩ := allFinite_append.1 h
  refine .object (by simp) fun given hgiven => ?_
  rw [hgiven.required "name" rfl (.text d.name),
    hgiven.required "class" rfl (d.classDecl.restores hclass),
    hgiven.items "nodes" rfl fun entry hentry => restores_entry entry (hnodes.part hentry)]
  rfl

/-- A document comes back from its JSON value, whatever is left out in it, if the limit on nesting
leaves room for all of it. -/
theorem Document.decode_toJson (d : Document Node) (hfinite : ∀ x ∈ d.reals, x.isFinite = true)
    (r : Reading) (hlevels : d.toJson.depth ≤ r.levels) : Document.decode r d.toJson = some d :=
  d.restores hfinite r hlevels

/-- A class that keeps some of its fields and leaves others out, with nodes that nest. -/
def storedDoor : Document Node where
  name := "Door"
  classDecl :=
    { name := "Door"
      modifiers := { access := .assembly, isSealed := true }
      functions :=
        [{ id := ⟨1⟩
           name := "Open"
           params := [{ name := "speed", type := .scalar .float, default := some (.float ⟨4⟩) }]
           entry := some ⟨7⟩
           locals := [{ id := ⟨2⟩, name := "steps", type := .array .int 2 }] }]
      constructors := [{ id := ⟨3⟩ }] }
  nodes :=
    [(⟨7⟩, .switch (.chain (.ofValue (.output ⟨8⟩ 1)) [{ name := "State", kind := .field, type := .int }])
        [{ labels := [.integer (-3) .int, .double ⟨0x8000000000000000⟩], target := some ⟨9⟩ }] none none),
      (⟨8⟩, .operator .explicit [.literal (.list .int [.null, .char 'x'])] (some (.nullable .int))),
      (⟨9⟩, .wait .unassigned none)]

theorem storedDoor_restored : (∀ x ∈ storedDoor.reals, x.isFinite = true) ∧
    storedDoor.reals.length = 2 ∧ Document.ofJson storedDoor.toJson = .ok storedDoor := by
  have hfinite : ∀ x ∈ storedDoor.reals, x.isFinite = true := by decide +kernel
  refine ⟨hfinite, by decide +kernel, ?_⟩
  rw [Document.ofJson, Document.decode_toJson storedDoor hfinite _ (by decide +kernel)]

end FlowClass
