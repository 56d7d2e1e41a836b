import FlowClass.Document.Encode
import FlowClass.Json.Decode
import FlowClass.Json.Reader

/-!
# Documents from JSON values

The counterpart of `Document.toJson`. A recursive type is read by a decoder with fuel, which is
spent one per level of nesting; since every level opens an object, the limit on open values is
always reached first.
-/

namespace FlowClass

open Decoder (Record Variant)

def NodeId.decode : Decoder NodeId := Decoder.uint32.map NodeId.mk

def DeclId.decode : Decoder DeclId := Decoder.uint32.map DeclId.mk

def Operator.decode : Decoder Operator :=
  Decoder.oneOf (Operator.all.map fun op => (op.kindName, op))

def AssignOp.decode : Decoder AssignOp :=
  Decoder.oneOf (AssignOp.all.map fun op => (op.kindName, op))

def Scalar.decode : Decoder Scalar :=
  Decoder.oneOf (Scalar.all.map fun s => (s.kindName, s))

def TypeSort.decode : Decoder TypeSort :=
  Decoder.oneOf (TypeSort.all.map fun s => (s.kindName, s))

def Access.decode : Decoder Access :=
  Decoder.oneOf (Access.all.map fun a => (a.kindName, a))

def StepKind.decode : Decoder StepKind :=
  Decoder.oneOf (StepKind.all.map fun k => (k.kindName, k))

def Passing.decode : Decoder Passing :=
  Decoder.oneOf (Passing.all.map fun p => (p.kindName, p))

def CollectionKind.decode : Decoder CollectionKind :=
  Decoder.oneOf [("Array", .array), ("List", .list)]

def EntryKind.decode : Decoder EntryKind :=
  Decoder.oneOf ([.function, .getter, .setter, .constructor, .event].map
    fun k : EntryKind => (k.kindName, k))

def UnitQuery.decode : Decoder UnitQuery :=
  Decoder.oneOf ([.isRunning, .isSuccess, .isFailure, .isFinished].map
    fun q : UnitQuery => (q.methodName, q))

/-! ## Types -/

def Ty.decodeFuel : Nat → Decoder Ty
  | 0 => fun _ _ => none
  | fuel + 1 => fun r j => do
    let v ← Decoder.variant r j
    match v.name with
    | "Void" => (fun _ => Ty.void) <$> v.unit
    | "Primitive" => Ty.scalar <$> v.payloadAs Scalar.decode
    | "Named" =>
      let given ← v.fields ["namespace", "name", "generics", "kind"]
      let space ← given.optional "namespace" Decoder.text
      let name ← given.required "name" Decoder.text
      let args ← given.list "generics" (Ty.decodeFuel fuel)
      let sort ← given.withDefault "kind" .ofClass TypeSort.decode
      return .named space name args sort
    | "Array" =>
      let given ← v.fields ["element", "rank"]
      let element ← given.required "element" (Ty.decodeFuel fuel)
      let rank ← given.required "rank" Decoder.uint8
      return .array element rank
    | "Nullable" => Ty.nullable <$> v.payloadAs (Ty.decodeFuel fuel)
    | "GenericParam" => Ty.typeParam <$> v.payloadAs Decoder.text
    | "Generated" => Ty.generated <$> v.payloadAs Decoder.text
    | _ => none

def Ty.decode : Decoder Ty := fun r j => Ty.decodeFuel (r.levels + 1) r j

def Modifiers.decode : Decoder Modifiers := fun r j => do
  let given ← Decoder.record
    ["visibility", "is_static", "is_abstract", "is_virtual", "is_override", "is_sealed",
      "is_readonly", "is_const", "is_partial"] r j
  let access ← given.withDefault "visibility" .ownClass Access.decode
  let isStatic ← given.withDefault "is_static" false Decoder.bool
  let isAbstract ← given.withDefault "is_abstract" false Decoder.bool
  let isVirtual ← given.withDefault "is_virtual" false Decoder.bool
  let isOverride ← given.withDefault "is_override" false Decoder.bool
  let isSealed ← given.withDefault "is_sealed" false Decoder.bool
  let isReadonly ← given.withDefault "is_readonly" false Decoder.bool
  let isConst ← given.withDefault "is_const" false Decoder.bool
  let isPartial ← given.withDefault "is_partial" false Decoder.bool
  return ⟨access, isStatic, isAbstract, isVirtual, isOverride, isSealed, isReadonly, isConst,
    isPartial⟩

/-! ## Literals and terms -/

def Literal.decodeFuel : Nat → Decoder Literal
  | 0 => fun _ _ => none
  | fuel + 1 => fun r j => do
    let v ← Decoder.variant r j
    match v.name with
    | "Null" => (fun _ => Literal.null) <$> v.unit
    | "Bool" => Literal.bool <$> v.payloadAs Decoder.bool
    | "Char" => Literal.char <$> v.payloadAs Decoder.char
    | "String" => Literal.string <$> v.payloadAs Decoder.text
    | "Integer" =>
      let given ← v.fields ["value", "ty"]
      return .integer (← given.required "value" Decoder.int64)
        (← given.required "ty" Scalar.decode)
    | "Unsigned" =>
      let given ← v.fields ["value", "ty"]
      return .unsigned (← given.required "value" Decoder.uint64)
        (← given.required "ty" Scalar.decode)
    | "Float" => Literal.float <$> v.payloadAs Decoder.double
    | "Double" => Literal.double <$> v.payloadAs Decoder.double
    | "Decimal" => Literal.decimal <$> v.payloadAs Decoder.text
    | "Enum" =>
      let given ← v.fields ["ty", "variant"]
      return .enumMember (← given.required "ty" Ty.decode) (← given.required "variant" Decoder.text)
    | "Struct" =>
      let given ← v.fields ["ty", "components"]
      return .struct (← given.required "ty" Ty.decode)
        (← given.required "components" (Decoder.list Decoder.double))
    | "Array" =>
      let given ← v.fields ["element", "items"]
      return .array (← given.required "element" Ty.decode)
        (← given.required "items" (Decoder.list (Literal.decodeFuel fuel)))
    | "List" =>
      let given ← v.fields ["element", "items"]
      return .list (← given.required "element" Ty.decode)
        (← given.required "items" (Decoder.list (Literal.decodeFuel fuel)))
    | "Default" => Literal.default <$> v.payloadAs Ty.decode
    | _ => none

def Literal.decode : Decoder Literal := fun r j => Literal.decodeFuel (r.levels + 1) r j

def VarRef.decode : Decoder VarRef := fun r j => do
  let v ← Decoder.variant r j
  match v.name with
  | "Field" => VarRef.field <$> v.payloadAs DeclId.decode
  | "Local" =>
    let given ← v.fields ["function", "variable"]
    return .localOf (← given.required "function" DeclId.decode)
      (← given.required "variable" DeclId.decode)
  | "Parameter" =>
    let given ← v.fields ["owner", "index"]
    return .parameter (← given.required "owner" DeclId.decode)
      (← given.required "index" Decoder.uint64)
  | "SetterValue" => (fun _ => VarRef.setterValue) <$> v.unit
  | _ => none

def Param.decode : Decoder Param := fun r j => do
  let given ← Decoder.record ["name", "ty", "modifier"] r j
  let name ← given.required "name" Decoder.text
  let type ← given.required "ty" Ty.decode
  let passing ← given.withDefault "modifier" .byValue Passing.decode
  return { name, type, passing }

/-- A step of a chain, given a reader of its arguments. -/
def Step.decodeWith (term : Decoder Term) : Decoder Step := fun r j => do
  let given ← Decoder.record
    ["name", "kind", "value_type", "params", "args", "generic_args", "reflected", "decl"] r j
  let name ← given.required "name" Decoder.text
  let kind ← given.required "kind" StepKind.decode
  let type ← given.required "value_type" Ty.decode
  let params ← given.list "params" Param.decode
  let args ← given.list "args" term
  let typeArgs ← given.list "generic_args" Ty.decode
  let reflected ← given.withDefault "reflected" false Decoder.bool
  let decl ← given.optional "decl" DeclId.decode
  return { name, kind, type, params, args, typeArgs, reflected, decl }

/-- The root of a chain, given a reader of values. -/
def ChainRoot.decodeWith (term : Decoder Term) : Decoder ChainRoot := fun r j => do
  let v ← Decoder.variant r j
  match v.name with
  | "Static" => ChainRoot.ofType <$> v.payloadAs Ty.decode
  | "Instance" => ChainRoot.ofValue <$> v.payloadAs term
  | "This" => (fun _ => ChainRoot.self) <$> v.unit
  | _ => none

def Term.decodeFuel : Nat → Decoder Term
  | 0 => fun _ _ => none
  | fuel + 1 => fun r j => do
    let v ← Decoder.variant r j
    match v.name with
    | "Unassigned" => (fun _ => Term.unassigned) <$> v.unit
    | "Literal" => Term.literal <$> v.payloadAs Literal.decode
    | "Variable" => Term.variable <$> v.payloadAs VarRef.decode
    | "Type" => Term.typeOf <$> v.payloadAs Ty.decode
    | "This" => (fun _ => Term.self) <$> v.unit
    | "NodeOutput" =>
      let given ← v.fields ["node", "port"]
      return .output (← given.required "node" NodeId.decode)
        (← given.required "port" Decoder.uint16)
    | "Collection" =>
      let given ← v.fields ["kind", "element", "items"]
      return .collection (← given.required "kind" CollectionKind.decode)
        (← given.required "element" Ty.decode)
        (← given.required "items" (Decoder.list (Term.decodeFuel fuel)))
    | "Chain" =>
      let given ← v.fields ["root", "items"]
      return .chain (← given.required "root" (ChainRoot.decodeWith (Term.decodeFuel fuel)))
        (← given.required "items" (Decoder.list (Step.decodeWith (Term.decodeFuel fuel))))
    | _ => none

def Term.decode : Decoder Term := fun r j => Term.decodeFuel (r.levels + 1) r j

def Step.decode : Decoder Step := Step.decodeWith Term.decode

/-! ## Declarations -/

def AttributeUse.decode : Decoder AttributeUse := fun r j => do
  let given ← Decoder.record ["ty", "args"] r j
  let type ← given.required "ty" Ty.decode
  let args ← given.list "args" Literal.decode
  return { type, args }

def VariableDecl.decode : Decoder VariableDecl := fun r j => do
  let given ← Decoder.record ["id", "name", "ty", "default", "modifiers", "attributes"] r j
  let id ← given.required "id" DeclId.decode
  let name ← given.required "name" Decoder.text
  let type ← given.required "ty" Ty.decode
  let default ← given.optional "default" Literal.decode
  let modifiers ← given.withDefault "modifiers" {} Modifiers.decode
  let attributes ← given.list "attributes" AttributeUse.decode
  return { id, name, type, default, modifiers, attributes }

def ParamDecl.decode : Decoder ParamDecl := fun r j => do
  let given ← Decoder.record ["name", "ty", "modifier", "default"] r j
  let name ← given.required "name" Decoder.text
  let type ← given.required "ty" Ty.decode
  let passing ← given.withDefault "modifier" .byValue Passing.decode
  let default ← given.optional "default" Literal.decode
  return { name, type, passing, default }

def FunctionDecl.decode : Decoder FunctionDecl := fun r j => do
  let given ← Decoder.record
    ["id", "name", "return_type", "params", "generic_params", "modifiers", "entry", "locals",
      "attributes"] r j
  let id ← given.required "id" DeclId.decode
  let name ← given.required "name" Decoder.text
  let returnType ← given.withDefault "return_type" .void Ty.decode
  let params ← given.list "params" ParamDecl.decode
  let typeParams ← given.list "generic_params" Decoder.text
  let modifiers ← given.withDefault "modifiers" {} Modifiers.decode
  let entry ← given.optional "entry" NodeId.decode
  let locals ← given.list "locals" VariableDecl.decode
  let attributes ← given.list "attributes" AttributeUse.decode
  return { id, name, returnType, params, typeParams, modifiers, entry, locals, attributes }

def PropertyDecl.decode : Decoder PropertyDecl := fun r j => do
  let given ← Decoder.record ["id", "name", "ty", "modifiers", "getter", "setter", "attributes"] r j
  let id ← given.required "id" DeclId.decode
  let name ← given.required "name" Decoder.text
  let type ← given.required "ty" Ty.decode
  let modifiers ← given.withDefault "modifiers" {} Modifiers.decode
  let getter ← given.optional "getter" NodeId.decode
  let setter ← given.optional "setter" NodeId.decode
  let attributes ← given.list "attributes" AttributeUse.decode
  return { id, name, type, modifiers, getter, setter, attributes }

def ConstructorDecl.decode : Decoder ConstructorDecl := fun r j => do
  let given ← Decoder.record ["id", "params", "modifiers", "entry"] r j
  let id ← given.required "id" DeclId.decode
  let params ← given.list "params" ParamDecl.decode
  let modifiers ← given.withDefault "modifiers" .openToAll Modifiers.decode
  let entry ← given.optional "entry" NodeId.decode
  return { id, params, modifiers, entry }

def EventDecl.decode : Decoder EventDecl := fun r j => do
  let given ← Decoder.record ["id", "name", "params", "entry"] r j
  let id ← given.required "id" DeclId.decode
  let name ← given.required "name" Decoder.text
  let params ← given.list "params" ParamDecl.decode
  let entry ← given.optional "entry" NodeId.decode
  return { id, name, params, entry }

def ClassDecl.decode : Decoder ClassDecl := fun r j => do
  let given ← Decoder.record
    ["name", "namespace", "usings", "modifiers", "base", "interfaces", "attributes", "variables",
      "functions", "properties", "constructors", "events"] r j
  let name ← given.required "name" Decoder.text
  let space ← given.optional "namespace" Decoder.text
  let usings ← given.list "usings" Decoder.text
  let modifiers ← given.withDefault "modifiers" .openToAll Modifiers.decode
  let base ← given.optional "base" Ty.decode
  let interfaces ← given.list "interfaces" Ty.decode
  let attributes ← given.list "attributes" AttributeUse.decode
  let fields ← given.list "variables" VariableDecl.decode
  let functions ← given.list "functions" FunctionDecl.decode
  let properties ← given.list "properties" PropertyDecl.decode
  let constructors ← given.list "constructors" ConstructorDecl.decode
  let events ← given.list "events" EventDecl.decode
  return ⟨name, space, usings, modifiers, base, interfaces, attributes, fields, functions,
    properties, constructors, events⟩

/-! ## Nodes -/

def EntryPoint.decode : Decoder EntryPoint := fun r j => do
  let given ← Decoder.record ["owner", "kind", "node"] r j
  let owner ← given.required "owner" DeclId.decode
  let kind ← given.required "kind" EntryKind.decode
  let node ← given.required "node" NodeId.decode
  return { owner, kind, node }

def FlowPort.decode : Decoder FlowPort := fun r j => do
  let given ← Decoder.record ["name", "target"] r j
  let name ← given.required "name" Decoder.text
  let target ← given.optional "target" NodeId.decode
  return { name, target }

def ValuePort.decode : Decoder ValuePort := fun r j => do
  let given ← Decoder.record ["name", "value"] r j
  let name ← given.required "name" Decoder.text
  let value ← given.required "value" Term.decode
  return { name, value }

def SwitchArm.decode : Decoder SwitchArm := fun r j => do
  let given ← Decoder.record ["labels", "target"] r j
  let labels ← given.required "labels" (Decoder.list Literal.decode)
  let target ← given.optional "target" NodeId.decode
  return { labels, target }

namespace Node

/-- The fields of each kind of node, in order. -/
def fieldNames : List (String × List String) :=
  [("sequence", ["outputs"]),
    ("branch", ["condition", "on_true", "on_false", "next"]),
    ("switch", ["value", "cases", "default", "next"]),
    ("for_loop", ["start", "end", "step", "body", "next"]),
    ("for_each", ["collection", "element", "body", "next"]),
    ("while", ["condition", "body", "next"]),
    ("invoke", ["call", "next"]),
    ("set_value", ["target", "value", "op", "next"]),
    ("local_variable", ["name", "ty", "value", "next"]),
    ("return", ["value"]),
    ("wait", ["seconds", "next"]),
    ("state_scope", ["body", "next"]),
    ("stop_unit", ["unit", "next"]),
    ("unit_status", ["unit", "query"]),
    ("literal", ["value"]),
    ("member", ["value"]),
    ("operator", ["op", "operands", "cast"]),
    ("lambda", ["params", "return_type", "body"])]

/-- The node of a kind from its fields. -/
def ofRecord (kind : String) (given : Record) : Option Node := do
  match kind with
  | "sequence" =>
    return .sequence (← given.required "outputs" (Decoder.list (Decoder.optional NodeId.decode)))
  | "branch" =>
    return .branch (← given.required "condition" Term.decode)
      (← given.optional "on_true" NodeId.decode) (← given.optional "on_false" NodeId.decode)
      (← given.optional "next" NodeId.decode)
  | "switch" =>
    return .switch (← given.required "value" Term.decode) (← given.list "cases" SwitchArm.decode)
      (← given.optional "default" NodeId.decode) (← given.optional "next" NodeId.decode)
  | "for_loop" =>
    return .forLoop (← given.required "start" Term.decode) (← given.required "end" Term.decode)
      (← given.withDefault "step" .unassigned Term.decode)
      (← given.optional "body" NodeId.decode) (← given.optional "next" NodeId.decode)
  | "for_each" =>
    return .forEach (← given.required "collection" Term.decode)
      (← given.required "element" Ty.decode)
      (← given.optional "body" NodeId.decode) (← given.optional "next" NodeId.decode)
  | "while" =>
    return .whileLoop (← given.required "condition" Term.decode)
      (← given.optional "body" NodeId.decode) (← given.optional "next" NodeId.decode)
  | "invoke" =>
    return .invoke (← given.required "call" Term.decode) (← given.optional "next" NodeId.decode)
  | "set_value" =>
    return .setValue (← given.required "target" Term.decode) (← given.required "value" Term.decode)
      (← given.withDefault "op" .assign AssignOp.decode) (← given.optional "next" NodeId.decode)
  | "local_variable" =>
    return .localVariable (← given.required "name" Decoder.text) (← given.required "ty" Ty.decode)
      (← given.withDefault "value" .unassigned Term.decode) (← given.optional "next" NodeId.decode)
  | "return" => return .returnValue (← given.withDefault "value" .unassigned Term.decode)
  | "wait" =>
    return .wait (← given.withDefault "seconds" .unassigned Term.decode)
      (← given.optional "next" NodeId.decode)
  | "state_scope" =>
    return .stateScope (← given.optional "body" NodeId.decode)
      (← given.optional "next" NodeId.decode)
  | "stop_unit" =>
    return .stopUnit (← given.nullable "unit" NodeId.decode) (← given.optional "next" NodeId.decode)
  | "unit_status" =>
    return .unitStatus (← given.nullable "unit" NodeId.decode)
      (← given.required "query" UnitQuery.decode)
  | "literal" => return .literal (← given.required "value" Literal.decode)
  | "member" => return .member (← given.required "value" Term.decode)
  | "operator" =>
    return .operator (← given.required "op" Operator.decode)
      (← given.required "operands" (Decoder.list Term.decode)) (← given.optional "cast" Ty.decode)
  | "lambda" =>
    return .lambda (← given.list "params" ParamDecl.decode)
      (← given.withDefault "return_type" .void Ty.decode) (← given.optional "body" NodeId.decode)
  | _ => none

/-- The kind of a node and its remaining fields. In an object the kind may stand anywhere, but once;
in an array it comes first. -/
def kindAndRest : Json → Option (String × Json)
  | .object members =>
    match members.filter (·.1 == "kind") with
    | [(_, .text kind)] => some (kind, .object (members.filter (·.1 != "kind")))
    | _ => none
  | .array (.text kind :: items) => some (kind, .array items)
  | _ => none

/-- A node. Its kind decides how the rest is read, so the whole value is taken in first: every part
of it has to be readable and within the limit, also one that no field asks for. -/
def decode : Decoder Node := fun r j => do
  let (kind, rest) ← kindAndRest j
  let (_, names) ← fieldNames.find? (·.1 == kind)
  if j.depth ≤ r.levels && j.isReadable then
    let given ← Decoder.record names { r with insideNode := true } rest
    ofRecord kind given
  else none

end Node

/-! ## Documents -/

namespace Document

def decodeEntry : Decoder (NodeId × Node) := fun r j => do
  let given ← Decoder.record ["id", "node"] r j
  return (← given.required "id" NodeId.decode, ← given.required "node" Node.decode)

def decode : Decoder (Document Node) := fun r j => do
  let given ← Decoder.record ["name", "class", "nodes"] r j
  let name ← given.required "name" Decoder.text
  let classDecl ← given.required "class" ClassDecl.decode
  let nodes ← given.list "nodes" decodeEntry
  return { name, classDecl, nodes }

/-- The document a value describes. -/
def ofJson (j : Json) : Except GraphError (Document Node) :=
  match decode { levels := Decoder.textLevels } j with
  | some d => .ok d
  | none => .error .invalidDocument

/-- The document a text describes. -/
def parse (text : String) : Except GraphError (Document Node) :=
  match Json.parse? text with
  | some j => ofJson j
  | none => .error .invalidDocument

end Document

end FlowClass
