import FlowClass.Json.Basic
import FlowClass.Model.Graph
import FlowClass.Model.Node

/-!
# Documents as JSON values

A variant is written as its name, or as an object with the name as its only member. Optional fields
and most lists are left out when they are empty; a node writes all its fields, and its kind first.
-/

namespace FlowClass

namespace Json

/-- The members of a record, without the fields that are left out. -/
def members (entries : List (String × Option Json)) : List (String × Json) :=
  entries.filterMap fun entry => entry.2.map (entry.1, ·)

/-- A record with some of its fields left out. -/
def ofEntries (entries : List (String × Option Json)) : Json :=
  .object (members entries)

/-- A list that is left out when it is empty. -/
def nonempty (items : List Json) : Option Json :=
  if items.isEmpty then none else some (.array items)

/-- A variant with a payload. -/
def tagged (name : String) (payload : Json) : Json :=
  .object [(name, payload)]

end Json

open Json (nonempty)

def NodeId.toJson (id : NodeId) : Json := .ofNat id.val.toNat

def DeclId.toJson (id : DeclId) : Json := .ofNat id.val.toNat

def Operator.toJson (op : Operator) : Json := .text op.kindName

def AssignOp.toJson (op : AssignOp) : Json := .text op.kindName

def Scalar.toJson (s : Scalar) : Json := .text s.kindName

def EntryKind.toJson (k : EntryKind) : Json := .text k.kindName

def UnitQuery.toJson (q : UnitQuery) : Json := .text q.methodName

def TypeSort.kindName : TypeSort → String
  | .ofClass => "Class"
  | .ofStruct => "Struct"
  | .ofEnum => "Enum"
  | .ofInterface => "Interface"
  | .ofDelegate => "Delegate"

def TypeSort.all : List TypeSort := [.ofClass, .ofStruct, .ofEnum, .ofInterface, .ofDelegate]

def TypeSort.toJson (s : TypeSort) : Json := .text s.kindName

mutual

def Ty.toJson : Ty → Json
  | .void => .text "Void"
  | .scalar s => .tagged "Primitive" s.toJson
  | .named space name args sort =>
    .tagged "Named" (.ofEntries
      [("namespace", space.map .text), ("name", some (.text name)),
        ("generics", nonempty (Ty.toJsons args)), ("kind", some sort.toJson)])
  | .array element rank =>
    .tagged "Array" (.object [("element", Ty.toJson element), ("rank", .ofNat rank.toNat)])
  | .nullable inner => .tagged "Nullable" (Ty.toJson inner)
  | .typeParam name => .tagged "GenericParam" (.text name)
  | .generated name => .tagged "Generated" (.text name)

def Ty.toJsons : List Ty → List Json
  | [] => []
  | t :: ts => Ty.toJson t :: Ty.toJsons ts

end

def Access.kindName : Access → String
  | .everyone => "Public"
  | .ownClass => "Private"
  | .derived => "Protected"
  | .assembly => "Internal"

def Access.all : List Access := [.everyone, .ownClass, .derived, .assembly]

def Access.toJson (a : Access) : Json := .text a.kindName

def Modifiers.toJson (m : Modifiers) : Json :=
  .object [("visibility", m.access.toJson), ("is_static", .bool m.isStatic),
    ("is_abstract", .bool m.isAbstract), ("is_virtual", .bool m.isVirtual),
    ("is_override", .bool m.isOverride), ("is_sealed", .bool m.isSealed),
    ("is_readonly", .bool m.isReadonly), ("is_const", .bool m.isConst),
    ("is_partial", .bool m.isPartial)]

mutual

def Literal.toJson : Literal → Json
  | .null => .text "Null"
  | .bool b => .tagged "Bool" (.bool b)
  | .char c => .tagged "Char" (.text (String.singleton c))
  | .string s => .tagged "String" (.text s)
  | .integer value type =>
    .tagged "Integer" (.object [("value", .ofInt64 value), ("ty", type.toJson)])
  | .unsigned value type =>
    .tagged "Unsigned" (.object [("value", .ofUInt64 value), ("ty", type.toJson)])
  | .float value => .tagged "Float" (.ofDouble value)
  | .double value => .tagged "Double" (.ofDouble value)
  | .decimal digits => .tagged "Decimal" (.text digits)
  | .enumMember type member =>
    .tagged "Enum" (.object [("ty", type.toJson), ("variant", .text member)])
  | .struct type components =>
    .tagged "Struct"
      (.object [("ty", type.toJson), ("components", .ofList Json.ofDouble components)])
  | .array element items =>
    .tagged "Array"
      (.object [("element", element.toJson), ("items", .array (Literal.toJsons items))])
  | .list element items =>
    .tagged "List"
      (.object [("element", element.toJson), ("items", .array (Literal.toJsons items))])
  | .default type => .tagged "Default" type.toJson

def Literal.toJsons : List Literal → List Json
  | [] => []
  | l :: ls => Literal.toJson l :: Literal.toJsons ls

end

def VarRef.toJson : VarRef → Json
  | .field decl => .tagged "Field" decl.toJson
  | .localOf function decl =>
    .tagged "Local" (.object [("function", function.toJson), ("variable", decl.toJson)])
  | .parameter owner index =>
    .tagged "Parameter" (.object [("owner", owner.toJson), ("index", .ofUInt64 index)])
  | .setterValue => .text "SetterValue"

def CollectionKind.toJson : CollectionKind → Json
  | .array => .text "Array"
  | .list => .text "List"

def StepKind.kindName : StepKind → String
  | .field => "Field"
  | .property => "Property"
  | .method => "Method"
  | .constructor => "Constructor"
  | .indexer => "Indexer"
  | .operator => "Operator"

def StepKind.all : List StepKind := [.field, .property, .method, .constructor, .indexer, .operator]

def StepKind.toJson (k : StepKind) : Json := .text k.kindName

def Passing.kindName : Passing → String
  | .byValue => "None"
  | .byRef => "Ref"
  | .byOut => "Out"
  | .byIn => "In"
  | .variadic => "Params"

def Passing.all : List Passing := [.byValue, .byRef, .byOut, .byIn, .variadic]

def Passing.toJson (p : Passing) : Json := .text p.kindName

def Param.toJson (p : Param) : Json :=
  .object [("name", .text p.name), ("ty", p.type.toJson), ("modifier", p.passing.toJson)]

mutual

def Term.toJson : Term → Json
  | .unassigned => .text "Unassigned"
  | .literal value => .tagged "Literal" value.toJson
  | .variable ref => .tagged "Variable" ref.toJson
  | .typeOf type => .tagged "Type" type.toJson
  | .self => .text "This"
  | .output node port =>
    .tagged "NodeOutput" (.object [("node", node.toJson), ("port", .ofNat port.toNat)])
  | .collection kind element items =>
    .tagged "Collection" (.object
      [("kind", kind.toJson), ("element", element.toJson), ("items", .array (Term.toJsons items))])
  | .chain root steps =>
    .tagged "Chain" (.object
      [("root", ChainRoot.toJson root), ("items", .array (Step.toJsons steps))])

def ChainRoot.toJson : ChainRoot → Json
  | .ofType type => .tagged "Static" type.toJson
  | .ofValue value => .tagged "Instance" (Term.toJson value)
  | .self => .text "This"

def Step.toJson : Step → Json
  | ⟨name, kind, type, params, args, typeArgs, reflected, decl⟩ =>
    .ofEntries
      [("name", some (.text name)), ("kind", some kind.toJson), ("value_type", some type.toJson),
        ("params", nonempty (params.map Param.toJson)), ("args", nonempty (Term.toJsons args)),
        ("generic_args", nonempty (typeArgs.map Ty.toJson)), ("reflected", some (.bool reflected)),
        ("decl", decl.map DeclId.toJson)]

def Term.toJsons : List Term → List Json
  | [] => []
  | t :: ts => Term.toJson t :: Term.toJsons ts

def Step.toJsons : List Step → List Json
  | [] => []
  | s :: ss => Step.toJson s :: Step.toJsons ss

end

def AttributeUse.toJson (a : AttributeUse) : Json :=
  .ofEntries [("ty", some a.type.toJson), ("args", nonempty (a.args.map Literal.toJson))]

def VariableDecl.toJson (v : VariableDecl) : Json :=
  .ofEntries
    [("id", some v.id.toJson), ("name", some (.text v.name)), ("ty", some v.type.toJson),
      ("default", v.default.map Literal.toJson), ("modifiers", some v.modifiers.toJson),
      ("attributes", nonempty (v.attributes.map AttributeUse.toJson))]

def ParamDecl.toJson (p : ParamDecl) : Json :=
  .ofEntries
    [("name", some (.text p.name)), ("ty", some p.type.toJson),
      ("modifier", some p.passing.toJson), ("default", p.default.map Literal.toJson)]

def FunctionDecl.toJson (f : FunctionDecl) : Json :=
  .ofEntries
    [("id", some f.id.toJson), ("name", some (.text f.name)),
      ("return_type", some f.returnType.toJson),
      ("params", nonempty (f.params.map ParamDecl.toJson)),
      ("generic_params", nonempty (f.typeParams.map .text)),
      ("modifiers", some f.modifiers.toJson), ("entry", f.entry.map NodeId.toJson),
      ("locals", nonempty (f.locals.map VariableDecl.toJson)),
      ("attributes", nonempty (f.attributes.map AttributeUse.toJson))]

def PropertyDecl.toJson (p : PropertyDecl) : Json :=
  .ofEntries
    [("id", some p.id.toJson), ("name", some (.text p.name)), ("ty", some p.type.toJson),
      ("modifiers", some p.modifiers.toJson), ("getter", p.getter.map NodeId.toJson),
      ("setter", p.setter.map NodeId.toJson),
      ("attributes", nonempty (p.attributes.map AttributeUse.toJson))]

def ConstructorDecl.toJson (c : ConstructorDecl) : Json :=
  .ofEntries
    [("id", some c.id.toJson), ("params", nonempty (c.params.map ParamDecl.toJson)),
      ("modifiers", some c.modifiers.toJson), ("entry", c.entry.map NodeId.toJson)]

def EventDecl.toJson (e : EventDecl) : Json :=
  .ofEntries
    [("id", some e.id.toJson), ("name", some (.text e.name)),
      ("params", nonempty (e.params.map ParamDecl.toJson)), ("entry", e.entry.map NodeId.toJson)]

def ClassDecl.toJson (c : ClassDecl) : Json :=
  .ofEntries
    [("name", some (.text c.name)), ("namespace", c.space.map .text),
      ("usings", nonempty (c.usings.map .text)), ("modifiers", some c.modifiers.toJson),
      ("base", c.base.map Ty.toJson), ("interfaces", nonempty (c.interfaces.map Ty.toJson)),
      ("attributes", nonempty (c.attributes.map AttributeUse.toJson)),
      ("variables", some (.ofList VariableDecl.toJson c.fields)),
      ("functions", some (.ofList FunctionDecl.toJson c.functions)),
      ("properties", some (.ofList PropertyDecl.toJson c.properties)),
      ("constructors", some (.ofList ConstructorDecl.toJson c.constructors)),
      ("events", some (.ofList EventDecl.toJson c.events))]

def EntryPoint.toJson (e : EntryPoint) : Json :=
  .object [("owner", e.owner.toJson), ("kind", e.kind.toJson), ("node", e.node.toJson)]

def FlowPort.toJson (p : FlowPort) : Json :=
  .ofEntries [("name", some (.text p.name)), ("target", p.target.map NodeId.toJson)]

def ValuePort.toJson (p : ValuePort) : Json :=
  .object [("name", .text p.name), ("value", p.value.toJson)]

def SwitchArm.toJson (a : SwitchArm) : Json :=
  .object
    [("labels", .ofList Literal.toJson a.labels), ("target", .ofOption NodeId.toJson a.target)]

namespace Node

/-- The name of the node's kind in documents. -/
def kindName : Node → String
  | .sequence .. => "sequence"
  | .branch .. => "branch"
  | .switch .. => "switch"
  | .forLoop .. => "for_loop"
  | .forEach .. => "for_each"
  | .whileLoop .. => "while"
  | .invoke .. => "invoke"
  | .setValue .. => "set_value"
  | .localVariable .. => "local_variable"
  | .returnValue .. => "return"
  | .wait .. => "wait"
  | .stateScope .. => "state_scope"
  | .stopUnit .. => "stop_unit"
  | .unitStatus .. => "unit_status"
  | .literal .. => "literal"
  | .member .. => "member"
  | .operator .. => "operator"
  | .lambda .. => "lambda"

/-- The fields of a node after its kind. -/
def fieldsJson : Node → List (String × Json)
  | .sequence outputs => [("outputs", .ofList (.ofOption NodeId.toJson) outputs)]
  | .branch condition onTrue onFalse next =>
    [("condition", condition.toJson), ("on_true", .ofOption NodeId.toJson onTrue),
      ("on_false", .ofOption NodeId.toJson onFalse), ("next", .ofOption NodeId.toJson next)]
  | .switch value cases default next =>
    [("value", value.toJson), ("cases", .ofList SwitchArm.toJson cases),
      ("default", .ofOption NodeId.toJson default), ("next", .ofOption NodeId.toJson next)]
  | .forLoop start stop step body next =>
    [("start", start.toJson), ("end", stop.toJson), ("step", step.toJson),
      ("body", .ofOption NodeId.toJson body), ("next", .ofOption NodeId.toJson next)]
  | .forEach collection element body next =>
    [("collection", collection.toJson), ("element", element.toJson),
      ("body", .ofOption NodeId.toJson body), ("next", .ofOption NodeId.toJson next)]
  | .whileLoop condition body next =>
    [("condition", condition.toJson), ("body", .ofOption NodeId.toJson body),
      ("next", .ofOption NodeId.toJson next)]
  | .invoke call next => [("call", call.toJson), ("next", .ofOption NodeId.toJson next)]
  | .setValue target value op next =>
    [("target", target.toJson), ("value", value.toJson), ("op", op.toJson),
      ("next", .ofOption NodeId.toJson next)]
  | .localVariable name type value next =>
    [("name", .text name), ("ty", type.toJson), ("value", value.toJson),
      ("next", .ofOption NodeId.toJson next)]
  | .returnValue value => [("value", value.toJson)]
  | .wait seconds next => [("seconds", seconds.toJson), ("next", .ofOption NodeId.toJson next)]
  | .stateScope body next =>
    [("body", .ofOption NodeId.toJson body), ("next", .ofOption NodeId.toJson next)]
  | .stopUnit target next =>
    [("unit", .ofOption NodeId.toJson target), ("next", .ofOption NodeId.toJson next)]
  | .unitStatus target query =>
    [("unit", .ofOption NodeId.toJson target), ("query", query.toJson)]
  | .literal value => [("value", value.toJson)]
  | .member value => [("value", value.toJson)]
  | .operator op operands cast =>
    [("op", op.toJson), ("operands", .ofList Term.toJson operands),
      ("cast", .ofOption Ty.toJson cast)]
  | .lambda params returnType body =>
    [("params", .ofList ParamDecl.toJson params), ("return_type", returnType.toJson),
      ("body", .ofOption NodeId.toJson body)]

def toJson (n : Node) : Json :=
  .object (("kind", .text n.kindName) :: n.fieldsJson)

end Node

def Document.toJson (d : Document Node) : Json :=
  .object [("name", .text d.name), ("class", d.classDecl.toJson),
    ("nodes", .ofList (fun (id, n) => .object [("id", id.toJson), ("node", n.toJson)]) d.nodes)]

end FlowClass
