import FlowClass.Emit.Prepare

/-!
# Assembly

When every body is emitted, the members of the class are written in a fixed order: fields,
properties, constructors, methods, the dispatcher, and the methods for access by name. The class is
put into a file with its imports and its namespace.
-/

namespace FlowClass

/-- A generated file. -/
structure Artifact where
  typeName : String
  fileName : String
  /-- The text, without markers. -/
  source : String
  /-- Only in a pass that traces. -/
  sourceMap : Option SourceMap

/-- The written parts of a class. -/
structure TypeParts where
  attributes : List String := []
  /-- What stands before the opening brace. -/
  declaration : String
  fields : List String := []
  properties : List String := []
  constructors : List String := []
  methods : List String := []
deriving DecidableEq

namespace Assembly

open Code

/-! ## Layout of classes and files -/

/-- The fields are one block; a blank line goes before every other member. -/
def typeText (p : TypeParts) : String :=
  let fields := if p.fields.isEmpty then [] else [joinText "\n" p.fields]
  let body := joinText "\n\n" (fields ++ p.properties ++ p.constructors ++ p.methods)
  lines (p.attributes ++ [p.declaration ++ " " ++ braced body])

/-- The comment that a file starts with. -/
def header : String :=
  "// <auto-generated>\n" ++
    "//     Generated by flowgen. Changes will be lost when the graph is regenerated.\n" ++
    "// </auto-generated>\n" ++
    "#pragma warning disable"

def fileText (types usings : List String) (space : Option String) (withHeader : Bool) : String :=
  let types := joinText "\n\n" types
  let content :=
    match space with
    | none => types
    | some space => if space.isEmpty then types else "namespace " ++ space ++ " " ++ braced types
  let imports :=
    if usings.isEmpty then []
    else [joinText "\n" (usings.map fun space => "using " ++ space ++ ";")]
  joinText "\n\n" ((if withHeader then [header] else []) ++ imports ++ [content]) ++ "\n"

/-! ## Members -/

/-- What writing a member may change. -/
abbrev Writing := StateM Imports

def typeName (type : Ty) : Writing String := type.text

def literal (l : Literal) : Writing String := l.text

/-- A name without the ending that attribute types have. -/
def dropAttribute (name : String) : String :=
  let ending := "Attribute".toList.reverse
  match Text.dropLead ending name.toList.reverse with
  | some (c :: rest) => String.ofList (c :: rest).reverse
  | _ => name

def attributeText (a : AttributeUse) : Writing String := do
  let name := dropAttribute (← typeName a.type)
  if a.args.isEmpty then return "[" ++ name ++ "]"
  else return "[" ++ name ++ "(" ++ joinText ", " (← a.args.mapM literal) ++ ")]"

/-- The initial value of a field or parameter. -/
def initialText : Option Literal → Writing String
  | none => pure ""
  | some l => do return " = " ++ (← literal l)

def markText (config : Config) (id : Option MarkerId) (text : String) : String :=
  match id with
  | none => text
  | some id => config.mark id text

def field (config : Config) (v : VariableSymbol) : Writing String := do
  let attributes ← v.attributes.mapM attributeText
  let type ← typeName v.type
  let initial ← initialText v.default
  let declaration := v.modifiers.render false ++ type ++ " " ++ v.name ++ initial ++ ";"
  return markText config v.marker (joinText "\n" (attributes ++ [declaration]))

def param (p : ParamSymbol) : Writing String := do
  let mark := if p.passing = .variadic then "params " else p.passing.callMark
  let type ← typeName p.type
  let initial ← initialText p.default
  return mark ++ type ++ " " ++ p.name ++ initial

def params (ps : List ParamSymbol) : Writing String := do
  return joinText ", " (← ps.mapM param)

def localDeclaration (v : VariableSymbol) : Writing String := do
  let type ← typeName v.type
  match v.default with
  | none => return (Fragment.declare type v.name none).text
  | some l => return (Fragment.declare type v.name (some (← literal l))).text

/-- The emitted text of a body. -/
def bodyText (symbols : SymbolTable) (body : BodyId) : String :=
  ((symbols.body? body).bind Body.text).getD ""

/-- The contributions to a body by priority. -/
def contributions (symbols : SymbolTable) (body : BodyId) : List Contribution :=
  sortBy (fun a b => a.priority ≤ b.priority)
    (((symbols.body? body).map Body.contributions).getD [])

/-- A body with its locals before it, and the contributions before and after its text. If control
can reach the end of a body that owes a value, it returns a default. -/
def renderBody (symbols : SymbolTable) (body : BodyId) (text : String) (returnType : Ty) :
    Writing String := do
  let locals ← (symbols.localsOf body).mapM localDeclaration
  let added := contributions symbols body
  let before := (added.filter fun c => c.priority < 0).map Contribution.text
  let after := (added.filter fun c => 0 ≤ c.priority).map Contribution.text
  let rendered := lines (locals ++ before ++ [text] ++ after)
  if returnType.isVoid || endsWithJump rendered then return rendered
  else
    let type ← typeName returnType
    return lines [rendered, (Fragment.returnValue (some ("default(" ++ type ++ ")"))).text]

/-- An accessor, if the property has it. -/
def accessor (symbols : SymbolTable) (keyword : String) (returnType : Ty) :
    Option BodyId → Writing (List String)
  | none => pure []
  | some body => do
    let rendered ← renderBody symbols body (bodyText symbols body) returnType
    return [keyword ++ " " ++ braced rendered]

def property (config : Config) (symbols : SymbolTable) (p : PropertySymbol) : Writing String := do
  let attributes ← p.attributes.mapM attributeText
  let type ← typeName p.type
  let head := p.modifiers.render false ++ type ++ " " ++ p.name ++ " "
  let getter ← accessor symbols "get" p.type p.getter
  let setter ← accessor symbols "set" .void p.setter
  let accessors := getter ++ setter
  let body := if accessors.isEmpty then "\x7b get; set; \x7d" else braced (joinText "\n" accessors)
  return config.mark (.decl p.decl) (joinText "\n" (attributes ++ [head ++ body]))

/-- Every constructor but a static one starts with the code that nodes have asked for. -/
def constructor (config : Config) (className : String) (symbols : SymbolTable)
    (setups : List String) (c : ConstructorSymbol) : Writing String := do
  let params ← params c.params
  let body ← renderBody symbols c.body (bodyText symbols c.body) .void
  let body := if c.modifiers.isStatic then body else lines (setups ++ [body])
  let text := c.modifiers.render false ++ className ++ "(" ++ params ++ ") " ++ braced body
  return markText config (c.decl.map MarkerId.decl) text

/-- A class that declares no constructor has one if there is code for it. -/
def constructors (config : Config) (className : String) (symbols : SymbolTable)
    (setups : List String) : Writing (List String) :=
  if symbols.constructors.isEmpty then
    if setups.isEmpty then pure []
    else pure [Modifiers.openToAll.render false ++ className ++ "() " ++ braced (lines setups)]
  else symbols.constructors.mapM (constructor config className symbols setups)

def method (config : Config) (symbols : SymbolTable) (m : MethodSymbol) : Writing String := do
  let attributes ← m.attributes.mapM attributeText
  let returnType ← typeName m.returnType
  let typeParams := if m.typeParams.isEmpty then "" else "<" ++ joinText ", " m.typeParams ++ ">"
  let params ← params m.params
  let body ← renderBody symbols m.body (bodyText symbols m.body) m.returnType
  let head := m.modifiers.render false ++ returnType ++ " " ++ m.name ++ typeParams
  let text := head ++ "(" ++ params ++ ") " ++ braced body
  return markText config m.marker (joinText "\n" (attributes ++ [text]))

/-! ## Units -/

def caseBody (symbols : SymbolTable) (u : StateUnit) : Writing (Nat × String) := do
  return (u.slot, ← renderBody symbols u.body u.text .void)

def dispatcher (symbols : SymbolTable) (units : StateUnits) : Writing (Option String) := do
  if units.units.isEmpty then return none
  else
    let enumerator ← typeName .enumerator
    return dispatcherText enumerator (← units.cases.mapM (caseBody symbols))

/-- The text before and after the last dot. -/
def splitLastDot? (s : String) : Option (String × String) :=
  match Text.cutAt ['.'] s.toList.reverse with
  | none => none
  | some (name, space) => some (String.ofList space.reverse, String.ofList name.reverse)

/-- The spelling of the runtime object's type. -/
def runtimeTypeText (config : Config) : Writing String :=
  match splitLastDot? config.runtimeType with
  | none => pure config.runtimeType
  | some (space, name) => typeName (.ofClass space name)

/-- The field of the runtime object and the property that fills it when it is first read. -/
def runtimeMembers (config : Config) (hasDispatcher : Bool) : Writing (String × String) := do
  let type ← runtimeTypeText config
  let dispatch := if hasDispatcher then dispatcherName else "null"
  let create := runtimeField ++ " = new " ++ type ++ "(this, " ++ dispatch ++ ");"
  let fill := (Fragment.ifElse (runtimeField ++ " == null") create none).text
  let getter := lines [fill, "return " ++ runtimeField ++ ";"]
  return ("private " ++ type ++ " " ++ runtimeField ++ ";",
    "private " ++ type ++ " " ++ runtimeProperty ++ " " ++ braced ("get " ++ braced getter))

/-! ## Access by name -/

/-- The variables that can be read and written by name. -/
def accessible (symbols : SymbolTable) : List VariableSymbol :=
  symbols.fields.filter fun v => v.isDeclared && !v.modifiers.isStatic && !v.modifiers.isConst

/-- The name a variable has in the class declaration. -/
def declaredName (c : ClassDecl) (v : VariableSymbol) : String :=
  ((c.fields.find? fun d => .decl d.id = v.key).map VariableDecl.name).getD v.name

def getCase (c : ClassDecl) (v : VariableSymbol) : SwitchSection :=
  ⟨[stringLiteral (declaredName c v)], (Fragment.returnValue (some v.name)).text⟩

def setCase (c : ClassDecl) (v : VariableSymbol) : Writing SwitchSection := do
  let type ← typeName v.type
  return ⟨[stringLiteral (declaredName c v)],
    (Fragment.assign v.name ("(" ++ type ++ ")value") .assign).text⟩

/-- New names for the two methods. -/
def accessorNames (names : Names) : String × String :=
  let (getName, names) := names.generate "GetVariable"
  (getName, (names.generate "SetVariable").1)

/-- The two methods, under the given names. -/
def variableAccessors (c : ClassDecl) (symbols : SymbolTable) (getName setName : String) :
    Writing (List String) := do
  let vars := accessible symbols
  let setCases ← vars.mapM (setCase c)
  let getCases := vars.map (getCase c)
  let getBody := lines [(Fragment.switch "name" getCases none).text,
    (Fragment.returnValue (some "null")).text]
  let setBody := (Fragment.switch "name" setCases none).text
  return ["public object " ++ getName ++ "(string name) " ++ braced getBody,
    "public void " ++ setName ++ "(string name, object value) " ++ braced setBody]

/-! ## The whole class -/

/-- The head of a class. -/
def declaration (c : ClassDecl) : Writing String := do
  let parents ← (c.base.toList ++ c.interfaces).mapM typeName
  let head := c.modifiers.render false ++ "class " ++ c.name
  return if parents.isEmpty then head else head ++ " : " ++ joinText ", " parents

/-- The parts of a class after all bodies were emitted. -/
def parts (c : ClassDecl) (config : Config) (s : State) : Writing TypeParts := do
  let attributes ← c.attributes.mapM attributeText
  let declaration ← declaration c
  let dispatcher ← dispatcher s.symbols s.units
  let runtime ←
    if s.runtimeUsed then some <$> runtimeMembers config dispatcher.isSome else pure none
  let fields ← s.symbols.fields.mapM (field config)
  let properties ← s.symbols.properties.mapM (property config s.symbols)
  let constructors ← constructors config c.name s.symbols (s.setups.map (·.2))
  let methods ← s.symbols.methods.mapM (method config s.symbols)
  let accessors ←
    if config.optimizeAccess then
      let (getName, setName) := accessorNames s.names
      variableAccessors c s.symbols getName setName
    else pure []
  return { attributes, declaration, constructors
           fields := fields ++ runtime.toList.map (·.1)
           properties := properties ++ runtime.toList.map (·.2)
           methods := methods ++ dispatcher.toList ++ accessors }

/-- The text of the file, with its markers. -/
def markedText {ν : Type} (g : Generation ν) : String :=
  let env := g.env
  let c := env.graph.classDecl
  let (parts, imports) := (parts c env.config g.state).run g.state.imports
  fileText [typeText parts] imports.sorted env.space env.config.header

end Assembly

/-- The file of a graph whose bodies were emitted. -/
def Generation.finish {ν : Type} (g : Generation ν) (order : List MarkerId) :
    Except GenError Artifact :=
  let name := g.env.graph.classDecl.name
  let text := Assembly.markedText g
  if g.env.config.traceable then
    match Marker.extract order text with
    | .error e => .error (.malformedMarker e)
    | .ok (source, map) => .ok ⟨name, name ++ ".cs", source, some map⟩
  else .ok ⟨name, name ++ ".cs", text, none⟩

end FlowClass
