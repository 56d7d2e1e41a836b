import FlowClass.Code.LiteralText
import FlowClass.Emit.Monad

/-!
# Steps of emission

The operations that nodes and terms are emitted with: spelling types and literals, giving out names,
entering and using variables, and the brackets `withPlace`, `withSplice` and `withScope`, which put
back what they change.
-/

namespace FlowClass.Emit

variable {ν α : Type}

/-! ## Names, types and literals -/

def typeText (type : Ty) : Emit ν String := fun _ s =>
  let (text, imports) := type.text s.imports
  (.ok text, { s with imports })

def typeTexts (types : List Ty) : Emit ν (List String) := fun _ s =>
  let (texts, imports) := Ty.texts types s.imports
  (.ok texts, { s with imports })

def literalText (literal : Literal) : Emit ν String := fun _ s =>
  let (text, imports) := literal.text s.imports
  (.ok text, { s with imports })

def literalTexts (literals : List Literal) : Emit ν (List String) := fun _ s =>
  let (texts, imports) := Literal.texts literals s.imports
  (.ok texts, { s with imports })

def generateName (text : String) : Emit ν String := fun _ s =>
  let (name, names) := s.names.generate text
  (.ok name, { s with names })

def nameFor (owner : SymbolKey) (text : String) : Emit ν String := fun _ s =>
  let (name, names) := s.names.nameFor owner text
  (.ok name, { s with names })

/-- The emitted name of a declaration. -/
def declName? (decl : DeclId) : Emit ν (Option String) := do
  return (← get).symbols.declName? decl

/-- A temporary, under a new name. -/
def temporaryName : Emit ν String := do
  let name ← generateName "temp"
  note (.temporary name)
  return name

/-- Notes that the current body refers to a member that was added. -/
def refer (member : Added) : Emit ν Unit := do
  note (.refer member (← get).place.body)

/-- The runtime object, which the class then has. -/
def runtime : Emit ν String := do
  modify fun s => { s with runtimeUsed := true }
  refer .runtime
  return runtimeProperty

/-! ## Classification -/

def isState (id : NodeId) : Emit ν Bool := fun env s =>
  let (answer, classifier) := s.classifier.isState env.table id
  (.ok answer, { s with classifier })

def isRecursive (id : NodeId) : Emit ν Bool := fun env s =>
  let (answer, classifier) := s.classifier.isRecursive env.table id
  (.ok answer, { s with classifier })

/-- Makes a node a unit; only before bodies are emitted. -/
def registerState (id : NodeId) : Emit ν Unit := fun env s =>
  if s.classifier.isSealed then (.error (.classificationOrder id), s)
  else
    match s.classifier.register env.table id with
    | .ok classifier => (.ok (), { s with classifier })
    | .error e => (.error (.analysis e), s)

def sealNodes : Emit ν Unit := fun env s =>
  let (_, classifier) := s.classifier.sealNodes env.table
  (.ok (), { s with classifier })

/-! ## Variables -/

def registerVariable (v : VariableSymbol) : Emit ν VariableHandle := fun _ s =>
  let (handle, symbols, names) := s.symbols.registerVariable s.names v
  (.ok handle, { s with symbols, names })

/-- The name of a variable that the current body uses. -/
def variableName (handle : VariableHandle) : Emit ν String := do
  let s ← get
  match s.symbols.useVariable handle s.place.body with
  | none => unresolved (.variableHandle handle.index)
  | some (name, symbols) =>
    modify fun s => { s with symbols }
    note (.mention handle s.place.body)
    return name

/-- The name of the variable with a key. -/
def keyedVariable (key : SymbolKey) (what : Missing) : Emit ν String := do
  match (← get).symbols.variableHandle? key with
  | none => unresolved what
  | some handle => variableName handle

/-- The variable that a node has registered for itself. -/
def nodeVariable (node : NodeId) : Emit ν String :=
  keyedVariable (.node node) (.nodeVariable node)

/-- Copies of parameters come before all else in a body. -/
def copyPriority : Int := -100

/-- A parameter; outside the body it belongs to, a field that the body copies it into. -/
def parameter (owner : DeclId) (index : UInt64) : Emit ν String := do
  let s ← get
  match s.params.lookup (owner, index.toNat) with
  | none => unresolved (.parameter owner index)
  | some (name, type) =>
    match s.symbols.declBody? owner with
    | none => unresolved (.parameterBody name)
    | some body =>
      if body = s.place.body then
        note (.parameter owner index.toNat name body)
        return name
      else
        let handle ← registerVariable
          { key := .param owner index.toNat, name, type, storage := .field }
        let field := (((← get).symbols.variableAt? handle).map VariableSymbol.name).getD name
        let copy : Contribution := ⟨copyPriority, field ++ " = " ++ name ++ ";"⟩
        modify fun s => { s with symbols := s.symbols.contribute body copy }
        note (.refer (.copy handle) body)
        refer (.copy handle)
        note (.parameter owner index.toNat field s.place.body)
        return field

/-- A variable as it is seen from the current body. -/
def variableRef : VarRef → Emit ν String
  | .field decl => keyedVariable (.decl decl) (.variable decl)
  | .localOf _ decl => keyedVariable (.decl decl) (.variable decl)
  | .parameter owner index => parameter owner index
  | .setterValue => do
    let place := (← get).place
    demand (place.kind = .setter) (.setterValue place.ownerName)
    return "value"

/-- Code that every constructor runs; the same code of a node is kept once. -/
def registerSetup (node : NodeId) (text : String) : Emit ν Unit :=
  modify fun s => { s with setups := pushNew s.setups (node, text) }

/-! ## Brackets -/

/-- Runs an emission at another place. -/
def withPlace (place : Place) (x : Emit ν α) : Emit ν α := do
  let saved := (← get).place
  modify fun s => { s with place }
  let result ← attempt x
  modify fun s => { s with place := saved }
  ofExcept result

/-- Runs an emission at a place that is made from the current one. -/
def atPlace (change : Place → Place) (x : Emit ν α) : Emit ν α := do
  withPlace (change (← get).place) x

/-- Runs the emission of a statement, and puts around it what was spliced in. -/
def withSplice (x : Emit ν String) : Emit ν String := do
  modify fun s => { s with splices := {} :: s.splices }
  let result ← attempt x
  let splice := (← get).splices.headD {}
  modify fun s => { s with splices := s.splices.tail }
  let text ← ofExcept result
  return Code.lines (splice.enter ++ [text] ++ splice.exit.reverse)

/-- Puts code before, and perhaps after, the statement being emitted. -/
def splice (enter : String) (exit : Option String) : Emit ν Unit := do
  match (← get).splices with
  | [] => fail (.invalid .temporaryOutsideStatement)
  | top :: rest =>
    let top := { top with enter := top.enter ++ [enter], exit := top.exit ++ exit.toList }
    modify fun s => { s with splices := top :: rest }

/-- Runs an emission inside the body of a loop. -/
def withScope (node : NodeId) (x : Emit ν α) : Emit ν α := do
  modify fun s => { s with scopes := node :: s.scopes }
  let result ← attempt x
  modify fun s => { s with scopes := s.scopes.tail }
  ofExcept result

def inScope (node : NodeId) : Emit ν Bool := do
  return (← get).scopes.contains node

/-- Runs the emission of an output, which must not need itself. -/
def withReading (node : NodeId) (port : UInt16) (x : Emit ν α) : Emit ν α := do
  modify fun s => { s with reading := (node, port) :: s.reading }
  let result ← attempt x
  modify fun s => { s with reading := s.reading.tail }
  ofExcept result

end FlowClass.Emit

namespace FlowClass

/-- A text between markers, in a pass that traces. -/
def Config.mark (c : Config) (id : MarkerId) (text : String) : String :=
  if c.traceable && !text.isEmpty then Marker.wrap id text else text

end FlowClass
