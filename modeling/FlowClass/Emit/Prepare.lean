import FlowClass.Emit.Flow

/-!
# From declarations to bodies

* `Generation.start` checks the class and looks at the connections of the graph.
* `Emit.prepare` enters every declaration, lets every node register what it needs, and seals the
  classification.
* `Emit.entry` emits the body of one entry point.
-/

namespace FlowClass

/-- A graph that is being generated. -/
structure Generation (ν : Type) where
  env : Env ν
  state : State

namespace Generation

variable {ν : Type} [NodeShape ν]

/-- A generation with nothing emitted yet. -/
def start (graph : Graph ν) (config : Config) : Except GenError (Generation ν) :=
  match graph.classDecl.validate with
  | .error e => .error (.graph e)
  | .ok () =>
    match Connectivity.build graph config.strict with
    | .error e => .error (.analysis e)
    | .ok table =>
      let env : Env ν := { graph, config, table }
      .ok { env, state := State.initial env }

/-- Runs an emission; the state is kept whatever the result. -/
def run {α : Type} (g : Generation ν) (x : Emit ν α) : Except GenError α × Generation ν :=
  match x g.env g.state with
  | (result, state) => (result, { g with state })

end Generation

namespace Emit

variable {ν : Type}

/-! ## Declarations -/

/-- Takes the names that the class, the dispatcher and the runtime object have. -/
def reserveNames : Emit ν Unit := do
  let e ← env
  let c := e.graph.classDecl
  let taken := [c.name, dispatcherName, runtimeProperty, runtimeField]
  modify fun s =>
    { s with
      names := taken.foldl Names.reserve s.names
      imports := (c.usings ++ e.config.usings).foldl Imports.add (s.imports.reserve c.name) }

/-- Names the parameters of a declaration, from the `index`-th on. -/
def registerParams (owner : DeclId) : Nat → List ParamDecl → Emit ν (List ParamSymbol)
  | _, [] => pure []
  | index, p :: ps => do
    let name ← nameFor (.param owner index) p.name
    modify fun s => { s with params := ((owner, index), (name, p.type)) :: s.params }
    let rest ← registerParams owner (index + 1) ps
    return { name, type := p.type, passing := p.passing, default := p.default } :: rest

def registerMethod (key : SymbolKey) (m : MethodSymbol) : Emit ν Unit := fun _ s =>
  match s.symbols.registerMethod s.names (some key) m with
  | .ok (_, symbols, names) => (.ok (), { s with symbols, names })
  | .error what => (.error (.invalid what), s)

def declareVariable (v : VariableDecl) : Emit ν Unit := do
  let _ ← registerVariable
    { key := .decl v.id
      name := v.name
      type := v.type
      storage := .field
      default := v.default
      modifiers := v.modifiers
      attributes := v.attributes
      marker := some (.decl v.id) }

/-- A local belongs to the body of its function. -/
def declareLocal (function : DeclId) (v : VariableDecl) : Emit ν Unit := do
  let body := (← get).symbols.declBody? function
  let _ ← registerVariable
    { key := .decl v.id
      name := v.name
      type := v.type
      storage := (body.map Storage.localTo).getD .unbound
      default := v.default }

def declareFunction (f : FunctionDecl) : Emit ν Unit := do
  let params ← registerParams f.id 0 f.params
  registerMethod (.decl f.id)
    { base := f.name
      name := ""
      returnType := f.returnType
      params
      typeParams := f.typeParams
      modifiers := f.modifiers
      attributes := f.attributes
      marker := some (.decl f.id)
      body := ⟨0⟩ }
  f.locals.forM (declareLocal f.id)

/-- A body for an accessor, if the property has the accessor. -/
def accessorBody (decl : DeclId) (kind : EntryKind) : Option NodeId → Emit ν (Option BodyId)
  | none => pure none
  | some _ => fun _ s =>
    let (body, symbols) := s.symbols.newBody
    (.ok (some body), { s with symbols, accessors := ((decl, kind), body) :: s.accessors })

def declareProperty (p : PropertyDecl) : Emit ν Unit := do
  let s ← get
  let (handle, symbols, names) := s.symbols.registerProperty s.names
    { decl := p.id, name := p.name, type := p.type, modifiers := p.modifiers }
  modify fun s => { s with symbols, names }
  let getter ← accessorBody p.id .getter p.getter
  let setter ← accessorBody p.id .setter p.setter
  let complete (symbol : PropertySymbol) : PropertySymbol :=
    { symbol with attributes := p.attributes, getter, setter }
  modify fun s => { s with symbols := s.symbols.modifyProperty handle complete }

def declareConstructor (c : ConstructorDecl) : Emit ν Unit := do
  let params ← registerParams c.id 0 c.params
  modify fun s =>
    { s with symbols := (s.symbols.registerConstructor (some c.id) params c.modifiers).2 }

def declareEvent (e : EventDecl) : Emit ν Unit := do
  let params ← registerParams e.id 0 e.params
  registerMethod (.decl e.id)
    { base := e.name
      name := ""
      returnType := .void
      params
      marker := some (.decl e.id)
      body := ⟨0⟩ }

/-- Enters every declaration of the class, in order. -/
def registerDeclarations : Emit ν Unit := do
  reserveNames
  let c := (← env).graph.classDecl
  c.fields.forM declareVariable
  c.functions.forM declareFunction
  c.properties.forM declareProperty
  c.constructors.forM declareConstructor
  c.events.forM declareEvent

/-! ## Entry points -/

/-- The body that an entry point fills. -/
def entryBody? (s : State) (e : EntryPoint) : Option BodyId :=
  match e.kind with
  | .getter => s.accessors.lookup (e.owner, .getter)
  | .setter => s.accessors.lookup (e.owner, .setter)
  | _ => s.symbols.declBody? e.owner

/-- The place of an entry point in its declaration, if the two fit. -/
def entryPlace? (c : ClassDecl) (e : EntryPoint) (body : BodyId) (decl : Decl) : Option Place :=
  let place (kind : BodyKind) (name : String) (isStatic : Bool) (returnType : Ty) : Place :=
    { kind, owner := some e.owner, ownerName := name, isStatic, resumable := false
      body, returnType }
  match e.kind, decl with
  | .function, .function f => some (place .function f.name f.modifiers.isStatic f.returnType)
  | .getter, .property p => some (place .getter p.name p.modifiers.isStatic p.type)
  | .setter, .property p => some (place .setter p.name p.modifiers.isStatic .void)
  | .constructor, .constructor k => some (place .constructor c.name k.modifiers.isStatic .void)
  | .event, .event v => some (place .event v.name false .void)
  | _, _ => none

/-- Emits the body of an entry point; `flow` emits a chain. -/
def entryWith (flow : Option NodeId → Emit ν String) (e : EntryPoint) : Emit ν Unit := do
  match entryBody? (← get) e with
  | none => fail (.invalid (.entryWithoutBody e.owner))
  | some body =>
    let c := (← env).graph.classDecl
    match c.get e.owner with
    | .error err => fail (.graph err)
    | .ok decl =>
      match entryPlace? c e body decl with
      | none => fail (.invalid (.entryMismatch e.kind decl.name))
      | some place =>
        let text ← withPlace place (flow (some e.node))
        modify fun s => { s with symbols := s.symbols.setBodyText body text }

/-! ## Nodes and bodies -/

variable [NodeKind ν]

/-- Lets a node register what it needs. -/
def setUpNode (id : NodeId) : Emit ν Unit := do
  let n ← nodeAt id
  match ← attempt (do NodeKind.setUp (← services) id n) with
  | .ok () => pure ()
  | .error e =>
    if (← env).config.isBatched then
      let _ ← recordFailure id e
    else fail (e.inNode id (← get).place.ownerName)

/-- Everything that comes before the bodies. -/
def prepare : Emit ν Unit := do
  registerDeclarations
  (← env).table.ids.forM setUpNode
  sealNodes

/-- Emits the body of an entry point. -/
def entry (e : EntryPoint) : Emit ν Unit := do
  entryWith (← services).flow e

end Emit

end FlowClass
