import FlowClass.Model.Term

/-!
# Declarations of a class

A graph describes one class. Functions, property accessors, constructors and events name the node
their body starts from; these are the entry points of the graph.
-/

namespace FlowClass

/-- An attribute written before a declaration. -/
structure AttributeUse where
  type : Ty
  args : List Literal := []

/-- A variable of the class, or a local of a function. -/
structure VariableDecl where
  id : DeclId
  name : String
  type : Ty
  default : Option Literal := none
  modifiers : Modifiers := {}
  attributes : List AttributeUse := []

structure ParamDecl where
  name : String
  type : Ty
  passing : Passing := .byValue
  default : Option Literal := none

structure FunctionDecl where
  id : DeclId
  name : String
  returnType : Ty := .void
  params : List ParamDecl := []
  typeParams : List String := []
  modifiers : Modifiers := {}
  entry : Option NodeId := none
  locals : List VariableDecl := []
  attributes : List AttributeUse := []

structure PropertyDecl where
  id : DeclId
  name : String
  type : Ty
  modifiers : Modifiers := {}
  getter : Option NodeId := none
  setter : Option NodeId := none
  attributes : List AttributeUse := []

/-- A property without accessor bodies. -/
def PropertyDecl.isAuto (p : PropertyDecl) : Bool :=
  p.getter.isNone && p.setter.isNone

structure ConstructorDecl where
  id : DeclId
  params : List ParamDecl := []
  modifiers : Modifiers := .openToAll
  entry : Option NodeId := none

/-- A method that the host calls. -/
structure EventDecl where
  id : DeclId
  name : String
  params : List ParamDecl := []
  entry : Option NodeId := none

structure ClassDecl where
  name : String
  space : Option String := none
  usings : List String := []
  modifiers : Modifiers := .openToAll
  base : Option Ty := none
  interfaces : List Ty := []
  attributes : List AttributeUse := []
  fields : List VariableDecl := []
  functions : List FunctionDecl := []
  properties : List PropertyDecl := []
  constructors : List ConstructorDecl := []
  events : List EventDecl := []

/-- What kind of body an entry point starts. -/
inductive EntryKind where
  | function
  | getter
  | setter
  | constructor
  | event
deriving DecidableEq

def EntryKind.kindName : EntryKind → String
  | .function => "Function"
  | .getter => "Getter"
  | .setter => "Setter"
  | .constructor => "Constructor"
  | .event => "Event"

/-- A body, by the declaration it belongs to and its first node. -/
structure EntryPoint where
  owner : DeclId
  kind : EntryKind
  node : NodeId
deriving DecidableEq

/-- A declaration that was looked up. -/
inductive Decl where
  | variable (v : VariableDecl)
  | localOf (f : FunctionDecl) (v : VariableDecl)
  | function (f : FunctionDecl)
  | property (p : PropertyDecl)
  | constructor (c : ConstructorDecl)
  | event (e : EventDecl)

namespace Decl

def name : Decl → String
  | .variable v => v.name
  | .localOf _ v => v.name
  | .function f => f.name
  | .property p => p.name
  | .constructor _ => ".ctor"
  | .event e => e.name

def params : Decl → List ParamDecl
  | .function f => f.params
  | .constructor c => c.params
  | .event e => e.params
  | _ => []

end Decl

/-- What can be wrong with a graph as such. -/
inductive GraphError where
  | nodeNotFound (id : NodeId)
  | duplicateNode (id : NodeId)
  | declNotFound (id : DeclId)
  | duplicateDecl (id : DeclId)
  /-- A text that is no document. -/
  | invalidDocument
deriving DecidableEq

def GraphError.message : GraphError → String
  | .nodeNotFound id => s!"node not found: NodeId({id})"
  | .duplicateNode id => s!"duplicate node id: NodeId({id})"
  | .declNotFound id => s!"declaration not found: DeclId({id})"
  | .duplicateDecl id => s!"duplicate declaration id: DeclId({id})"
  | .invalidDocument => "invalid graph document: the text does not describe a graph"

namespace FunctionDecl

def entryPoints (f : FunctionDecl) : List EntryPoint :=
  f.entry.toList.map fun node => ⟨f.id, .function, node⟩

/-- The function and its locals. -/
def ids (f : FunctionDecl) : List DeclId :=
  f.id :: f.locals.map VariableDecl.id

/-- The function or the local with the given identity. -/
def find? (f : FunctionDecl) (id : DeclId) : Option Decl :=
  if f.id = id then some (.function f)
  else (f.locals.find? (·.id = id)).map (Decl.localOf f)

end FunctionDecl

def PropertyDecl.entryPoints (p : PropertyDecl) : List EntryPoint :=
  (p.getter.toList.map fun node => ⟨p.id, .getter, node⟩) ++
    (p.setter.toList.map fun node => ⟨p.id, .setter, node⟩)

def ConstructorDecl.entryPoints (c : ConstructorDecl) : List EntryPoint :=
  c.entry.toList.map fun node => ⟨c.id, .constructor, node⟩

def EventDecl.entryPoints (e : EventDecl) : List EntryPoint :=
  e.entry.toList.map fun node => ⟨e.id, .event, node⟩

/-- The first member of a list that occurs in it before. -/
def firstRepeated {α : Type} [DecidableEq α] (seen : List α) : List α → Option α
  | [] => none
  | a :: as => if a ∈ seen then some a else firstRepeated (a :: seen) as

namespace ClassDecl

/-- Every body in order: functions, property accessors, constructors, events. -/
def entryPoints (c : ClassDecl) : List EntryPoint :=
  c.functions.flatMap FunctionDecl.entryPoints ++
    c.properties.flatMap PropertyDecl.entryPoints ++
    c.constructors.flatMap ConstructorDecl.entryPoints ++
    c.events.flatMap EventDecl.entryPoints

/-- The identities of all declarations, in order, each function before its locals. -/
def declIds (c : ClassDecl) : List DeclId :=
  c.fields.map VariableDecl.id ++
    c.functions.flatMap FunctionDecl.ids ++
    c.properties.map PropertyDecl.id ++
    c.constructors.map ConstructorDecl.id ++
    c.events.map EventDecl.id

/-- The declaration with an identity, locals included. -/
def find? (c : ClassDecl) (id : DeclId) : Option Decl :=
  ((c.fields.find? (·.id = id)).map Decl.variable).or <|
    (c.functions.findSome? (·.find? id)).or <|
      ((c.properties.find? (·.id = id)).map Decl.property).or <|
        ((c.constructors.find? (·.id = id)).map Decl.constructor).or <|
          (c.events.find? (·.id = id)).map Decl.event

def get (c : ClassDecl) (id : DeclId) : Except GraphError Decl :=
  match c.find? id with
  | some decl => .ok decl
  | none => .error (.declNotFound id)

/-- Fails at the first identity that two declarations share. -/
def validate (c : ClassDecl) : Except GraphError Unit :=
  match firstRepeated [] c.declIds with
  | some id => .error (.duplicateDecl id)
  | none => .ok ()

end ClassDecl

end FlowClass
