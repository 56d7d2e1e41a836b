import FlowClass.Analysis.Classify
import FlowClass.Config
import FlowClass.Symbol.Import
import FlowClass.Symbol.Unit

/-!
# The state of emission

`Env` is what a pass over one graph never changes, `State` is what it does. The dynamic part of the
state (`place`, `reading`, `splices`, `scopes`) is set for an inner emission and put back after it,
whether it succeeds or fails; the rest only grows.
-/

namespace FlowClass

/-- What kind of body is being emitted. -/
inductive BodyKind where
  /-- No body: the class as a whole. -/
  | ofClass
  | function
  | getter
  | setter
  | constructor
  | event
  | unit
  /-- A method for a node that several others flow into. -/
  | shared
deriving DecidableEq

/-- Where emission is. -/
structure Place where
  kind : BodyKind
  owner : Option DeclId
  /-- The name of the declaration, for messages. -/
  ownerName : String
  isStatic : Bool
  /-- Inside a unit, where code may wait. -/
  resumable : Bool
  body : BodyId
  returnType : Ty
deriving DecidableEq

namespace Place

/-- The body of a unit that is asked for from a place. -/
def toUnit (body : BodyId) (place : Place) : Place :=
  { place with kind := .unit, isStatic := false, resumable := true, body, returnType := .void }

/-- The method of a shared node that is reached from a place. -/
def toShared (body : BodyId) (returnType : Ty) (place : Place) : Place :=
  { place with kind := .shared, resumable := false, body, returnType }

/-- A body inside an expression, which cannot wait. -/
def toNested (returnType : Ty) (place : Place) : Place :=
  { place with resumable := false, returnType }

end Place

/-- Code around the statement being emitted. -/
structure Splice where
  enter : List String := []
  exit : List String := []
deriving DecidableEq

/-- A member that generation adds to those the class declares. -/
inductive Added where
  /-- The method of a shared node. -/
  | shared (node : NodeId)
  /-- The field that a parameter is copied into. -/
  | copy (handle : VariableHandle)
  /-- A unit, which code gets at through the runtime object. -/
  | unit (node : NodeId)
  /-- The runtime object itself, for a member that is hidden. -/
  | runtime
deriving DecidableEq

/-- Something that happened during emission. -/
inductive Event where
  /-- The statement of a node was emitted. -/
  | statement (node : NodeId) (place : Place)
  /-- An output of a node was emitted. -/
  | value (node : NodeId) (port : UInt16) (place : Place)
  /-- The unit of a node was asked for. -/
  | slot (node : NodeId)
  /-- A unit was started by a call. -/
  | run (slot : Nat) (value : Option String) (place : Place)
  /-- A variable was mentioned in a body. -/
  | mention (handle : VariableHandle) (body : BodyId)
  /-- A body refers to a member that was added. -/
  | refer (member : Added) (body : BodyId)
  /-- A parameter was written in a body, by a name. -/
  | parameter (owner : DeclId) (index : Nat) (name : String) (body : BodyId)
  /-- A temporary was named for an argument. -/
  | temporary (name : String)
  /-- An emission was refused because it was nested too deep. -/
  | cutOff
deriving DecidableEq

structure State where
  names : Names := {}
  imports : Imports := {}
  symbols : SymbolTable := {}
  units : StateUnits := {}
  classifier : Classifier := {}
  place : Place
  /-- The outputs being emitted, innermost first. -/
  reading : List (NodeId × UInt16) := []
  /-- One for each statement being emitted, innermost first. -/
  splices : List Splice := []
  /-- The loops whose body is being emitted, innermost first. -/
  scopes : List NodeId := []
  /-- The emitted name and the type of a parameter. -/
  params : List ((DeclId × Nat) × (String × Ty)) := []
  /-- The bodies of property accessors. -/
  accessors : List ((DeclId × EntryKind) × BodyId) := []
  /-- The methods of shared nodes, with their return types. -/
  shared : List (NodeId × (String × Ty)) := []
  /-- Code that every constructor runs. -/
  setups : List (NodeId × String) := []
  diagnostics : List Diagnostic := []
  runtimeUsed : Bool := false
  /-- What happened so far, latest first. -/
  journal : List Event := []

structure Env (ν : Type) where
  graph : Graph ν
  config : Config
  table : Connectivity

namespace Env

variable {ν : Type}

/-- The namespace of the file. -/
def space (env : Env ν) : Option String :=
  env.config.space.or env.graph.classDecl.space

/-- How deep emissions may nest. No output is being emitted twice at once, and between two outputs
no statement, unit or shared node is, so the square of the number of nodes, a few times over, is
enough. -/
def depth (env : Env ν) : Nat :=
  16 * (env.graph.size + 2) * (env.graph.size + 2)

end Env

/-- The state before anything was emitted. -/
def State.initial {ν : Type} (env : Env ν) : State :=
  let (body, symbols) := ({} : SymbolTable).newBody
  { symbols
    imports := Imports.ofCurrent env.space
    place :=
      { kind := .ofClass
        owner := none
        ownerName := env.graph.classDecl.name
        isStatic := false
        resumable := false
        body
        returnType := .void } }

end FlowClass
