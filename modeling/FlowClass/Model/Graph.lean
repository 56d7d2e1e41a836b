import FlowClass.Model.Decl

/-!
# Graphs

A class declaration and the nodes its bodies are made of. Nodes keep the order in which they were
put in, and an identity is never given out twice. A document is a graph as it is stored.
-/

namespace FlowClass

structure Graph (ν : Type) where
  name : String
  classDecl : ClassDecl
  /-- The nodes in insertion order, each identity once. -/
  nodes : List (NodeId × ν) := []
  /-- The identity the next added node gets. -/
  nextId : UInt32 := 0

namespace Graph

variable {ν : Type}

def empty (name : String) (classDecl : ClassDecl) : Graph ν :=
  { name, classDecl }

def get? (g : Graph ν) (id : NodeId) : Option ν :=
  (g.nodes.find? (·.1 = id)).map (·.2)

def contains (g : Graph ν) (id : NodeId) : Bool :=
  (g.get? id).isSome

def size (g : Graph ν) : Nat :=
  g.nodes.length

def ids (g : Graph ν) : List NodeId :=
  g.nodes.map (·.1)

/-- The node with an identity. -/
def node (g : Graph ν) (id : NodeId) : Except GraphError ν :=
  match g.get? id with
  | some n => .ok n
  | none => .error (.nodeNotFound id)

/-- Puts a node in under a fresh identity. -/
def add (g : Graph ν) (n : ν) : NodeId × Graph ν :=
  (⟨g.nextId⟩, { g with nodes := g.nodes ++ [(⟨g.nextId⟩, n)], nextId := g.nextId + 1 })

/-- Puts a node in under an identity that is not taken. -/
def insert (g : Graph ν) (id : NodeId) (n : ν) : Except GraphError Unit × Graph ν :=
  if g.contains id then (.error (.duplicateNode id), g)
  else (.ok (), { g with nodes := g.nodes ++ [(id, n)], nextId := max g.nextId (id.val + 1) })

/-- Puts another node in the place of one, which is returned. -/
def replace (g : Graph ν) (id : NodeId) (n : ν) : Except GraphError ν × Graph ν :=
  match g.get? id with
  | none => (.error (.nodeNotFound id), g)
  | some old =>
    (.ok old, { g with nodes := g.nodes.map fun entry => if entry.1 = id then (id, n) else entry })

/-- The same graph over other nodes. -/
def mapNodes {μ : Type} (f : ν → μ) (g : Graph ν) : Graph μ :=
  { g with nodes := g.nodes.map fun entry => (entry.1, f entry.2) }

/-- Puts several nodes in, one after the other. -/
def insertAll (g : Graph ν) : List (NodeId × ν) → Except GraphError (Graph ν)
  | [] => .ok g
  | (id, n) :: entries =>
    match g.insert id n with
    | (.ok (), g) => g.insertAll entries
    | (.error e, _) => .error e

end Graph

/-- A graph as it is stored. -/
structure Document (ν : Type) where
  name : String
  classDecl : ClassDecl
  nodes : List (NodeId × ν) := []

namespace Document

variable {ν : Type}

def ofGraph (g : Graph ν) : Document ν :=
  { name := g.name, classDecl := g.classDecl, nodes := g.nodes }

/-- The graph of a document, unless two declarations or two nodes share an identity. -/
def toGraph (d : Document ν) : Except GraphError (Graph ν) :=
  match d.classDecl.validate with
  | .error e => .error e
  | .ok () => (Graph.empty d.name d.classDecl).insertAll d.nodes

end Document

end FlowClass
