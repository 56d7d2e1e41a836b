import FlowClass.Model.Id
import FlowClass.Model.Literal
import FlowClass.Model.Operator

/-!
# Terms

A term says where the value of an input comes from: a constant, a variable of the class, the output
of another node, or a chain of members that starts at a type, at a value or at the generated object.
`Term.nodes` lists the nodes a term reads, which is all that the analyses look at.
-/

namespace FlowClass

/-- A variable or parameter of the class. -/
inductive VarRef where
  | field (decl : DeclId)
  | localOf (function decl : DeclId)
  | parameter (owner : DeclId) (index : UInt64)
  /-- The implicit parameter of a property's setter. -/
  | setterValue
deriving DecidableEq

inductive CollectionKind where
  | array
  | list
deriving DecidableEq

/-- What a step of a chain uses. -/
inductive StepKind where
  | field
  | property
  | method
  | constructor
  | indexer
  /-- A method with the name of an operator. -/
  | operator
deriving DecidableEq

/-- How an argument is passed. -/
inductive Passing where
  | byValue
  | byRef
  | byOut
  | byIn
  /-- The last parameter, which takes any number of arguments. -/
  | variadic
deriving DecidableEq

namespace Passing

/-- What stands before an argument at a call. -/
def callMark : Passing → String
  | .byRef => "ref "
  | .byOut => "out "
  | .byIn => "in "
  | .byValue => ""
  | .variadic => ""

/-- The argument has to be a place that can be assigned. -/
def isAssigning : Passing → Bool
  | .byRef => true
  | .byOut => true
  | _ => false

end Passing

/-- A parameter of a member that a chain calls. -/
structure Param where
  name : String
  type : Ty
  passing : Passing := .byValue
deriving DecidableEq

mutual

/-- Where a value comes from. -/
inductive Term where
  /-- An input that nothing is connected to. -/
  | unassigned
  | literal (value : Literal)
  | variable (ref : VarRef)
  | typeOf (type : Ty)
  | self
  | output (node : NodeId) (port : UInt16)
  | collection (kind : CollectionKind) (element : Ty) (items : List Term)
  | chain (root : ChainRoot) (steps : List Step)

/-- What a chain of members starts from. -/
inductive ChainRoot where
  | ofType (type : Ty)
  | ofValue (value : Term)
  | self

/-- One step of a chain of members. -/
structure Step where
  name : String
  kind : StepKind
  /-- The type of the value after the step. -/
  type : Ty
  params : List Param := []
  args : List Term := []
  typeArgs : List Ty := []
  /-- The member is hidden and is reached through the runtime object. -/
  reflected : Bool := false
  /-- The declaration of the class that the step uses, whose emitted name may differ. -/
  decl : Option DeclId := none

end

namespace Step

def ofField (name : String) (type : Ty) : Step :=
  { name, kind := .field, type }

def ofProperty (name : String) (type : Ty) : Step :=
  { name, kind := .property, type }

def ofMethod (name : String) (type : Ty) (params : List Param) (args : List Term) : Step :=
  { name, kind := .method, type, params, args }

def ofConstructor (type : Ty) (params : List Param) (args : List Term) : Step :=
  { name := ".ctor", kind := .constructor, type, params, args }

def ofOperator (op : Operator) (type : Ty) (args : List Term) : Step :=
  { name := op.methodName, kind := .operator, type, args }

def ofIndexer (type : Ty) (params : List Param) (args : List Term) : Step :=
  { name := "Item", kind := .indexer, type, params, args }

end Step

/-- Adds `a` at the end of a list unless it is there. -/
def pushNew {α : Type} [DecidableEq α] (xs : List α) (a : α) : List α :=
  if a ∈ xs then xs else xs ++ [a]

/-- The members of a list, each once, in the order they first occur. -/
def distinct {α : Type} [DecidableEq α] (xs : List α) : List α :=
  xs.foldl pushNew []

mutual

/-- Every node whose output the term reads, in the order of the text. -/
def Term.reads : Term → List NodeId
  | .output node _ => [node]
  | .collection _ _ items => Term.readsOf items
  | .chain root steps => ChainRoot.reads root ++ Step.readsOf steps
  | _ => []

def ChainRoot.reads : ChainRoot → List NodeId
  | .ofValue value => Term.reads value
  | _ => []

def Step.reads : Step → List NodeId
  | ⟨_, _, _, _, args, _, _, _⟩ => Term.readsOf args

def Term.readsOf : List Term → List NodeId
  | [] => []
  | t :: ts => Term.reads t ++ Term.readsOf ts

def Step.readsOf : List Step → List NodeId
  | [] => []
  | s :: ss => Step.reads s ++ Step.readsOf ss

end

namespace Term

/-- The output of a node that has one. -/
def ofNode (node : NodeId) : Term :=
  .output node 0

def isAssigned : Term → Bool
  | .unassigned => false
  | _ => true

/-- The nodes the term reads, each once. -/
def nodes (t : Term) : List NodeId :=
  distinct t.reads

/-- The type of the term, where the term alone tells. -/
def type? : Term → Option Ty
  | .literal value => value.type?
  | .collection .array element _ => some (.arrayOf element)
  | .collection .list element _ => some (.listOf element)
  | .chain _ steps => steps.getLast?.map Step.type
  | .typeOf _ => some (.ofClass "System" "Type")
  | _ => none

end Term

end FlowClass
