import FlowClass.Model.Decl
import FlowClass.Model.Port

/-!
# The nodes of the library

Control flow, access to data and control over resumable units: enough to draw whole classes. A host
may add kinds of its own, which need only a `NodeShape` and the hooks of emission.
-/

namespace FlowClass

/-- What may be asked about a running unit. -/
inductive UnitQuery where
  | isRunning
  | isSuccess
  | isFailure
  | isFinished
deriving DecidableEq

def UnitQuery.methodName : UnitQuery → String
  | .isRunning => "IsRunning"
  | .isSuccess => "IsSuccess"
  | .isFailure => "IsFailure"
  | .isFinished => "IsFinished"

/-- One arm of a switch. -/
structure SwitchArm where
  labels : List Literal
  target : Option NodeId := none

inductive Node where
  /-- Runs every output in order. -/
  | sequence (outputs : List (Option NodeId))
  | branch (condition : Term) (onTrue onFalse next : Option NodeId)
  | switch (value : Term) (cases : List SwitchArm) (default next : Option NodeId)
  /-- Counts from `start` below `stop`; its output is the index. Without a step it counts by one. -/
  | forLoop (start stop step : Term) (body next : Option NodeId)
  /-- Its output is the current item, which only the body may read. -/
  | forEach (collection : Term) (element : Ty) (body next : Option NodeId)
  | whileLoop (condition : Term) (body next : Option NodeId)
  | invoke (call : Term) (next : Option NodeId)
  | setValue (target value : Term) (op : AssignOp) (next : Option NodeId)
  /-- Stores a value once; its output reads the value back. -/
  | localVariable (name : String) (type : Ty) (value : Term) (next : Option NodeId)
  | returnValue (value : Term)
  /-- Waits for some seconds, or for one frame. -/
  | wait (seconds : Term) (next : Option NodeId)
  /-- Every flow node of the body is a resumable unit. -/
  | stateScope (body next : Option NodeId)
  | stopUnit (target next : Option NodeId)
  | unitStatus (target : Option NodeId) (query : UnitQuery)
  | literal (value : Literal)
  | member (value : Term)
  | operator (op : Operator) (operands : List Term) (cast : Option Ty)
  /-- Output 0 is the function, the others are its parameters. -/
  | lambda (params : List ParamDecl) (returnType : Ty) (body : Option NodeId)

namespace Node

def title : Node → String
  | .sequence .. => "Sequence"
  | .branch .. => "Branch"
  | .switch .. => "Switch"
  | .forLoop .. => "ForLoop"
  | .forEach .. => "ForEach"
  | .whileLoop .. => "While"
  | .invoke .. => "Invoke"
  | .setValue .. => "SetValue"
  | .localVariable .. => "LocalVariable"
  | .returnValue .. => "Return"
  | .wait .. => "Wait"
  | .stateScope .. => "StateScope"
  | .stopUnit .. => "StopUnit"
  | .unitStatus .. => "UnitStatus"
  | .literal .. => "Literal"
  | .member .. => "Member"
  | .operator .. => "Operator"
  | .lambda .. => "Lambda"

def isFlow : Node → Bool
  | .unitStatus .. => false
  | .literal .. => false
  | .member .. => false
  | .operator .. => false
  | .lambda .. => false
  | _ => true

/-- Flow ports named by a word and their position. -/
def numberedFlows (word : String) (targets : List (Option NodeId)) : List FlowPort :=
  targets.zipIdx.map fun (target, i) => ⟨s!"{word}{i}", target⟩

def ports : Node → Ports
  | .sequence outputs => { flows := numberedFlows "then" outputs }
  | .branch condition onTrue onFalse next =>
    { flows := [⟨"true", onTrue⟩, ⟨"false", onFalse⟩, ⟨"next", next⟩]
      values := [⟨"condition", condition⟩] }
  | .switch value cases default next =>
    { flows := numberedFlows "case" (cases.map SwitchArm.target) ++
        [⟨"default", default⟩, ⟨"next", next⟩]
      values := [⟨"value", value⟩] }
  | .forLoop start stop step body next =>
    { flows := [⟨"body", body⟩, ⟨"next", next⟩]
      values := [⟨"start", start⟩, ⟨"end", stop⟩, ⟨"step", step⟩] }
  | .forEach collection _ body next =>
    { flows := [⟨"body", body⟩, ⟨"next", next⟩], values := [⟨"collection", collection⟩] }
  | .whileLoop condition body next =>
    { flows := [⟨"body", body⟩, ⟨"next", next⟩], values := [⟨"condition", condition⟩] }
  | .invoke call next => { flows := [⟨"next", next⟩], values := [⟨"call", call⟩] }
  | .setValue target value _ next =>
    { flows := [⟨"next", next⟩], values := [⟨"target", target⟩, ⟨"value", value⟩] }
  | .localVariable _ _ value next => { flows := [⟨"next", next⟩], values := [⟨"value", value⟩] }
  | .returnValue value => { values := [⟨"value", value⟩] }
  | .wait seconds next => { flows := [⟨"next", next⟩], values := [⟨"seconds", seconds⟩] }
  | .stateScope body next => { flows := [⟨"next", next⟩], children := body.toList }
  | .stopUnit target next => { flows := [⟨"next", next⟩], references := target.toList }
  | .unitStatus target _ => { references := target.toList }
  | .literal _ => {}
  | .member value => { values := [⟨"value", value⟩] }
  | .operator _ operands _ =>
    { values := operands.zipIdx.map fun (operand, i) => ⟨s!"operand{i}", operand⟩ }
  | .lambda _ _ body => { children := body.toList }

def suspends : Node → Bool
  | .wait .. => true
  | _ => false

def isScope : Node → Bool
  | .stateScope .. => true
  | _ => false

/-- The last flow port of a node that goes on after its own statements. -/
def continuation : Node → Option Nat
  | .branch .. => some 2
  | .switch _ cases _ _ => some (cases.length + 1)
  | .forLoop .. => some 1
  | .forEach .. => some 1
  | .whileLoop .. => some 1
  | .invoke .. => some 0
  | .setValue .. => some 0
  | .localVariable .. => some 0
  | .wait .. => some 0
  | .stateScope .. => some 0
  | .stopUnit .. => some 0
  | _ => none

instance : NodeShape Node where
  title := title
  isFlow := isFlow
  ports := ports
  suspends := suspends
  isScope := isScope
  continuation := continuation

end Node

end FlowClass
