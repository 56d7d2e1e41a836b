import FlowClass.Emit.Flow

/-!
# The nodes of the library as code

The hooks are written for any graph that holds such nodes among others.
-/

namespace FlowClass.Node

variable {ν : Type}

open Emit

/-- The variable that holds the index of a counting loop. -/
def indexName : String := "index"

/-- The variable that holds the current item; it outlives the iteration, so that units started from
the body can still read it. -/
def itemName : String := "item"

/-- The variable of the iteration itself. -/
def bindingName : String := "current"

/-- What a timed wait yields. -/
def waitType : Ty := .ofClass "UnityEngine" "WaitForSeconds"

/-- Registers the variable of a node. -/
def setUp (id : NodeId) : Node → Emit ν Unit
  | .forLoop .. => do let _ ← registerVariable { key := .node id, name := indexName, type := .int }
  | .forEach _ element .. => do
    let _ ← registerVariable { key := .node id, name := itemName, type := element }
  | .localVariable name type .. => do let _ ← registerVariable { key := .node id, name, type }
  | _ => pure ()

/-! ## Statements -/

/-- The chains of several ports in order. -/
def flows (services : Services ν) : List (Option NodeId) → Emit ν (List String)
  | [] => pure []
  | target :: targets => do
    let text ← services.flow target
    return text :: (← flows services targets)

/-- A branch whose first body is empty is turned around. -/
def branchText (condition thenBody elseBody : String) : String :=
  if thenBody.isEmpty && !elseBody.isEmpty then
    (Fragment.ifElse ("!" ++ Code.operand condition) elseBody none).text
  else
    (Fragment.ifElse condition thenBody (if elseBody.isEmpty then none else some elseBody)).text

/-- The sections of a switch in order. -/
def sections (services : Services ν) : List SwitchArm → Emit ν (List SwitchSection)
  | [] => pure []
  | arm :: arms => do
    let labels ← literalTexts arm.labels
    let body ← services.flow arm.target
    return ⟨labels, body⟩ :: (← sections services arms)

def switchText (services : Services ν) (value : Term) (cases : List SwitchArm)
    (default : Option NodeId) : Emit ν String := do
  let value ← term services.output value
  let cases ← sections services cases
  let default ← services.flow default
  return (Fragment.switch value cases (if default.isEmpty then none else some default)).text

/-- What a counting loop does after each round. -/
def stepText (services : Services ν) (index : String) (step : Term) : Emit ν String := do
  if step.isAssigned then return index ++ " += " ++ Code.operand (← term services.output step)
  else return index ++ "++"

def forLoopText (services : Services ν) (id : NodeId) (start stop step : Term)
    (body : Option NodeId) : Emit ν String := do
  let index ← nodeVariable id
  let start ← term services.output start
  let stop ← term services.output stop
  let step ← stepText services index step
  let body ← services.flow body
  return (Fragment.forLoop (index ++ " = " ++ start) (index ++ " < " ++ Code.operand stop) step
    body).text

def forEachText (services : Services ν) (id : NodeId) (collection : Term) (element : Ty)
    (body : Option NodeId) : Emit ν String := do
  let item ← nodeVariable id
  let binding ← nameFor (.node id) bindingName
  let type ← typeText element
  let collection ← term services.output collection
  let body ← withScope id (services.flow body)
  let body := Code.lines [(Fragment.assign item binding .assign).text, body]
  return (Fragment.forEach type binding collection body).text

def localVariableText (services : Services ν) (id : NodeId) (type : Ty) (value : Term) :
    Emit ν String := do
  let name ← nodeVariable id
  let value ←
    if value.isAssigned then term services.output value
    else do pure ("default(" ++ (← typeText type) ++ ")")
  return (Fragment.assign name value .assign).text

/-- Returning ends a unit without a value; elsewhere a value is given just where one is due. -/
def returnText (services : Services ν) (value : Term) : Emit ν String := do
  let place := (← get).place
  if place.resumable then
    demand (!value.isAssigned) .returnValueInUnit
    return Fragment.yieldBreak.text
  else if value.isAssigned then
    demand (!place.returnType.isVoid) (.returnValueInVoid place.ownerName)
    return (Fragment.returnValue (some (← term services.output value))).text
  else
    demand place.returnType.isVoid (.returnWithoutValue place.ownerName)
    return (Fragment.returnValue none).text

/-- What a wait makes sure of before anything else. -/
def checkResumable : Emit ν Unit := do
  demand (← get).place.resumable .waitOutsideUnit

/-- What a wait is written as, inside a unit. -/
def yieldText (services : Services ν) (seconds : Term) : Emit ν String := do
  if seconds.isAssigned then
    let seconds ← term services.output seconds
    let type ← typeText waitType
    return (Fragment.yieldReturn ("new " ++ type ++ "(" ++ seconds ++ ")")).text
  else return (Fragment.yieldReturn "null").text

def waitText (services : Services ν) (seconds : Term) : Emit ν String := do
  checkResumable
  yieldText services seconds

/-- The slot of the unit that a node points to. -/
def targetSlot (services : Services ν) (target : Option NodeId) (what : Misuse) : Emit ν Nat :=
  match target with
  | none => fail (.invalid what)
  | some id => services.slot id

/-- The statement of a node. -/
def code (services : Services ν) (id : NodeId) : Node → Emit ν String
  | .sequence outputs => do return Code.lines (← flows services outputs)
  | .branch condition onTrue onFalse _ => do
    let condition ← term services.output condition
    let thenBody ← services.flow onTrue
    let elseBody ← services.flow onFalse
    return branchText condition thenBody elseBody
  | .switch value cases default _ => switchText services value cases default
  | .forLoop start stop step body _ => forLoopText services id start stop step body
  | .forEach collection element body _ => forEachText services id collection element body
  | .whileLoop condition body _ => do
    let condition ← term services.output condition
    let body ← services.flow body
    return (Fragment.whileLoop condition body).text
  | .invoke call _ => do return (Fragment.invoke (← term services.output call)).text
  | .setValue target value op _ => do
    let value ← term services.output value
    store services.output target value op
  | .localVariable _ type value _ => localVariableText services id type value
  | .returnValue value => returnText services value
  | .wait seconds _ => waitText services seconds
  | .stateScope body _ => services.flow body
  | .stopUnit target _ => do
    let slot ← targetSlot services target .stopWithoutUnit
    return (Fragment.invoke (stopCall slot)).text
  | n => fail (.invalid (.statement n.title))

/-! ## Outputs -/

/-- The names of a lambda's parameters. -/
def paramNames (id : NodeId) : List ParamDecl → Emit ν (List String)
  | [] => pure []
  | p :: ps => do
    let name ← nameFor (.node id) p.name
    return name :: (← paramNames id ps)

def castText : Option Ty → Emit ν (Option String)
  | none => pure none
  | some type => some <$> typeText type

/-- The only output of a node, or the first. -/
def mainValue (services : Services ν) (id : NodeId) : Node → Emit ν String
  | .forLoop .. => nodeVariable id
  | .localVariable .. => nodeVariable id
  | .forEach .. => do
    demand (← inScope id) (.loopItem id)
    nodeVariable id
  | .unitStatus target query => do
    let slot ← targetSlot services target .statusWithoutUnit
    return queryCall slot query
  | .literal value => literalText value
  | .member value => term services.output value
  | .operator op operands cast => do
    let operands ← terms services.output operands
    operatorText op operands (← castText cast)
  | .lambda params returnType body => do
    let names ← paramNames id params
    let body ← nested services body returnType
    return (Fragment.lambda names (.statements body)).text
  | n => fail (.invalid (.output 0 n.title))

/-- The parameters of a lambda are its other outputs. -/
def otherValue (id : NodeId) (port : UInt16) : Node → Emit ν String
  | .lambda params returnType body =>
    match params[port.toNat - 1]? with
    | some p => nameFor (.node id) p.name
    | none => fail (.invalid (.output port (Node.lambda params returnType body).title))
  | n => fail (.invalid (.output port n.title))

/-- The expression of an output. -/
def value (services : Services ν) (id : NodeId) (port : UInt16) (n : Node) : Emit ν String :=
  if port = 0 then mainValue services id n else otherValue id port n

end FlowClass.Node

namespace FlowClass

instance : NodeKind Node where
  setUp _ id n := n.setUp id
  code services id n := n.code services id
  value services id port n := n.value services id port

end FlowClass
