import FlowClass.Analysis.Connectivity
import FlowClass.Marker.SourceMap

/-!
# Failures of generation

Each way in which a graph can fail to become source text is a constructor; `message` gives the words
for it. An error is attributed to a node once, by the innermost emission it leaves.
-/

namespace FlowClass

/-- Something that was referred to and is not there. -/
inductive Missing where
  | value
  | variableHandle (handle : Nat)
  | nodeVariable (node : NodeId)
  | nodeOutput (node : NodeId) (port : UInt16)
  | variable (decl : DeclId)
  | parameter (owner : DeclId) (index : UInt64)
  | parameterBody (name : String)
  | member (name : String) (decl : DeclId)
deriving DecidableEq

def Missing.reference : Missing → String
  | .value => "unassigned value port"
  | .variableHandle handle => s!"variable handle {handle}"
  | .nodeVariable node => s!"variable of node {node}"
  | .nodeOutput node port =>
    let port := port.toNat
    s!"output {port} of missing node {node}"
  | .variable decl => s!"variable {decl}"
  | .parameter owner index =>
    let index := index.toNat
    s!"parameter {index} of declaration {owner}"
  | .parameterBody name => s!"parameter `{name}` of a declaration without a body"
  | .member name decl => s!"member `{name}` (declaration {decl})"

/-- A construct where it does not belong. -/
inductive Misuse where
  | statement (title : String)
  | output (port : UInt16) (title : String)
  | thisInStatic (owner : String)
  | lateConstructor (type : String)
  | unknownOperator (name : String)
  | operandCount (op : Operator) (given : Nat)
  | castWithoutType (op : Operator)
  | argument (mark : String) (name : String)
  | targetText (text : String)
  | targetMember (name : String)
  | targetBare
  | targetOther
  | temporaryOutsideStatement
  | setterValue (owner : String)
  | revisit (node : NodeId)
  | notAUnit (node : NodeId)
  | unitInStatic (node : NodeId) (owner : String)
  | sharedReturnTypes (node : NodeId) (name : String)
  | sharedMethod (node : NodeId)
  | methodReturnTypes (name : String)
  | entryWithoutBody (owner : DeclId)
  | entryMismatch (kind : EntryKind) (name : String)
  | waitOutsideUnit
  | stopWithoutUnit
  | statusWithoutUnit
  | loopItem (node : NodeId)
  | returnValueInUnit
  | returnValueInVoid (owner : String)
  | returnWithoutValue (owner : String)
  | unfinishedJob (queued : Nat)
  | entryBeforePreparation (graph : String)
  | typeBeforePreparation (graph : String)
  | noArtifact (graph : String) (reason : String)
  /-- A host's own words. -/
  | other (construct reason : String)
deriving DecidableEq

namespace Misuse

/-- What is misused. -/
def construct : Misuse → String
  | .statement title => s!"node `{title}`"
  | .output port title =>
    let port := port.toNat
    s!"output {port} of node `{title}`"
  | .thisInStatic _ => "`this`"
  | .lateConstructor type => s!"constructor of {type}"
  | .unknownOperator name => s!"operator `{name}`"
  | .operandCount op _ => "operator " ++ op.methodName
  | .castWithoutType op => "operator " ++ op.methodName
  | .argument mark name => s!"{mark}argument `{name}`"
  | .targetText _ => "assignment target"
  | .targetMember _ => "assignment target"
  | .targetBare => "assignment target"
  | .targetOther => "assignment target"
  | .temporaryOutsideStatement => "by-ref temporary"
  | .setterValue _ => "setter `value`"
  | .revisit node => s!"flow through node {node}"
  | .notAUnit node => s!"unit reference to node {node}"
  | .unitInStatic node _ => s!"state unit {node}"
  | .sharedReturnTypes node name => s!"shared node {node} ({name})"
  | .sharedMethod node => s!"shared node {node}"
  | .methodReturnTypes name => s!"method {name}"
  | .entryWithoutBody owner => s!"entry of declaration {owner}"
  | .entryMismatch kind name => "entry " ++ kind.kindName ++ s!" of `{name}`"
  | .waitOutsideUnit => "wait"
  | .stopWithoutUnit => "stop unit"
  | .statusWithoutUnit => "unit status"
  | .loopItem node => s!"loop item of node {node}"
  | .returnValueInUnit => "return value"
  | .returnValueInVoid _ => "return value"
  | .returnWithoutValue _ => "return without a value"
  | .unfinishedJob _ => "generation job"
  | .entryBeforePreparation graph => s!"entry of {graph}"
  | .typeBeforePreparation graph => s!"type {graph}"
  | .noArtifact graph _ => s!"graph {graph}"
  | .other construct _ => construct

/-- What is wrong with it. -/
def reason : Misuse → String
  | .statement _ => "cannot be used as a statement"
  | .output .. => "does not produce a value"
  | .thisInStatic owner => s!"in static member {owner}"
  | .lateConstructor _ => "must start a member chain"
  | .unknownOperator _ => "is not a known operator method"
  | .operandCount op given =>
    let arity := op.arity
    s!"expects {arity} operand(s), got {given}"
  | .castWithoutType _ => "needs a target type"
  | .argument .. => "is not assignable"
  | .targetText text => s!"`{text}` is not assignable"
  | .targetMember name => s!"member `{name}` is not assignable"
  | .targetBare => "a bare type or `this` is not assignable"
  | .targetOther => "is not a variable or member"
  | .temporaryOutsideStatement => "needs an enclosing statement"
  | .setterValue owner => s!"outside a property setter (in {owner})"
  | .revisit _ => "revisits a node that is not a state unit"
  | .notAUnit _ => "the node is not a state unit"
  | .unitInStatic _ owner => s!"cannot run from static member {owner}"
  | .sharedReturnTypes .. => "is reached from bodies with different return types"
  | .sharedMethod _ => "method registration failed"
  | .methodReturnTypes _ => "registered twice with different return types"
  | .entryWithoutBody _ => "has no body"
  | .entryMismatch .. => "does not match its declaration"
  | .waitOutsideUnit => "outside a state unit"
  | .stopWithoutUnit => "has no target unit"
  | .statusWithoutUnit => "has no target unit"
  | .loopItem _ => "read outside its loop body"
  | .returnValueInUnit => "inside a state unit"
  | .returnValueInVoid owner => s!"in void member {owner}"
  | .returnWithoutValue owner => s!"in {owner}, which returns a value"
  | .unfinishedJob queued => s!"finished with {queued} work items queued"
  | .entryBeforePreparation _ => "emitted before preparation"
  | .typeBeforePreparation _ => "assembled before preparation"
  | .noArtifact _ reason => reason
  | .other _ reason => reason

end Misuse

/-- Why generation failed. -/
inductive GenError where
  | unresolved (what : Missing) (owner : String)
  | invalid (what : Misuse)
  /-- A node asked to become state after bodies were emitted. -/
  | classificationOrder (node : NodeId)
  | malformedMarker (err : MarkerError)
  /-- A value depends on itself. -/
  | valueCycle (node : NodeId)
  | analysis (err : AnalysisError)
  | graph (err : GraphError)
  /-- The nesting of emission went beyond its bound. -/
  | tooDeep
  /-- An error of the node being emitted. -/
  | atNode (node : NodeId) (owner : String) (source : GenError)
deriving DecidableEq

namespace GenError

def message : GenError → String
  | .unresolved what owner =>
    let reference := what.reference
    s!"unresolved reference in {owner}: {reference}"
  | .invalid what => "invalid target: " ++ what.construct ++ " " ++ what.reason
  | .classificationOrder node => s!"node {node} registered as state after class body emission began"
  | .malformedMarker err =>
    let (line, column) := (err.position.line, err.position.column)
    s!"malformed marker at line {line}, column {column}: " ++ err.reason
  | .valueCycle node => s!"value cycle through node {node}"
  | .analysis err => "analysis failed: " ++ err.message
  | .graph err => "graph error: " ++ err.message
  | .tooDeep => "emission nests too deeply"
  | .atNode node owner source => s!"node {node} in {owner}: " ++ source.message

/-- Attributes an error to a node, unless it is attributed already. -/
def inNode (err : GenError) (node : NodeId) (owner : String) : GenError :=
  match err with
  | .atNode .. => err
  | _ => .atNode node owner err

/-- The node an error is about. -/
def node? : GenError → Option NodeId
  | .atNode node _ _ => some node
  | .classificationOrder node => some node
  | .valueCycle node => some node
  | _ => none

/-- The error without its attribution. -/
def root : GenError → GenError
  | .atNode _ _ source => source.root
  | err => err

end GenError

/-- A failure that was noted while generation went on. -/
structure Diagnostic where
  graph : String
  node : Option NodeId
  /-- The declaration whose body was emitted. -/
  owner : String
  message : String
deriving DecidableEq

def Diagnostic.toJson (d : Diagnostic) : Json :=
  .object (
    [("graph", .text d.graph)] ++
      (match d.node with
        | none => []
        | some id => [("node", .ofNat id.val.toNat)]) ++
      [("owner", .text d.owner), ("message", .text d.message)])

end FlowClass
