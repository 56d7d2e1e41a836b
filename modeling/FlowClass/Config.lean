import FlowClass.Json.Decode
import FlowClass.Json.Reader

/-!
# Options of a pass
-/

namespace FlowClass

/-- How a pass runs its work items. -/
inductive Scheduling where
  /-- All at once; the first failure ends the pass. -/
  | synchronous
  /-- Some at a time; a failure is noted and the pass goes on. -/
  | batched (queueDepth : UInt64)
deriving DecidableEq

structure Config where
  /-- The namespace of the generated file; otherwise the class says it. -/
  space : Option String := none
  /-- Namespaces to import beside those the code needs. -/
  usings : List String := []
  /-- Markers are emitted, and a source map is made of them. -/
  traceable : Bool := false
  /-- The class gets methods that read and write its variables by name. -/
  optimizeAccess : Bool := false
  scheduling : Scheduling := .synchronous
  /-- A connection to a node that does not exist is an error. -/
  strict : Bool := false
  /-- The type of the runtime object, with its namespace. -/
  runtimeType : String := "Flowgen.Runtime.FlowRuntime"
  /-- The file starts with a comment that it was generated. -/
  header : Bool := true
deriving DecidableEq

namespace Config

def isBatched (c : Config) : Bool :=
  match c.scheduling with
  | .synchronous => false
  | .batched _ => true

/-- How many work items a drain may run. -/
def queueDepth (c : Config) : Nat :=
  match c.scheduling with
  | .synchronous => UInt64.size - 1
  | .batched depth => max depth.toNat 1

end Config

/-! ## JSON -/

def Scheduling.toJson : Scheduling → Json
  | .synchronous => .text "Synchronous"
  | .batched depth => .object [("Batched", .object [("queue_depth", .ofUInt64 depth)])]

def Scheduling.decode : Decoder Scheduling := fun r j => do
  let v ← Decoder.variant r j
  match v.name with
  | "Synchronous" => (fun _ => .synchronous) <$> v.unit
  | "Batched" =>
    let given ← v.fields ["queue_depth"]
    let depth ← given.required "queue_depth" Decoder.uint64
    return .batched depth
  | _ => none

def Config.toJson (c : Config) : Json :=
  .object [("namespace", .ofOption .text c.space), ("usings", .ofList .text c.usings),
    ("traceable", .bool c.traceable), ("optimize_variable_access", .bool c.optimizeAccess),
    ("scheduling", c.scheduling.toJson), ("strict_connectivity", .bool c.strict),
    ("runtime_type", .text c.runtimeType), ("header", .bool c.header)]

def Config.decode : Decoder Config := fun r j => do
  let given ← Decoder.record ["namespace", "usings", "traceable", "optimize_variable_access",
    "scheduling", "strict_connectivity", "runtime_type", "header"] r j
  let space ← given.optional "namespace" Decoder.text
  let usings ← given.list "usings" Decoder.text
  let traceable ← given.withDefault "traceable" false Decoder.bool
  let optimizeAccess ← given.withDefault "optimize_variable_access" false Decoder.bool
  let scheduling ← given.withDefault "scheduling" .synchronous Scheduling.decode
  let strict ← given.withDefault "strict_connectivity" false Decoder.bool
  let runtimeType ← given.withDefault "runtime_type" "Flowgen.Runtime.FlowRuntime" Decoder.text
  let header ← given.withDefault "header" true Decoder.bool
  return { space, usings, traceable, optimizeAccess, scheduling, strict, runtimeType, header }

/-- The options a text describes. -/
def Config.parse? (text : String) : Option Config :=
  (Json.parse? text).bind (Config.decode { levels := Decoder.textLevels })

end FlowClass
