import FlowClass.Command.Disk
import FlowClass.Command.Options
import FlowClass.Document.Decode
import FlowClass.Emit.Node
import FlowClass.Json.Writer
import FlowClass.Pass.Generate

/-!
# The compile command

Reads the configuration and the documents, runs one pass over all of them, writes the files of the
pass and says what it did. Nothing is written unless the pass succeeds.
-/

namespace FlowClass.Command

variable {m : Type → Type} [Monad m]

/-- What a command leaves beside files. -/
structure Outcome where
  exit : UInt32
  /-- What is printed on standard output. -/
  summary : Option String := none
  /-- The lines printed on standard error. -/
  errors : List String := []

/-- The command ended with an input or output error. -/
def Outcome.ofInput (message : String) : Outcome :=
  { exit := 3, errors := ["Error: " ++ message] }

/-- The configuration with the options on top. -/
def override (o : Options) (c : Config) : Config :=
  { c with
    space := o.space.or c.space
    scheduling := (o.batched.map Scheduling.batched).getD c.scheduling
    traceable := c.traceable || o.sourceMap
    optimizeAccess := c.optimizeAccess || o.optimize
    strict := c.strict || o.strict }

/-- Reads the configuration file, if there is one. -/
def loadConfig (disk : Disk m) : Option String → m (Except String Config)
  | none => return .ok {}
  | some path => do
    match ← disk.read path with
    | none => return .error s!"failed to read config '{path}': no readable text"
    | some text =>
      match Config.parse? text with
      | none => return .error s!"invalid config '{path}': the text does not describe options"
      | some c => return .ok c

/-- The graph of a document. -/
def graphOf (text : String) : Except GraphError (Graph Node) :=
  match Document.parse text with
  | .error e => .error e
  | .ok document => document.toGraph

def loadGraph (disk : Disk m) (path : String) : m (Except String (Graph Node)) := do
  match ← disk.read path with
  | none => return .error s!"failed to read graph '{path}': no readable text"
  | some text =>
    match graphOf text with
    | .error e =>
      let reason := e.message
      return .error s!"'{path}': {reason}"
    | .ok g => return .ok g

/-- Reads the documents in order, up to the first that fails. -/
def loadGraphs (disk : Disk m) : List String → m (Except String (List (Graph Node)))
  | [] => return .ok []
  | path :: paths => do
    match ← loadGraph disk path with
    | .error message => return .error message
    | .ok g =>
      match ← loadGraphs disk paths with
      | .error message => return .error message
      | .ok gs => return .ok (g :: gs)

/-- The files of an artifact by name. -/
def artifactFiles (a : Artifact) : List (String × String) :=
  (a.fileName, a.source) ::
    a.sourceMap.toList.map fun map => (a.typeName ++ ".map.json", Json.pretty 0 map.toJson)

/-- Writes files in order, up to the first that fails. -/
def writeAll (disk : Disk m) (dir : String) : List (String × String) → m Bool
  | [] => return true
  | (name, text) :: files => do
    if ← disk.write (joinPath dir name) text then writeAll disk dir files else return false

def writeArtifacts (disk : Disk m) (dir : String) (artifacts : List Artifact) : m Bool := do
  if ← disk.makeDirs dir then writeAll disk dir (artifacts.flatMap artifactFiles) else return false

/-- The summary of a pass. -/
def summaryOf (dir : String) (output : Output) : Json :=
  .object [
    ("diagnostics", .ofList Diagnostic.toJson output.diagnostics),
    ("files", .ofList (fun a => .text (joinPath dir a.fileName)) output.artifacts)]

/-- A diagnostic on a line. -/
def diagnosticLine (d : Diagnostic) : String :=
  let (graph, owner) := (d.graph, d.owner)
  match d.node with
  | some node => s!"  - {graph} node {node} in {owner}: " ++ d.message
  | none => s!"  - {graph} in {owner}: " ++ d.message

/-- What is said after the files were written. -/
def report (dir : String) (output : Output) : Outcome :=
  let summary := some (Json.pretty 0 (summaryOf dir output))
  if output.isClean then { exit := 0, summary }
  else
    let count := output.diagnostics.length
    { exit := 2
      summary
      errors := s!"Generation finished with {count} diagnostic(s):" ::
        output.diagnostics.map diagnosticLine }

/-- Runs the command. -/
def compile (disk : Disk m) (orders : MapOrders) (o : Options) : m Outcome := do
  match ← loadConfig disk o.config with
  | .error message => return .ofInput message
  | .ok c =>
    match ← loadGraphs disk o.inputs with
    | .error message => return .ofInput message
    | .ok graphs =>
      match (generate graphs (override o c) orders).1 with
      | .error e => return { exit := 1, errors := ["Generation error: " ++ e.message] }
      | .ok output =>
        if ← writeArtifacts disk o.outputDir output.artifacts then return report o.outputDir output
        else
          let dir := o.outputDir
          return .ofInput s!"failed to write to '{dir}': a file could not be written"

/-- Runs a command line; one that is not understood ends with 2. -/
def run (disk : Disk m) (orders : MapOrders) (args : List String) : m Outcome :=
  match Options.ofArgs args with
  | .ok options => compile disk orders options
  | .error .help => return { exit := 0 }
  | .error .usage => return { exit := 2 }

end FlowClass.Command
