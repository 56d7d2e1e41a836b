import FlowClass.Document.Encode
import FlowClass.Pass.Job

/-!
# Passes

`generate` runs a whole pass over some graphs, `generateGraph` over one.
-/

namespace FlowClass

variable {ν : Type} [NodeKind ν]

/-- Runs a pass; gives what it reported beside its output. -/
def generate (graphs : List (Graph ν)) (config : Config) (orders : MapOrders) :
    Except GenError Output × List Report :=
  match (Job.ofGraphs config graphs orders).run with
  | (result, j) => (result, j.reports)

/-- Generates one graph; a graph that was skipped is an error. -/
def generateGraph (graph : Graph ν) (config : Config) (orders : MapOrders) :
    Except GenError (Artifact × List Diagnostic) :=
  match (generate [graph] config orders).1 with
  | .error e => .error e
  | .ok output =>
    match output.artifacts.getLast? with
    | some artifact => .ok (artifact, output.diagnostics)
    | none =>
      let reason := (output.diagnostics.head?.map Diagnostic.message).getD "produced no artifact"
      .error (.invalid (.noArtifact graph.name reason))

/-! ## JSON -/

def Artifact.toJson (a : Artifact) : Json :=
  .ofEntries [("type_name", some (.text a.typeName)), ("file_name", some (.text a.fileName)),
    ("source", some (.text a.source)), ("source_map", a.sourceMap.map SourceMap.toJson)]

end FlowClass
