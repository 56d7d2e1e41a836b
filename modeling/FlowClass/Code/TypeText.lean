import FlowClass.Symbol.Import

/-!
# Spelling of types

A type is spelled with the shortest name the imports allow; the imports are threaded through, from
left to right.
-/

namespace FlowClass

mutual

def Ty.text : Ty → Imports → String × Imports
  | .void, i => ("void", i)
  | .scalar s, i => (s.keyword, i)
  | .named space name args _, i =>
    let (base, i) := i.qualify space name
    match Ty.texts args i with
    | ([], i) => (base, i)
    | (args, i) => (base ++ "<" ++ joinText ", " args ++ ">", i)
  | .array element rank, i =>
    let (element, i) := Ty.text element i
    (element ++ "[" ++ String.ofList (List.replicate (rank.toNat - 1) ',') ++ "]", i)
  | .nullable inner, i =>
    let (inner, i) := Ty.text inner i
    (inner ++ "?", i)
  | .typeParam name, i => (name, i)
  | .generated name, i => (name, i)

def Ty.texts : List Ty → Imports → List String × Imports
  | [], i => ([], i)
  | t :: ts, i =>
    let (text, i) := Ty.text t i
    let (texts, i) := Ty.texts ts i
    (text :: texts, i)

end

end FlowClass
