import FlowClass.Model.Term
import FlowClass.Order.Insertion
import FlowClass.Text.Basic

/-!
# Imports

Which namespaces a file imports, and when a type has to be written with its namespace. The first
namespace that asks for a short name owns it; the same name from another namespace, and a name that
the file itself declares, is written in full.
-/

namespace FlowClass

structure Imports where
  /-- The imported namespaces, each once. -/
  spaces : List String := []
  /-- The namespace that owns a short name. -/
  claimed : List (String × String) := []
  /-- Short names that the file declares. -/
  reserved : List String := []
  /-- The namespace of the file itself. -/
  current : Option String := none

namespace Imports

/-- No imports yet, for a file in a namespace. -/
def ofCurrent (current : Option String) : Imports :=
  { current }

/-- Imports a namespace, unless the file is in it. -/
def add (i : Imports) (space : String) : Imports :=
  if space.isEmpty || i.current = some space then i
  else { i with spaces := pushNew i.spaces space }

def reserve (i : Imports) (name : String) : Imports :=
  { i with reserved := name :: i.reserved }

/-- The part of a type name before its first dot. -/
def headOf (name : String) : String :=
  String.ofList (name.toList.takeWhile (· != '.'))

/-- A name with its namespace. -/
def inFull (space name : String) : String :=
  "global::" ++ space ++ "." ++ name

/-- What to write for a type of a namespace. -/
def qualify (i : Imports) (space : Option String) (name : String) : String × Imports :=
  match space with
  | none => (name, i)
  | some space =>
    if space.isEmpty then (name, i)
    else
      let head := headOf name
      if i.reserved.contains head then (inFull space name, i)
      else
        match i.claimed.lookup head with
        | some owner => (if owner = space then name else inFull space name, i)
        | none => (name, { i with claimed := (head, space) :: i.claimed }.add space)

/-- The namespaces that stand first. -/
def isSystem (space : String) : Bool :=
  space = "System" || Text.startsWith "System.".toList space.toList

/-- The imported namespaces in the order of the file: each group in ascending order. -/
def sorted (i : Imports) : List String :=
  let ascending := sortBy (fun a b => Text.le a.toList b.toList) i.spaces
  ascending.filter isSystem ++ ascending.filter fun space => !isSystem space

end Imports

end FlowClass
