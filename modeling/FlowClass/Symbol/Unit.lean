import FlowClass.Code.Fragment
import FlowClass.Model.Node
import FlowClass.Symbol.Table

/-!
# Resumable units

Every state node becomes a unit with a numbered slot. The units of a class are the cases of one
method, the dispatcher, which the runtime object calls with the slot. A unit that does nothing but
wait for one value, and was not asked for while its own text was being emitted, is *degenerate*: it
has no case, and the value is passed where the unit is started.
-/

namespace FlowClass

/-- The method that runs a unit. -/
def dispatcherName : String := "__Dispatch"

/-- The property that holds the runtime object. -/
def runtimeProperty : String := "__rt"

/-- The field behind the property. -/
def runtimeField : String := "__runtime"

inductive UnitProgress where
  | pending
  | inProgress
  | done
deriving DecidableEq

structure StateUnit where
  node : NodeId
  slot : Nat
  body : BodyId
  progress : UnitProgress := .pending
  text : String := ""
  /-- The unit was asked for while its own text was being emitted. -/
  selfReference : Bool := false

/-- The value of a body that is one `yield return`. -/
def singleYield? (body : String) : Option String :=
  let clean := Text.trim (Marker.strip body).toList
  if clean.contains '\n' then none
  else
    match Text.dropLead "yield return ".toList clean with
    | none => none
    | some rest =>
      if rest.getLast? = some ';' then
        let value := Text.trim rest.dropLast
        if value.isEmpty || value.contains ';' then none else some (String.ofList value)
      else none

/-- The value a degenerate unit waits for. -/
def StateUnit.degenerate? (u : StateUnit) : Option String :=
  if u.progress = .done && !u.selfReference then singleYield? u.text else none

/-- The units of a class in slot order. -/
structure StateUnits where
  units : List StateUnit := []

namespace StateUnits

def get? (s : StateUnits) (node : NodeId) : Option StateUnit :=
  s.units.find? (·.node = node)

/-- Changes the unit of a node. -/
def modify (s : StateUnits) (node : NodeId) (f : StateUnit → StateUnit) : StateUnits :=
  { s with units := s.units.map fun u => if u.node = node then f u else u }

/-- The slot of a node; the first time a unit with a body of its own is entered. -/
def register (s : StateUnits) (table : SymbolTable) (node : NodeId) :
    Nat × StateUnits × SymbolTable :=
  match s.get? node with
  | some u => (u.slot, s, table)
  | none =>
    let slot := s.units.length
    let (body, table) := table.newBody
    (slot, { s with units := s.units ++ [{ node, slot, body }] }, table)

/-- Starts the emission of a pending unit, and gives its body. -/
def begin (s : StateUnits) (node : NodeId) : Option (BodyId × StateUnits) :=
  match s.get? node with
  | some u =>
    if u.progress = .pending then
      some (u.body, s.modify node fun u => { u with progress := .inProgress })
    else none
  | none => none

/-- Notes that a unit was asked for again. -/
def noteReference (s : StateUnits) (node : NodeId) : StateUnits :=
  s.modify node fun u => if u.progress = .inProgress then { u with selfReference := true } else u

/-- Ends the emission of a unit. -/
def finish (s : StateUnits) (node : NodeId) (text : String) : StateUnits :=
  s.modify node fun u => { u with text, progress := .done }

/-- The units that have a case. -/
def cases (s : StateUnits) : List StateUnit :=
  s.units.filter fun u => u.degenerate?.isNone

end StateUnits

/-- A body that ends the unit. -/
def unitBody (body : String) : String :=
  if Code.endsWithJump body then body else Code.lines [body, "yield break;"]

/-- The dispatcher over slots and their bodies, if there are any. -/
def dispatcherText (enumerator : String) (bodies : List (Nat × String)) : Option String :=
  if bodies.isEmpty then none
  else
    let sections := bodies.map fun (slot, body) => ⟨[toString slot], unitBody body⟩
    let body := Code.lines [(Fragment.switch "slot" sections none).text, "yield break;"]
    some ("private " ++ enumerator ++ " " ++ dispatcherName ++ "(int slot) " ++ Code.braced body)

/-! ## Calls of the runtime object -/

/-- Starts a unit; a degenerate one gets its value. -/
def runCall (slot : Nat) : Option String → String
  | some value => runtimeProperty ++ ".Run(" ++ toString slot ++ ", " ++ value ++ ")"
  | none => runtimeProperty ++ ".Run(" ++ toString slot ++ ")"

def stopCall (slot : Nat) : String :=
  runtimeProperty ++ ".Stop(" ++ toString slot ++ ")"

def queryCall (slot : Nat) (query : UnitQuery) : String :=
  runtimeProperty ++ "." ++ query.methodName ++ "(" ++ toString slot ++ ")"

end FlowClass
