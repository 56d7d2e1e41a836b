import FlowClass.Emit.Term

/-!
# Flow

A chain of nodes is emitted as one text below the other, from a node to its continuation. It ends
where it comes to a node that has a body of its own:

* a *state* node is a unit, which is started by a call;
* a *shared* node, which several nodes or entry points lead to, is a method.

Either body is emitted once, when it is first needed. The recursion between chains, outputs and
units is bounded by a depth, which `Env.depth` makes large enough.
-/

namespace FlowClass

/-- What the hooks of a node may ask for. -/
structure Services (ν : Type) where
  /-- The chain that starts at a node. -/
  flow : Option NodeId → Emit ν String
  /-- An output of a node. -/
  output : NodeId → UInt16 → Emit ν String
  /-- The slot of a state node's unit. -/
  slot : NodeId → Emit ν Nat

/-- A kind of node that can be emitted. -/
class NodeKind (ν : Type) extends NodeShape ν where
  /-- Registers what the node needs, before any body is emitted. -/
  setUp : Services ν → NodeId → ν → Emit ν Unit := fun _ _ _ => pure ()
  /-- The statement of a flow node, with all flow ports but its continuation. -/
  code : Services ν → NodeId → ν → Emit ν String := fun _ _ n =>
    Emit.fail (.invalid (.statement (title n)))
  /-- The expression of an output. -/
  value : Services ν → NodeId → UInt16 → ν → Emit ν String := fun _ _ port n =>
    Emit.fail (.invalid (.output port (title n)))

namespace Emit

variable {ν : Type} [NodeKind ν]

/-! ## Failures -/

/-- Notes the failure of a node, and gives a comment in place of its code. -/
def recordFailure (id : NodeId) (e : GenError) : Emit ν String := do
  let graph := (← env).graph
  let title := ((graph.get? id).map NodeShape.title).getD ""
  let message := Marker.strip e.root.message
  let owner := (← get).place.ownerName
  modify fun s =>
    { s with
      diagnostics := s.diagnostics ++
        [{ graph := graph.name, node := some (e.node?.getD id), owner, message }] }
  return (Fragment.placeholder s!"flowgen: node {id} ({title}) failed: {message}").text

/-- Runs the emission of a node. A batched pass goes on after a failure; otherwise the error is
attributed to the node. -/
def recover (id : NodeId) (x : Emit ν String) : Emit ν String := do
  match ← attempt x with
  | .ok text => return text
  | .error e =>
    if (← env).config.isBatched then recordFailure id e
    else fail (e.inNode id (← get).place.ownerName)

/-! ## One node -/

/-- The node with an identity. -/
def nodeAt (id : NodeId) : Emit ν ν := do
  match (← env).graph.node id with
  | .ok n => return n
  | .error e => fail (.graph e)

/-- The statement of a node. -/
def statement (services : Services ν) (id : NodeId) : Emit ν String := do
  let n ← nodeAt id
  note (.statement id (← get).place)
  let text ← withSplice (NodeKind.code services id n)
  return (← env).config.mark (.node id) text

/-- An output of a node. -/
def readOutput (services : Services ν) (id : NodeId) (port : UInt16) : Emit ν String := do
  if (← get).reading.contains (id, port) then fail (.valueCycle id)
  else
    match (← env).graph.get? id with
    | none => unresolved (.nodeOutput id port)
    | some n =>
      note (.value id port (← get).place)
      let text ← withReading id port (NodeKind.value services id port n)
      return (← env).config.mark (.node id) text

/-! ## Units -/

/-- The slot of a node's unit, entered the first time. -/
def registerUnit (id : NodeId) : Emit ν Nat := fun _ s =>
  let (slot, units, symbols) := s.units.register s.symbols id
  (.ok slot, { s with units, symbols })

/-- The body of a unit whose emission starts now. -/
def beginUnit (id : NodeId) : Emit ν (Option BodyId) := fun _ s =>
  match s.units.begin id with
  | some (body, units) => (.ok (some body), { s with units })
  | none => (.ok none, s)

def finishUnit (id : NodeId) (text : String) : Emit ν Unit :=
  modify fun s => { s with units := s.units.finish id text }

/-- Emits the body of a unit at the place it is first asked for from. -/
def emitUnit (chain : NodeId → Emit ν String) (id : NodeId) (body : BodyId) : Emit ν Unit := do
  match ← attempt (atPlace (Place.toUnit body) (chain id)) with
  | .ok text => finishUnit id text
  | .error e =>
    finishUnit id ""
    fail e

/-- The slot of a unit, whose body is emitted the first time; `chain` emits a chain whose first node
is written in place. -/
def unitSlot (chain : NodeId → Emit ν String) (id : NodeId) : Emit ν Nat := do
  note (.slot id)
  demand (← isState id) (.notAUnit id)
  let place := (← get).place
  demand (!place.isStatic) (.unitInStatic id place.ownerName)
  modify fun s => { s with runtimeUsed := true }
  let slot ← registerUnit id
  match ← beginUnit id with
  | some body => emitUnit chain id body
  | none => modify fun s => { s with units := s.units.noteReference id }
  return slot

/-- The slot of a unit that the current body refers to. -/
def referToUnit (chain : NodeId → Emit ν String) (id : NodeId) : Emit ν Nat := do
  let slot ← unitSlot chain id
  refer (.unit id)
  return slot

/-- The statement that starts a unit; inside a unit it waits for the other one. -/
def startUnit (slot : NodeId → Emit ν Nat) (id : NodeId) : Emit ν String := do
  let slot ← slot id
  let s ← get
  let value := (s.units.get? id).bind StateUnit.degenerate?
  note (.run slot value s.place)
  let call := runCall slot value
  return (if s.place.resumable then Fragment.yieldReturn call else Fragment.invoke call).text

/-! ## Shared nodes -/

/-- Enters the method of a shared node. -/
def registerShared (id : NodeId) (title : String) (returnType : Ty) : Emit ν (String × BodyId) :=
  fun _ s =>
    let modifiers := if s.place.isStatic then Modifiers.ownOnly.asStatic else Modifiers.ownOnly
    let request : MethodSymbol :=
      { base := s!"{title}_{id}", name := "", returnType, modifiers, body := ⟨0⟩ }
    match s.symbols.registerMethod s.names (some (.node id)) request with
    | .error what => (.error (.invalid what), s)
    | .ok (handle, symbols, names) =>
      match symbols.method? handle with
      | none => (.error (.invalid (.sharedMethod id)), { s with symbols, names })
      | some m =>
        (.ok (m.name, m.body),
          { s with symbols, names, shared := (id, (m.name, returnType)) :: s.shared })

/-- Emits the method of a shared node that the current body is the first to refer to. -/
def emitShared (chain : NodeId → Emit ν String) (id : NodeId) (returnType : Ty) :
    Emit ν String := do
  let n ← nodeAt id
  let (name, body) ← registerShared id (NodeShape.title n) returnType
  refer (.shared id)
  let text ← atPlace (Place.toShared body returnType) (chain id)
  modify fun s => { s with symbols := s.symbols.setBodyText body text }
  return name

/-- The name of a shared node's method, which is emitted the first time. -/
def sharedName (chain : NodeId → Emit ν String) (id : NodeId) (returnType : Ty) :
    Emit ν String := do
  match (← get).shared.lookup id with
  | some (name, type) =>
    demand (type = returnType) (.sharedReturnTypes id name)
    refer (.shared id)
    return name
  | none => emitShared chain id returnType

/-- The statement that goes on in a shared node's method. -/
def callShared (chain : NodeId → Emit ν String) (id : NodeId) : Emit ν String := do
  let returnType := (← get).place.returnType
  let name ← sharedName chain id returnType
  let call := name ++ "()"
  return (if returnType.isVoid then Fragment.invoke call else Fragment.returnValue (some call)).text

/-! ## Chains -/

/-- The end of an emission that would nest deeper than the depth allows. -/
def cutOff {α : Type} : Emit ν α := do
  note .cutOff
  fail .tooDeep

/-- The texts of a chain, from its next node on. `inline` writes that node in place, whatever body
it has; `seen` are the nodes written in place before. -/
def chainParts (unit shared inPlace : NodeId → Emit ν String) :
    Nat → Bool → List NodeId → Option NodeId → Emit ν (List String)
  | 0, _, _, _ => cutOff
  | _ + 1, _, _, none => pure []
  | steps + 1, inline, seen, some id => do
    match (← env).graph.get? id with
    | none => return []
    | some n =>
      let state ← if inline then pure false else isState id
      if state then return [← recover id (unit id)]
      else if !inline && (← env).table.isShared id then return [← recover id (shared id)]
      else if seen.contains id then fail (.invalid (.revisit id))
      else
        let text ← recover id (inPlace id)
        let rest ← chainParts unit shared inPlace steps false (id :: seen) (NodeShape.next n)
        return text :: rest

mutual

/-- The chain that starts at a node. -/
def chainAt : Nat → Bool → Option NodeId → Emit ν String
  | 0, _, _ => cutOff
  | depth + 1, inline, start => do
    let services : Services ν := ⟨chainAt depth false, outputAt depth, slotAt depth⟩
    let parts ← chainParts (startUnit (slotAt depth))
      (callShared fun id => chainAt depth true (some id)) (statement services)
      ((← env).graph.size + 1) inline [] start
    return Code.lines parts

/-- An output of a node. -/
def outputAt : Nat → NodeId → UInt16 → Emit ν String
  | 0, _, _ => cutOff
  | depth + 1, id, port =>
    readOutput ⟨chainAt depth false, outputAt depth, slotAt depth⟩ id port

/-- The slot of a unit. -/
def slotAt : Nat → NodeId → Emit ν Nat
  | 0, _ => cutOff
  | depth + 1, id => referToUnit (fun id => chainAt depth true (some id)) id

end

/-- The services at the outermost level. -/
def services : Emit ν (Services ν) := do
  let depth := (← env).depth
  return ⟨chainAt depth false, outputAt depth, slotAt depth⟩

/-- Emits a body inside an expression, which cannot wait. -/
def nested (services : Services ν) (start : Option NodeId) (returnType : Ty) : Emit ν String :=
  atPlace (Place.toNested returnType) (services.flow start)

end Emit

end FlowClass
