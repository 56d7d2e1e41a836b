import FlowClass.Error
import FlowClass.Symbol.Name

/-!
# Symbols

The members of the class that is generated, and the bodies that belong to them. Asking twice for the
same symbol gives the same handle.

A variable without a place becomes a local of the first body that uses it. A local that another body
uses becomes a field, and stays one.
-/

namespace FlowClass

/-- The place of a variable among the variables of a class. -/
structure VariableHandle where
  index : Nat
deriving DecidableEq

structure MethodHandle where
  index : Nat
deriving DecidableEq

structure PropertyHandle where
  index : Nat
deriving DecidableEq

/-- A body of a method, accessor, constructor or unit. -/
structure BodyId where
  index : Nat
deriving DecidableEq

/-- Where a variable lives. -/
inductive Storage where
  /-- A local of whichever body uses it first. -/
  | unbound
  | localTo (body : BodyId)
  | field
deriving DecidableEq

/-- Where a variable lives after one more use. -/
def Storage.usedBy (body : BodyId) : Storage → Storage
  | .unbound => .localTo body
  | .localTo owner => if owner = body then .localTo owner else .field
  | .field => .field

structure VariableSymbol where
  key : SymbolKey
  name : String
  type : Ty
  storage : Storage := .unbound
  default : Option Literal := none
  modifiers : Modifiers := {}
  attributes : List AttributeUse := []
  marker : Option MarkerId := none

namespace VariableSymbol

/-- The variable stands in the class declaration. -/
def isDeclared (v : VariableSymbol) : Bool :=
  match v.key with
  | .decl _ => true
  | _ => false

end VariableSymbol

structure ParamSymbol where
  name : String
  type : Ty
  passing : Passing := .byValue
  default : Option Literal := none

/-- What tells the overloads of a method apart. -/
def ParamSymbol.signature (params : List ParamSymbol) : List (Ty × Passing) :=
  params.map fun p => (p.type, p.passing)

structure MethodSymbol where
  /-- The name that was asked for. -/
  base : String
  /-- The emitted name, which overloads share. -/
  name : String
  returnType : Ty
  params : List ParamSymbol := []
  typeParams : List String := []
  modifiers : Modifiers := {}
  attributes : List AttributeUse := []
  marker : Option MarkerId := none
  body : BodyId

structure PropertySymbol where
  decl : DeclId
  name : String
  type : Ty
  modifiers : Modifiers := {}
  attributes : List AttributeUse := []
  getter : Option BodyId := none
  setter : Option BodyId := none

structure ConstructorSymbol where
  decl : Option DeclId
  params : List ParamSymbol := []
  modifiers : Modifiers := .openToAll
  body : BodyId

/-- Code that is put into a body beside its text: before it if the priority is negative, else
after it. -/
structure Contribution where
  priority : Int
  text : String
deriving DecidableEq

structure Body where
  text : Option String := none
  contributions : List Contribution := []

structure SymbolTable where
  vars : List VariableSymbol := []
  methods : List MethodSymbol := []
  /-- The method that was registered for a key. -/
  methodKeys : List (SymbolKey × MethodHandle) := []
  properties : List PropertySymbol := []
  constructors : List ConstructorSymbol := []
  bodies : List Body := []
  /-- The emitted names of declarations; the latest counts. -/
  declNames : List (DeclId × String) := []
  declBodies : List (DeclId × BodyId) := []

namespace SymbolTable

/-! ## Bodies -/

def newBody (t : SymbolTable) : BodyId × SymbolTable :=
  (⟨t.bodies.length⟩, { t with bodies := t.bodies ++ [{}] })

def body? (t : SymbolTable) (id : BodyId) : Option Body :=
  t.bodies[id.index]?

def setBodyText (t : SymbolTable) (id : BodyId) (text : String) : SymbolTable :=
  { t with bodies := t.bodies.modify id.index fun b => { b with text := some text } }

/-- Adds code to a body; the same code is added once. -/
def contribute (t : SymbolTable) (id : BodyId) (c : Contribution) : SymbolTable :=
  { t with
    bodies := t.bodies.modify id.index fun b =>
      { b with contributions := pushNew b.contributions c } }

def declBody? (t : SymbolTable) (decl : DeclId) : Option BodyId :=
  t.declBodies.lookup decl

/-- The emitted name of a declaration. -/
def declName? (t : SymbolTable) (decl : DeclId) : Option String :=
  t.declNames.lookup decl

/-! ## Variables -/

def variableHandle? (t : SymbolTable) (key : SymbolKey) : Option VariableHandle :=
  (t.vars.findIdx? (·.key = key)).map VariableHandle.mk

def variableAt? (t : SymbolTable) (handle : VariableHandle) : Option VariableSymbol :=
  t.vars[handle.index]?

/-- Names the emitted name of a declaration. -/
def nameDecl (t : SymbolTable) (key : SymbolKey) (name : String) : SymbolTable :=
  match key with
  | .decl id => { t with declNames := (id, name) :: t.declNames }
  | _ => t

/-- The variable of a key. The first time it is entered as described, under a new name made of the
one in the description. -/
def registerVariable (t : SymbolTable) (names : Names) (v : VariableSymbol) :
    VariableHandle × SymbolTable × Names :=
  match t.variableHandle? v.key with
  | some handle => (handle, t, names)
  | none =>
    let (name, names) := names.generate v.name
    let t := t.nameDecl v.key name
    (⟨t.vars.length⟩, { t with vars := t.vars ++ [{ v with name }] }, names)

/-- The name of a variable that a body uses. -/
def useVariable (t : SymbolTable) (handle : VariableHandle) (body : BodyId) :
    Option (String × SymbolTable) :=
  (t.variableAt? handle).map fun v =>
    (v.name, { t with
      vars := t.vars.modify handle.index fun v =>
        { v with storage := v.storage.usedBy body } })

/-- The variables declared at the head of a body. -/
def localsOf (t : SymbolTable) (body : BodyId) : List VariableSymbol :=
  t.vars.filter (·.storage = .localTo body)

/-- The variables declared in the class. -/
def fields (t : SymbolTable) : List VariableSymbol :=
  t.vars.filter (·.storage = .field)

/-! ## Methods -/

def method? (t : SymbolTable) (handle : MethodHandle) : Option MethodSymbol :=
  t.methods[handle.index]?

/-- The emitted name of the methods with a base name. -/
def methodName (t : SymbolTable) (names : Names) (base : String) : String × Names :=
  match t.methods.find? (·.base = base) with
  | some m => (m.name, names)
  | none => names.generate base

def keyMethod (t : SymbolTable) (key : Option SymbolKey) (handle : MethodHandle) : SymbolTable :=
  match key with
  | some key => { t with methodKeys := (key, handle) :: t.methodKeys }
  | none => t

/-- Enters a method with a body of its own. -/
def addMethod (t : SymbolTable) (names : Names) (key : Option SymbolKey) (m : MethodSymbol) :
    MethodHandle × SymbolTable × Names :=
  let (name, names) := t.methodName names m.base
  let (body, t) := t.newBody
  let handle : MethodHandle := ⟨t.methods.length⟩
  let t :=
    match key with
    | some (.decl id) =>
      { t with declNames := (id, name) :: t.declNames, declBodies := (id, body) :: t.declBodies }
    | _ => t
  let t := { t with methods := t.methods ++ [{ m with name, body }] }
  (handle, t.keyMethod key handle, names)

/-- The method of a key. One with the same base name and signature is taken if there is one, and has
to have the same return type; the name and body in the description are not used. -/
def registerMethod (t : SymbolTable) (names : Names) (key : Option SymbolKey) (m : MethodSymbol) :
    Except Misuse (MethodHandle × SymbolTable × Names) :=
  match (key.bind fun k => t.methodKeys.lookup k) with
  | some handle => .ok (handle, t, names)
  | none =>
    let same (other : MethodSymbol) : Bool :=
      other.base = m.base && ParamSymbol.signature other.params = ParamSymbol.signature m.params
    match t.methods.findIdx? same, t.methods.find? same with
    | some index, some existing =>
      if existing.returnType = m.returnType then
        .ok (⟨index⟩, t.keyMethod key ⟨index⟩, names)
      else .error (.methodReturnTypes m.base)
    | _, _ => .ok (t.addMethod names key m)

/-! ## Properties and constructors -/

/-- The property of a declaration, under a new name. -/
def registerProperty (t : SymbolTable) (names : Names) (p : PropertySymbol) :
    PropertyHandle × SymbolTable × Names :=
  match t.properties.findIdx? (·.decl = p.decl) with
  | some index => (⟨index⟩, t, names)
  | none =>
    let (name, names) := names.generate p.name
    (⟨t.properties.length⟩,
      { t with
        declNames := (p.decl, name) :: t.declNames
        properties := t.properties ++ [{ p with name }] },
      names)

def property? (t : SymbolTable) (handle : PropertyHandle) : Option PropertySymbol :=
  t.properties[handle.index]?

def modifyProperty (t : SymbolTable) (handle : PropertyHandle)
    (f : PropertySymbol → PropertySymbol) :
    SymbolTable :=
  { t with properties := t.properties.modify handle.index f }

/-- Enters a constructor with a body of its own. -/
def registerConstructor (t : SymbolTable) (decl : Option DeclId) (params : List ParamSymbol)
    (modifiers : Modifiers) : BodyId × SymbolTable :=
  let (body, t) := t.newBody
  let t :=
    match decl with
    | some id => { t with declBodies := (id, body) :: t.declBodies }
    | none => t
  (body, { t with constructors := t.constructors ++ [⟨decl, params, modifiers, body⟩] })

end SymbolTable

end FlowClass
