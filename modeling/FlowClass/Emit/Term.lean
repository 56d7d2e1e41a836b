import FlowClass.Emit.Basic

/-!
# Terms as expressions

A chain of members is folded from left to right. Members that are hidden go through the runtime
object. An argument that has to be assignable and is no plain variable or field is passed through a
temporary, which is declared before the statement and written back after it.

The recursion is on the term; `output` says how the output of another node is emitted.
-/

namespace FlowClass

/-- How far a chain was folded. -/
inductive Current where
  | type (text : String)
  | value (text : String)
  | self

namespace Emit

variable {ν : Type}

/-- The generated object, which static members do not have. -/
def selfText : Emit ν String := do
  let place := (← get).place
  demand (!place.isStatic) (.thisInStatic place.ownerName)
  return "this"

/-- The value that a folded chain stands for. -/
def currentValue : Current → Emit ν String
  | .type text => pure ("typeof(" ++ text ++ ")")
  | .value text => pure text
  | .self => selfText

/-- A folded chain as the object of a call. -/
def currentTarget : Current → Emit ν String
  | .type text => pure ("typeof(" ++ text ++ ")")
  | .value text => pure (Code.operand text)
  | .self => selfText

/-- A member of a folded chain; a member of the generated object goes by its bare name. -/
def access : Current → String → String
  | .type text, name => text ++ "." ++ name
  | .value text, name => Code.operand text ++ "." ++ name
  | .self, name => name

/-- The name of a step's member, which is the emitted one if the class declares it. -/
def memberName (s : Step) : Emit ν String := do
  match s.decl with
  | none => return s.name
  | some decl =>
    match ← declName? decl with
    | some name => return name
    | none => unresolved (.member s.name decl)

/-- Type arguments in brackets. -/
def typeArgsText (args : List Ty) : Emit ν String := do
  if args.isEmpty then return ""
  else return "<" ++ joinText ", " (← typeTexts args) ++ ">"

def applyMember (s : Step) (current : Current) : Emit ν String := do
  let name ← memberName s
  if s.reflected then
    let target ← currentTarget current
    let type ← typeText s.type
    let runtime ← runtime
    let args := target ++ ", " ++ Code.stringLiteral name
    return runtime ++ ".GetValue<" ++ type ++ ">(" ++ args ++ ")"
  else return access current name

def applyMethod (s : Step) (current : Current) (args : Emit ν (List String)) : Emit ν String := do
  let name ← memberName s
  let args ← args
  if s.reflected then
    let target ← currentTarget current
    let result ← if s.type.isVoid then pure "" else typeArgsText [s.type]
    let runtime ← runtime
    return runtime ++ ".Invoke" ++ result ++ "(" ++
      joinText ", " (target :: Code.stringLiteral name :: args) ++ ")"
  else
    let typeArgs ← typeArgsText s.typeArgs
    return access current name ++ typeArgs ++ "(" ++ joinText ", " args ++ ")"

def applyConstructor (s : Step) (index : Nat) (args : Emit ν (List String)) : Emit ν String := do
  if index = 0 then
    let args ← args
    return "new " ++ (← typeText s.type) ++ "(" ++ joinText ", " args ++ ")"
  else fail (.invalid (.lateConstructor (← typeText s.type)))

def applyIndexer (current : Current) (args : Emit ν (List String)) : Emit ν String := do
  let target ← currentTarget current
  return target ++ "[" ++ joinText ", " (← args) ++ "]"

/-- The operand before the arguments of an operator. -/
def leadingOperand : Current → Emit ν (List String)
  | .type _ => pure []
  | current => do return [← currentTarget current]

/-- The expression of an operator, as an emission. -/
def operatorText (op : Operator) (operands : List String) (cast : Option String) :
    Emit ν String :=
  match Fragment.operator op operands cast with
  | .ok fragment => pure fragment.text
  | .error what => fail (.invalid what)

def applyOperator (s : Step) (current : Current) (args : Emit ν (List String)) : Emit ν String := do
  match Operator.ofMethodName? s.name with
  | none => fail (.invalid (.unknownOperator s.name))
  | some op =>
    let leading ← leadingOperand current
    let args ← args
    operatorText op (leading ++ args) (some (← typeText s.type))

/-- Folds one step, the `index`-th of its chain. -/
def applyStep (s : Step) (index : Nat) (current : Current) (args : Emit ν (List String)) :
    Emit ν Current :=
  Current.value <$>
    match s.kind with
    | .field => applyMember s current
    | .property => applyMember s current
    | .method => applyMethod s current args
    | .constructor => applyConstructor s index args
    | .indexer => applyIndexer current args
    | .operator => applyOperator s current args

/-! ## Places that can be assigned -/

/-- The chain ends with a field, a property or an indexer. -/
def isAssignable (steps : List Step) : Bool :=
  match steps.getLast? with
  | none => false
  | some last => last.kind = .field || last.kind = .property || last.kind = .indexer

/-- Only a plain field that no copy stands in between can be passed by reference. -/
def needsTemporary (steps : List Step) : Bool :=
  match steps.getLast? with
  | none => false
  | some last =>
    last.kind != .field || last.reflected || steps.dropLast.any fun s => s.type.isValueType

/-- Stores a value in the last member of a chain; `read` emits the whole chain and `upTo` folds as
many steps of it. -/
def storeInChain (steps : List Step) (read : Emit ν String) (upTo : Nat → Emit ν Current)
    (value : String) (op : AssignOp) : Emit ν String := do
  match steps.getLast? with
  | none => fail (.invalid .targetBare)
  | some last =>
    if !isAssignable steps then fail (.invalid (.targetMember last.name))
    else if last.reflected && last.kind != .indexer then
      let owner ← currentTarget (← upTo (steps.length - 1))
      let name ← memberName last
      let current ← if op = .assign then pure "" else read
      let runtime ← runtime
      return (Fragment.assignByCall (runtime ++ ".SetValue") [owner, Code.stringLiteral name]
        current value op).text
    else return (Fragment.assign (← read) value op).text

/-- Stores a value where a term points to. -/
def storeIn (target : Term) (read : Emit ν String) (upTo : Nat → Emit ν Current) (value : String)
    (op : AssignOp) : Emit ν String := do
  match target with
  | .variable ref => return (Fragment.assign (← variableRef ref) value op).text
  | .output _ _ =>
    let text ← read
    demand (isIdentifier (Marker.strip text)) (.targetText text)
    return (Fragment.assign text value op).text
  | .chain _ steps => storeInChain steps read upTo value op
  | _ => fail (.invalid .targetOther)

/-- Passes a term as an argument that has to be assignable. -/
def passAssignable (param : Param) (arg : Term) (read : Emit ν String)
    (upTo : Nat → Emit ν Current) :
    Emit ν String := do
  let mark := param.passing.callMark
  match arg with
  | .variable ref => return mark ++ (← variableRef ref)
  | .output _ _ =>
    let text ← read
    demand (isIdentifier (Marker.strip text)) (.argument mark param.name)
    return mark ++ text
  | .chain _ steps =>
    if !isAssignable steps then fail (.invalid (.argument mark param.name))
    else if !needsTemporary steps then return mark ++ (← read)
    else
      let temporary ← temporaryName
      let type ← typeText param.type
      let value ← if param.passing = .byOut then pure none else some <$> read
      let exit ← storeIn arg read upTo temporary .assign
      splice (Fragment.declare type temporary value).text (some exit)
      return mark ++ temporary
  | _ => fail (.invalid (.argument mark param.name))

/-- Passes a term as an argument of a parameter, if the parameter is known. -/
def pass (param : Option Param) (arg : Term) (read : Emit ν String) (upTo : Nat → Emit ν Current) :
    Emit ν String := do
  match param with
  | none => read
  | some param =>
    if param.passing.isAssigning then passAssignable param arg read upTo
    else return param.passing.callMark ++ (← read)

/-! ## The recursion -/

/-- The expression of a collection, after its items. -/
def collectionText (kind : CollectionKind) (element : Ty) (items : List String) :
    Emit ν String := do
  match kind with
  | .array => return Code.arrayText (← typeText element) items
  | .list => return Code.listText (← typeText (.listOf element)) items

mutual

/-- The expression of a term. -/
def term (output : NodeId → UInt16 → Emit ν String) : Term → Emit ν String
  | .unassigned => unresolved .value
  | .literal value => literalText value
  | .variable ref => variableRef ref
  | .typeOf type => do return "typeof(" ++ (← typeText type) ++ ")"
  | .self => selfText
  | .output node port => output node port
  | .collection kind element items => do
    collectionText kind element (← terms output items)
  | .chain root steps => do
    let start ← chainStart output root
    currentValue (← fold output steps 0 steps.length start)

def terms (output : NodeId → UInt16 → Emit ν String) : List Term → Emit ν (List String)
  | [] => pure []
  | t :: ts => do
    let text ← term output t
    return text :: (← terms output ts)

/-- The value or type a chain starts from. -/
def chainStart (output : NodeId → UInt16 → Emit ν String) : ChainRoot → Emit ν Current
  | .ofType type => do return .type (← typeText type)
  | .ofValue value => do return .value (Code.operand (← term output value))
  | .self => pure .self

/-- Folds as many of the steps as `count` says. -/
def fold (output : NodeId → UInt16 → Emit ν String) :
    List Step → (index count : Nat) → Current → Emit ν Current
  | [], _, _, current => pure current
  | _ :: _, _, 0, current => pure current
  | s :: ss, index, count + 1, current => do
    let current ← applyStep s index current (stepArgs output s)
    fold output ss (index + 1) count current

def stepArgs (output : NodeId → UInt16 → Emit ν String) : Step → Emit ν (List String)
  | ⟨_, _, _, params, args, _, _, _⟩ => arguments output args params

def arguments (output : NodeId → UInt16 → Emit ν String) :
    List Term → List Param → Emit ν (List String)
  | [], _ => pure []
  | arg :: args, params => do
    let text ← pass params.head? arg (term output arg) (foldUpTo output arg)
    return text :: (← arguments output args params.tail)

/-- The first steps of a term that is a chain. -/
def foldUpTo (output : NodeId → UInt16 → Emit ν String) : Term → Nat → Emit ν Current
  | .chain root steps, count => do
    let start ← chainStart output root
    fold output steps 0 count start
  | _, _ => fail (.invalid .targetOther)

end

/-- Stores a value where a term points to. -/
def store (output : NodeId → UInt16 → Emit ν String) (target : Term) (value : String)
    (op : AssignOp) : Emit ν String :=
  storeIn target (term output target) (foldUpTo output target) value op

end Emit

end FlowClass
