import FlowClass.Code.Layout
import FlowClass.Code.Scan
import FlowClass.Error

/-!
# Statements and operators

Each builder takes emitted expressions and bodies and gives the text of a larger piece of code, with
the kind of syntax it is.
-/

namespace FlowClass

inductive FragmentKind where
  | expression
  | statement
  /-- A statement with a body in braces. -/
  | block
deriving DecidableEq

/-- A piece of emitted code. -/
structure Fragment where
  kind : FragmentKind
  text : String
deriving DecidableEq

/-- A section of a switch. -/
structure SwitchSection where
  labels : List String
  body : String

/-- What a lambda does. -/
inductive LambdaBody where
  | expression (text : String)
  | statements (text : String)

namespace Fragment

open Code

def isEmpty (f : Fragment) : Bool :=
  blank f.text

def indented (levels : Nat) (f : Fragment) : Fragment :=
  { f with text := indent levels f.text }

/-! ## Statements -/

def invoke (call : String) : Fragment :=
  ⟨.statement, call ++ ";"⟩

/-- The part after the first body: nothing for a blank one, and no braces around a single `if`. -/
def elseText (body : String) : String :=
  if blank body then ""
  else
    let trimmed := Text.trim body.toList
    if isSingleIf trimmed then " else " ++ String.ofList trimmed else " else " ++ braced body

def ifElse (condition thenBody : String) (elseBody : Option String) : Fragment :=
  ⟨.block, "if (" ++ condition ++ ") " ++ braced thenBody ++ (elseBody.elim "" elseText)⟩

/-- The body of a section, which has to leave. -/
def sectionBody (body : String) : String :=
  if endsWithJump body then body else lines [body, "break;"]

def sectionText (head body : String) : String :=
  head ++ "\n" ++ indent 1 (sectionBody body)

/-- Sections without labels cannot be reached and are left out. -/
def switch (value : String) (sections : List SwitchSection) (default : Option String) : Fragment :=
  let labelled := sections.filter fun s => !s.labels.isEmpty
  let texts :=
    labelled.map (fun s =>
      sectionText (joinText "\n" (s.labels.map fun label => "case " ++ label ++ ":")) s.body) ++
    default.toList.map (sectionText "default:")
  let head := "switch (" ++ value ++ ") "
  if texts.isEmpty then ⟨.block, head ++ "\x7b\x7d"⟩
  else ⟨.block, head ++ "\x7b\n" ++ indent 1 (joinText "\n" texts) ++ "\n\x7d"⟩

def forLoop (init condition step body : String) : Fragment :=
  ⟨.block, "for (" ++ init ++ "; " ++ condition ++ "; " ++ step ++ ") " ++ braced body⟩

def forEach (type name collection body : String) : Fragment :=
  ⟨.block, "foreach (" ++ type ++ " " ++ name ++ " in " ++ collection ++ ") " ++ braced body⟩

def whileLoop (condition body : String) : Fragment :=
  ⟨.block, "while (" ++ condition ++ ") " ++ braced body⟩

/-- A scope of its own. -/
def scope (body : String) : Fragment :=
  ⟨.block, braced body⟩

/-- A single parameter without a type needs no parentheses. -/
def lambda (params : List String) (body : LambdaBody) : Fragment :=
  let head :=
    match params with
    | [param] => if param.toList.contains ' ' then "(" ++ param ++ ")" else param
    | _ => "(" ++ joinText ", " params ++ ")"
  match body with
  | .expression text => ⟨.expression, head ++ " => " ++ text⟩
  | .statements text => ⟨.expression, head ++ " => " ++ braced text⟩

def assign (left right : String) (op : AssignOp) : Fragment :=
  ⟨.statement, left ++ " " ++ op.symbol ++ " " ++ right ++ ";"⟩

/-- Stores through a call, for places that cannot be assigned; an operator that combines reads
`current` first. -/
def assignByCall (setter : String) (args : List String) (current value : String) (op : AssignOp) :
    Fragment :=
  let value :=
    match op.combining with
    | some combine => operand current ++ " " ++ combine.symbol ++ " " ++ operand value
    | none => value
  ⟨.statement, setter ++ "(" ++ joinText ", " (args ++ [value]) ++ ");"⟩

/-- The declaration of a local. -/
def declare (type name : String) : Option String → Fragment
  | some value => ⟨.statement, type ++ " " ++ name ++ " = " ++ value ++ ";"⟩
  | none => ⟨.statement, type ++ " " ++ name ++ ";"⟩

def returnValue : Option String → Fragment
  | some value => ⟨.statement, "return " ++ value ++ ";"⟩
  | none => ⟨.statement, "return;"⟩

def yieldReturn (value : String) : Fragment :=
  ⟨.statement, "yield return " ++ value ++ ";"⟩

def yieldBreak : Fragment := ⟨.statement, "yield break;"⟩

def breakLoop : Fragment := ⟨.statement, "break;"⟩

def continueLoop : Fragment := ⟨.statement, "continue;"⟩

/-- Puts a blank between a star and a slash that touch, in either order. -/
def part : List Char → List Char
  | [] => []
  | [c] => [c]
  | c :: d :: s =>
    if (c = '*' && d = '/') || (c = '/' && d = '*') then c :: ' ' :: part (d :: s)
    else c :: part (d :: s)

/-- A comment of one line that cannot end early. -/
def placeholder (text : String) : Fragment :=
  let inner := (part text.toList).map fun c => if c = '\n' then ' ' else c
  ⟨.statement, "/* " ++ String.ofList inner ++ " */"⟩

/-! ## Operators -/

/-- The expression of an operator; a conversion needs the type to convert to. -/
def operator (op : Operator) (operands : List String) (cast : Option String) :
    Except Misuse Fragment :=
  match op.shape, operands with
  | .betweenOperands, [a, b] =>
    .ok ⟨.expression, "(" ++ operand a ++ " " ++ op.symbol ++ " " ++ operand b ++ ")"⟩
  | .beforeOperand, [a] => .ok ⟨.expression, op.symbol ++ operand a⟩
  | .conversion, [a] =>
    match cast with
    | some type => .ok ⟨.expression, "((" ++ type ++ ")" ++ operand a ++ ")"⟩
    | none => .error (.castWithoutType op)
  | _, _ => .error (.operandCount op operands.length)

end Fragment

end FlowClass
