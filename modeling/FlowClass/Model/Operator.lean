/-!
# Operators

The operators of the generated language, each with the name its method has in compiled code.
-/

namespace FlowClass

inductive Operator where
  | add
  | subtract
  | multiply
  | divide
  | modulus
  | equality
  | inequality
  | lessThan
  | lessThanOrEqual
  | greaterThan
  | greaterThanOrEqual
  | bitwiseAnd
  | bitwiseOr
  | exclusiveOr
  | leftShift
  | rightShift
  | logicalAnd
  | logicalOr
  | unaryNegation
  | unaryPlus
  | logicalNot
  | onesComplement
  | increment
  | decrement
  | implicit
  | explicit
deriving DecidableEq

/-- Where the symbol of an operator stands. -/
inductive OperatorShape where
  | betweenOperands
  | beforeOperand
  | conversion
deriving DecidableEq

namespace Operator

def all : List Operator :=
  [.add, .subtract, .multiply, .divide, .modulus, .equality, .inequality, .lessThan,
    .lessThanOrEqual, .greaterThan, .greaterThanOrEqual, .bitwiseAnd, .bitwiseOr, .exclusiveOr,
    .leftShift, .rightShift, .logicalAnd, .logicalOr, .unaryNegation, .unaryPlus, .logicalNot,
    .onesComplement, .increment, .decrement, .implicit, .explicit]

/-- The name of the operator in documents. -/
def kindName : Operator → String
  | .add => "Add"
  | .subtract => "Subtract"
  | .multiply => "Multiply"
  | .divide => "Divide"
  | .modulus => "Modulus"
  | .equality => "Equality"
  | .inequality => "Inequality"
  | .lessThan => "LessThan"
  | .lessThanOrEqual => "LessThanOrEqual"
  | .greaterThan => "GreaterThan"
  | .greaterThanOrEqual => "GreaterThanOrEqual"
  | .bitwiseAnd => "BitwiseAnd"
  | .bitwiseOr => "BitwiseOr"
  | .exclusiveOr => "ExclusiveOr"
  | .leftShift => "LeftShift"
  | .rightShift => "RightShift"
  | .logicalAnd => "LogicalAnd"
  | .logicalOr => "LogicalOr"
  | .unaryNegation => "UnaryNegation"
  | .unaryPlus => "UnaryPlus"
  | .logicalNot => "LogicalNot"
  | .onesComplement => "OnesComplement"
  | .increment => "Increment"
  | .decrement => "Decrement"
  | .implicit => "Implicit"
  | .explicit => "Explicit"

/-- The name of the method that compiled code gives the operator. Three arithmetic operators have
names of their own there. -/
def methodName : Operator → String
  | .add => "op_Addition"
  | .subtract => "op_Subtraction"
  | .divide => "op_Division"
  | op => "op_" ++ op.kindName

def ofMethodName? (name : String) : Option Operator :=
  all.find? (·.methodName == name)

/-- The symbol; conversions have none. -/
def symbol : Operator → String
  | .add => "+"
  | .unaryPlus => "+"
  | .subtract => "-"
  | .unaryNegation => "-"
  | .multiply => "*"
  | .divide => "/"
  | .modulus => "%"
  | .equality => "=="
  | .inequality => "!="
  | .lessThan => "<"
  | .lessThanOrEqual => "<="
  | .greaterThan => ">"
  | .greaterThanOrEqual => ">="
  | .bitwiseAnd => "&"
  | .bitwiseOr => "|"
  | .exclusiveOr => "^"
  | .leftShift => "<<"
  | .rightShift => ">>"
  | .logicalAnd => "&&"
  | .logicalOr => "||"
  | .logicalNot => "!"
  | .onesComplement => "~"
  | .increment => "++"
  | .decrement => "--"
  | .implicit => ""
  | .explicit => ""

def shape : Operator → OperatorShape
  | .unaryNegation => .beforeOperand
  | .unaryPlus => .beforeOperand
  | .logicalNot => .beforeOperand
  | .onesComplement => .beforeOperand
  | .increment => .beforeOperand
  | .decrement => .beforeOperand
  | .implicit => .conversion
  | .explicit => .conversion
  | _ => .betweenOperands

/-- How many operands the operator takes. -/
def arity (op : Operator) : Nat :=
  match op.shape with
  | .betweenOperands => 2
  | .beforeOperand => 1
  | .conversion => 1

/-- The operator compares its operands and gives a truth value. -/
def isComparison : Operator → Bool
  | .equality => true
  | .inequality => true
  | .lessThan => true
  | .lessThanOrEqual => true
  | .greaterThan => true
  | .greaterThanOrEqual => true
  | _ => false

end Operator

/-- How a value is stored: as it is, or combined with what was there. -/
inductive AssignOp where
  | assign
  | add
  | subtract
  | multiply
  | divide
  | modulus
deriving DecidableEq

namespace AssignOp

def all : List AssignOp :=
  [.assign, .add, .subtract, .multiply, .divide, .modulus]

def kindName : AssignOp → String
  | .assign => "Assign"
  | .add => "Add"
  | .subtract => "Subtract"
  | .multiply => "Multiply"
  | .divide => "Divide"
  | .modulus => "Modulus"

def symbol : AssignOp → String
  | .assign => "="
  | .add => "+="
  | .subtract => "-="
  | .multiply => "*="
  | .divide => "/="
  | .modulus => "%="

/-- The operator that combines the old value with the new one. -/
def combining : AssignOp → Option Operator
  | .assign => none
  | .add => some .add
  | .subtract => some .subtract
  | .multiply => some .multiply
  | .divide => some .divide
  | .modulus => some .modulus

end AssignOp

end FlowClass
