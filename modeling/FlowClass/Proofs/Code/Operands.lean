import FlowClass.Emit.Node
import FlowClass.Emit.Prepare

/-!
# Operands

Only a blank outside brackets and literals puts an operand in parentheses. So an operator in front of
its operand is read back from the text exactly if the operand is in parentheses or does not begin with
a sign itself (`Fragment.signs_iff`). Otherwise two expressions may have one text
(`negations_misread`).
-/

namespace FlowClass

open List Code

/-- What an operator in front of its operand is made of. -/
def Code.isSign (c : Char) : Bool :=
  c = '+' || c = '-' || c = '!' || c = '~'

/-- The longest row of signs is the operator, unless the operand goes on with it. -/
theorem Fragment.signs_iff {op : Operator} (hop : op.shape = .beforeOperand) (a : String)
    (cast : Option String) : ∃ text, Fragment.operator op [a] cast = .ok ⟨.expression, text⟩ ∧
      (text.toList.takeWhile isSign = op.symbol.toList ↔
        isAtomic a = false ∨ a.toList.takeWhile isSign = []) := by
  have hsymbol : ∀ c ∈ op.symbol.toList, isSign c = true := by
    revert hop
    cases op <;> simp [Operator.shape, Operator.symbol, isSign]
  refine ⟨op.symbol ++ operand a, by simp [Fragment.operator, hop], ?_⟩
  rw [String.toList_append, takeWhile_append_of_pos hsymbol, append_right_eq_self, operand]
  cases isAtomic a with
  | true => simp
  | false => simp [String.toList_append, isSign]

/-- Expressions in which an operator stands before `x`. -/
def negations : Graph Node where
  name := "C"
  classDecl := { name := "C" }
  nodes :=
    [(⟨1⟩, .operator .unaryNegation [.chain .self [.ofField "x" .int]] none),
      (⟨2⟩, .operator .unaryNegation [.output ⟨1⟩ 0] none),
      (⟨3⟩, .operator .decrement [.chain .self [.ofField "x" .int]] none),
      (⟨4⟩, .operator .unaryNegation [.chain .self [.ofField "x" .int, .ofField "F" .int]] none),
      (⟨5⟩, .operator .explicit [.output ⟨1⟩ 0] (some (.ofClass "" "Money")))]

/-- The negation of a negation is written as a decrement, a member of a negation as the negation of a
member, and the conversion of a negation as a subtraction. -/
theorem negations_misread : ∃ gen, Generation.start negations {} = .ok gen ∧
    [Term.output ⟨2⟩ 0, .output ⟨3⟩ 0, .chain (.ofValue (.output ⟨1⟩ 0)) [.ofField "F" .int],
      .output ⟨4⟩ 0, .output ⟨5⟩ 0].map (fun t =>
        (Emit.term (Emit.outputAt gen.env.depth) t gen.env gen.state).1.toOption) =
      [some "--x", some "--x", some "-x.F", some "-x.F", some "((Money)-x)"] :=
  ⟨_, rfl, by decide +kernel⟩

end FlowClass
